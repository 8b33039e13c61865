import Mathlib.Tactic.SplitIfs
import Ming.Model.GCObj

/-!
# The new-born stack of a thread

The words below the top are what the collector reads. Growing the stack keeps them, and a
push adds one behind them.
-/

set_option autoImplicit false

namespace Ming.Interface

open Ming.Foundation Ming.Model

variable {th th' : MThread} {addr : ℕ}

/-- The words below the top of a new-born stack. -/
def nbWords (th : MThread) : List ℕ := th.nbStack.take th.nbTop

/-- The root that a word of a new-born stack stands for, with the colour it is marked with. -/
def nbRoot (word : ℕ) : Addr × BitVec 32 :=
  if word &&& GC_NB_FL_NO_PTR ≠ 0 then (word / 2 * 2, GC_MARK_BLACK) else (word, GC_MARK_GRAY)

/-- The words below the top of the new-born stacks of all listed threads. -/
def allNbWords (s : GCState) : List ℕ := s.threadList.flatMap nbWords

/-- The stack of a thread record: its size doubles from 32 on until it reaches `2 ^ 31`, and
the top lies inside of the buffer. -/
structure ThreadInv (th : MThread) : Prop where
  size : th.nbSize = 0 ∨ ∃ j, 5 ≤ j ∧ j ≤ 31 ∧ th.nbSize = 2 ^ j
  room : th.nbStack.length ≤ 2 ^ 31
  top : th.nbTop ≤ th.nbStack.length

/-- INTERNAL: the record of a new thread. -/
theorem ThreadInv.empty : ThreadInv ⟨[], 0, 0⟩ :=
  ⟨Or.inl rfl, by simp, le_rfl⟩

/-- INTERNAL: a lower level.
SOURCE: m_gc.h:96-106 -/
theorem ThreadInv.lower (h : ThreadInv th) {level : ℕ} (hl : level ≤ th.nbTop) :
    ThreadInv { th with nbTop := level } :=
  ⟨h.size, h.room, hl.trans h.top⟩

/-- INTERNAL: the size after growing.
SOURCE: m_gc_obj.c:600-601 -/
theorem nsize_spec {j : ℕ} (h5 : 5 ≤ j) :
    (j ≤ 30 → max (2 ^ j * 2 % 2 ^ 32) 32 = 2 ^ (j + 1)) ∧
      (j = 31 → max (2 ^ j * 2 % 2 ^ 32) 32 = 32) := by
  constructor
  · intro h30
    have hlt : 2 ^ (j + 1) < 2 ^ 32 := Nat.pow_lt_pow_right (by decide) (by omega)
    have hge : 2 ^ 5 ≤ 2 ^ (j + 1) := Nat.pow_le_pow_right (by decide) (by omega)
    rw [← Nat.pow_succ, Nat.mod_eq_of_lt hlt]
    exact max_eq_left hge
  · rintro rfl
    decide

/-- INTERNAL: growing keeps the top.
SOURCE: m_gc_obj.c:596-613 -/
theorem nbReserve_top (th : MThread) : (nbReserve th).nbTop = th.nbTop := by
  rw [nbReserve]
  split_ifs <;> rfl

/-- INTERNAL: growing keeps the invariant and the words below the top.
SOURCE: m_gc_obj.c:596-613 -/
theorem nbReserve_spec (h : ThreadInv th) : ThreadInv (nbReserve th) ∧
    nbWords (nbReserve th) = nbWords th := by
  rw [show nbReserve th = if th.nbTop = th.nbSize then
      { th with
        nbStack := mGCReallocBuf th.nbStack th.nbSize (max (th.nbSize * 2 % 2 ^ 32) 32)
        nbSize := max (th.nbSize * 2 % 2 ^ 32) 32 }
    else th from rfl]
  split_ifs with htop
  swap
  · exact ⟨h, rfl⟩
  rcases h.size with h0 | ⟨j, h5, h31, hj⟩
  · -- the first buffer
    rw [h0] at htop
    have hbuf : mGCReallocBuf th.nbStack th.nbSize (max (th.nbSize * 2 % 2 ^ 32) 32) =
        List.replicate 32 0 := by
      rw [h0, mGCReallocBuf, if_pos rfl]
      rfl
    rw [hbuf]
    refine ⟨⟨Or.inr ⟨5, le_rfl, by decide, ?_⟩, by simp, ?_⟩, ?_⟩
    · rw [h0]
      rfl
    · rw [htop]
      exact Nat.zero_le _
    · rw [nbWords, nbWords, htop, List.take_zero, List.take_zero]
  · have hpos : 2 ^ j ≠ 0 := Nat.ne_of_gt (Nat.two_pow_pos j)
    rcases Nat.lt_or_ge 30 j with h30 | h30
    · -- the doubled size wraps around, and the buffer stays as it is
      obtain rfl : j = 31 := by omega
      have hbuf : mGCReallocBuf th.nbStack th.nbSize (max (th.nbSize * 2 % 2 ^ 32) 32) =
          th.nbStack := by
        rw [hj, (nsize_spec h5).2 rfl, mGCReallocBuf, if_neg hpos, if_pos (by decide)]
      rw [hbuf, hj, (nsize_spec h5).2 rfl]
      exact ⟨⟨Or.inr ⟨5, le_rfl, by decide, rfl⟩, h.room, h.top⟩, rfl⟩
    · have hlt : 2 ^ j < 2 ^ (j + 1) := Nat.pow_lt_pow_right (by decide) (Nat.lt_succ_self j)
      have hle : 2 ^ (j + 1) ≤ 2 ^ 31 := Nat.pow_le_pow_right (by decide) (by omega)
      have hbuf : mGCReallocBuf th.nbStack th.nbSize (max (th.nbSize * 2 % 2 ^ 32) 32) =
          (th.nbStack ++ List.replicate (2 ^ (j + 1) - th.nbStack.length) 0).take
            (2 ^ (j + 1)) := by
        rw [hj, (nsize_spec h5).1 h30, mGCReallocBuf, if_neg hpos, if_neg (Nat.not_le.mpr hlt)]
      have hlen : ((th.nbStack ++ List.replicate (2 ^ (j + 1) - th.nbStack.length) 0).take
          (2 ^ (j + 1))).length = 2 ^ (j + 1) := by
        rw [List.length_take, List.length_append, List.length_replicate]
        omega
      rw [hbuf]
      refine ⟨⟨Or.inr ⟨j + 1, by omega, by omega, ?_⟩, ?_, ?_⟩, ?_⟩
      · rw [hj, (nsize_spec h5).1 h30]
      · rw [hlen]
        exact hle
      · rw [hlen, htop, hj]
        exact hlt.le
      · have htake : min th.nbTop (2 ^ (j + 1)) = th.nbTop := by
          rw [htop, hj]
          exact min_eq_left hlt.le
        rw [nbWords, nbWords, List.take_take, htake, List.take_append_of_le_length h.top]

/-- INTERNAL: a push adds a word behind the others.
SOURCE: m_gc_obj.c:627-629 -/
theorem nbPush_spec (h : ThreadInv th) (e : nbPush th addr = .ok th') :
    ThreadInv th' ∧ nbWords th' = nbWords th ++ [addr] := by
  rw [nbPush] at e
  split_ifs at e with hlt
  obtain rfl := Except.ok.inj e
  have hroom := h.room
  have htop : (th.nbTop + 1) % 2 ^ 32 = th.nbTop + 1 := Nat.mod_eq_of_lt (by omega)
  refine ⟨⟨h.size, by simpa using hroom, ?_⟩, ?_⟩
  · rw [htop, List.length_set]
    exact hlt
  · rw [nbWords, nbWords, htop, List.take_succ_eq_append_getElem (by simpa using hlt),
      List.getElem_set_self, List.take_set_of_le le_rfl]

/-! ## The words of all threads -/

/-- INTERNAL: replacing one element of a list of lists. -/
theorem mem_flatMap_set {α β : Type} {l : List α} {f : α → List β} {i : ℕ} {a a' : α} {x : β}
    (ha : l[i]? = some a) : (x ∈ (l.set i a').flatMap f → x ∈ f a' ∨ x ∈ l.flatMap f) ∧
      (x ∈ f a' → x ∈ (l.set i a').flatMap f) ∧
      ((x ∈ f a → x ∈ f a') → x ∈ l.flatMap f → x ∈ (l.set i a').flatMap f) := by
  have hi : i < l.length := (List.getElem?_eq_some_iff.mp ha).1
  have hnew : x ∈ f a' → x ∈ (l.set i a').flatMap f := fun hx =>
    List.mem_flatMap.mpr ⟨a', List.mem_set hi a', hx⟩
  refine ⟨fun hx => ?_, hnew, fun hsub hx => ?_⟩
  · obtain ⟨b, hb, hxb⟩ := List.mem_flatMap.mp hx
    rcases List.mem_or_eq_of_mem_set hb with hb | rfl
    · exact Or.inr (List.mem_flatMap.mpr ⟨b, hb, hxb⟩)
    · exact Or.inl hxb
  · obtain ⟨b, hb, hx⟩ := List.mem_flatMap.mp hx
    obtain ⟨j, hj⟩ := List.mem_iff_getElem?.mp hb
    by_cases hij : i = j
    · subst hij
      obtain rfl := Option.some.inj (ha.symm.trans hj)
      exact hnew (hsub hx)
    · refine List.mem_flatMap.mpr ⟨b, List.mem_iff_getElem?.mpr ⟨j, ?_⟩, hx⟩
      rw [List.getElem?_set_ne hij, hj]

/-- INTERNAL: the elements of a list with one of them changed. -/
theorem mem_of_mem_modify {α : Type} {l : List α} {i : ℕ} {f : α → α} {x : α}
    (h : x ∈ l.modify i f) : x ∈ l ∨ ∃ y ∈ l, x = f y := by
  obtain ⟨j, hj⟩ := List.mem_iff_getElem?.mp h
  rw [List.getElem?_modify] at hj
  cases hy : l[j]? with
  | none => simp [hy] at hj
  | some y =>
    have hmem := List.mem_of_getElem? hy
    by_cases hij : i = j
    · exact Or.inr ⟨y, hmem, by simpa [hy, hij] using hj.symm⟩
    · have hx : y = x := by simpa [hy, hij] using hj
      exact Or.inl (hx ▸ hmem)

/-- INTERNAL: the word of a new-born entry, and the word after `m_gc_add_obj`.
SOURCE: m_gc_obj.c:627, m_gc.h:133 -/
theorem nbRoot_word (h : 8 ∣ addr) : nbRoot (addr ||| GC_NB_FL_NO_PTR) = (addr, GC_MARK_BLACK) ∧
    (addr ||| GC_NB_FL_NO_PTR) / 4 * 4 = addr ∧ nbRoot addr = (addr, GC_MARK_GRAY) ∧
    (addr ||| GC_NB_FL_NO_PTR) &&& GC_NB_FL_NO_PTR ≠ 0 ∧ ¬ addr &&& GC_NB_FL_NO_PTR ≠ 0 := by
  obtain ⟨k, rfl⟩ := h
  have hor : 8 * k ||| GC_NB_FL_NO_PTR = 8 * k + 1 := by
    rw [show 8 * k = 2 ^ 3 * k from rfl, Nat.two_pow_add_eq_or_of_lt (by decide)]
  have hodd : (8 * k + 1) &&& GC_NB_FL_NO_PTR ≠ 0 := by
    rw [Nat.and_one_is_mod]
    omega
  have heven : ¬ (8 * k &&& GC_NB_FL_NO_PTR ≠ 0) := by
    rw [Nat.and_one_is_mod]
    omega
  refine ⟨?_, ?_, ?_, hor ▸ hodd, heven⟩
  · rw [hor, nbRoot, if_pos hodd, show (8 * k + 1) / 2 * 2 = 8 * k by omega]
  · rw [hor]
    omega
  · rw [nbRoot, if_neg heven]

end Ming.Interface
