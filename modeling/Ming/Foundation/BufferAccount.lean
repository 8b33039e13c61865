import Mathlib.Data.List.Nodup
import Ming.Foundation.MallocHeap

/-!
# A program's account of its buffers

What a program that allocates buffers knows of them: their sizes, what it wrote into them, and
which it gave back. The account is right when every buffer has a block that is large enough and
holds what was written, and when the blocks that were released are those that were given back.
Each use of `malloc`, `realloc` and `free` that keeps an account right is a lemma.
-/

set_option autoImplicit false

namespace Ming.Foundation

variable {β : Type}

/-- A buffer: its number, its size, and what was written into it. -/
structure Buffer (β : Type) where
  id : ℕ
  size : ℕ
  known : ℕ → Option β

/-- The buffer after a resize. -/
def Buffer.resized (u : Buffer β) (size : ℕ) : Buffer β :=
  ⟨u.id, size, fun i => if i < min u.size size then u.known i else none⟩

/-- The buffer after a write. -/
def Buffer.written (u : Buffer β) (i : ℕ) (v : β) : Buffer β :=
  { u with known := Function.update u.known i (some v) }

/-- The buffers in use by their addresses, and the numbers of those that were given back. -/
structure Account (β : Type) where
  live : ℕ → Option (Buffer β)
  freed : List ℕ

namespace Account

/-- A buffer at `ptr`. -/
def put (a : Account β) (ptr : ℕ) (u : Buffer β) : Account β :=
  { a with live := Function.update a.live ptr (some u) }

/-- No buffer at `ptr`. -/
def leave (a : Account β) (ptr : ℕ) : Account β :=
  { a with live := Function.update a.live ptr none }

/-- INTERNAL: the buffer that was put. -/
theorem put_self (a : Account β) (ptr : ℕ) (u : Buffer β) : (a.put ptr u).live ptr = some u :=
  Function.update_self ..

/-- INTERNAL: the other buffers, after one was put. -/
theorem put_of_ne (a : Account β) {ptr ptr' : ℕ} (h : ptr' ≠ ptr) (u : Buffer β) :
    (a.put ptr u).live ptr' = a.live ptr' := Function.update_of_ne h _ _

/-- INTERNAL: there is no buffer where one has left. -/
theorem leave_self (a : Account β) (ptr : ℕ) : (a.leave ptr).live ptr = none :=
  Function.update_self ..

/-- INTERNAL: the other buffers, after one has left. -/
theorem leave_of_ne (a : Account β) {ptr ptr' : ℕ} (h : ptr' ≠ ptr) :
    (a.leave ptr).live ptr' = a.live ptr' := Function.update_of_ne h _ _

/-- The buffer `u` at `ptr` is given back. -/
def giveBack (a : Account β) (ptr : ℕ) (u : Buffer β) : Account β :=
  { a.leave ptr with freed := a.freed ++ [u.id] }

end Account

/-- The block is the one of the buffer, is large enough, and holds what was written. -/
structure Block.Holds (b : Block β) (u : Buffer β) : Prop where
  id : b.id = u.id
  size : u.size ≤ b.capacity
  known : ∀ i < u.size, ∀ v, u.known i = some v → b.content i = v

/-- INTERNAL: a resize of both keeps what was written. -/
theorem Block.Holds.resized {b : Block β} {u : Buffer β} (hh : b.Holds u) {size n : ℕ}
    (hn : n ≤ size) (junk : ℕ → β) : (b.resized size junk).Holds (u.resized n) := by
  refine ⟨hh.id, hn, fun i hi v hv => ?_⟩
  have hi' : i < n := hi
  rw [Buffer.resized] at hv
  simp only at hv
  split_ifs at hv with hkept
  have hin : i < min b.capacity size := by
    have hcap := hh.size
    omega
  exact (if_pos hin).trans (hh.known i (by omega) v hv)

/-- INTERNAL: less of a buffer, and the same block. -/
theorem Block.Holds.shrink {b : Block β} {u : Buffer β} (hh : b.Holds u) {n : ℕ}
    (hn : n ≤ u.size) : b.Holds (u.resized n) := by
  refine ⟨hh.id, hn.trans hh.size, fun i hi v hv => ?_⟩
  rw [Buffer.resized] at hv
  simp only at hv
  split_ifs at hv with hkept
  exact hh.known i (by omega) v hv

/-- INTERNAL: a write into both. -/
theorem Block.Holds.written {b : Block β} {u : Buffer β} (hh : b.Holds u) (i : ℕ) (v : β) :
    (b.written i v).Holds (u.written i v) := by
  refine ⟨hh.id, hh.size, fun j hj w hw => ?_⟩
  rw [Buffer.written] at hw
  rw [Block.written]
  simp only at hw ⊢
  by_cases he : j = i
  · subst he
    rw [Function.update_self] at hw ⊢
    exact Option.some.inj hw
  · rw [Function.update_of_ne he] at hw ⊢
    exact hh.known j hj w hw

/-- The heap is what the account says. -/
structure Account.Right (a : Account β) (h : MallocHeap β) : Prop where
  held : ∀ ptr u, a.live ptr = some u → ∃ b, h.block ptr = some b ∧ b.Holds u
  noLeak : ∀ ptr, a.live ptr = none → h.block ptr = none
  released : h.released = a.freed
  once : a.freed.Nodup

/-- The invariant: blocks have their own numbers, which are not those of released ones. -/
structure Account.Inv (a : Account β) (h : MallocHeap β) : Prop extends Account.Right a h where
  null : h.block 0 = none
  old : ∀ ptr b, h.block ptr = some b → b.id < h.next
  oldFreed : ∀ id ∈ a.freed, id < h.next
  apart : ∀ ptr ptr' b b', h.block ptr = some b → h.block ptr' = some b' → b.id = b'.id →
    ptr = ptr'
  gone : ∀ ptr b, h.block ptr = some b → b.id ∉ a.freed

namespace Account.Inv

variable {a : Account β} {h : MallocHeap β} {u : Buffer β} {b : Block β}
variable {ptr answer size n i : ℕ} {junk : ℕ → β} {v : β}

/-- INTERNAL: a program without buffers. -/
theorem empty (β : Type) : Account.Inv ⟨fun _ => none, []⟩ (MallocHeap.empty β) := by
  refine ⟨⟨?_, fun _ _ => rfl, rfl, List.nodup_nil⟩, rfl, ?_, ?_, ?_, ?_⟩
  all_goals simp [MallocHeap.empty]

/-- INTERNAL: no buffer is at the null address. -/
theorem ne_zero (hi : Account.Inv a h) (hu : a.live ptr = some u) : ptr ≠ 0 := by
  rintro rfl
  obtain ⟨b, hb, -⟩ := hi.held 0 u hu
  rw [hi.null] at hb
  cases hb

/-- INTERNAL: the block of a buffer. -/
theorem block (hi : Account.Inv a h) (hu : a.live ptr = some u) :
    ∃ b, h.block ptr = some b ∧ b.Holds u ∧ b.id = u.id ∧ b.id < h.next ∧ b.id ∉ a.freed := by
  obtain ⟨b, hb, hh⟩ := hi.held ptr u hu
  exact ⟨b, hb, hh, hh.id, hi.old ptr b hb, hi.gone ptr b hb⟩

/-- INTERNAL: a buffer and its block are taken away; no other block has the number. -/
theorem detach (hi : Account.Inv a h) (hb : h.block ptr = some b) :
    Account.Inv (a.leave ptr) { h with block := Function.update h.block ptr none } ∧
      ∀ p c, Function.update h.block ptr none p = some c → c.id ≠ b.id := by
  have hother : ∀ p c, Function.update h.block ptr none p = some c → p ≠ ptr ∧
      h.block p = some c := by
    intro p c hc
    by_cases hp : p = ptr
    · rw [hp, Function.update_self] at hc
      cases hc
    · rw [Function.update_of_ne hp] at hc
      exact ⟨hp, hc⟩
  refine ⟨⟨⟨fun p u hu => ?_, fun p hp => ?_, hi.released, hi.once⟩, ?_, fun p c hc => ?_,
    hi.oldFreed, fun p p' c c' hc hc' he => ?_, fun p c hc => ?_⟩, fun p c hc he => ?_⟩
  · have hp : p ≠ ptr := by
      rintro rfl
      cases (a.leave_self p).symm.trans hu
    obtain ⟨c, hc, hh⟩ := hi.held p u ((a.leave_of_ne hp).symm.trans hu)
    exact ⟨c, (Function.update_of_ne hp _ _).trans hc, hh⟩
  · by_cases he : p = ptr
    · rw [he]
      exact Function.update_self ..
    · exact (Function.update_of_ne he _ _).trans
        (hi.noLeak p ((a.leave_of_ne he).symm.trans hp))
  · by_cases he : 0 = ptr
    · rw [he]
      exact Function.update_self ..
    · exact (Function.update_of_ne he _ _).trans hi.null
  · exact hi.old p c (hother p c hc).2
  · exact hi.apart p p' c c' (hother p c hc).2 (hother p' c' hc').2 he
  · exact hi.gone p c (hother p c hc).2
  · exact (hother p c hc).1 (hi.apart p ptr c b (hother p c hc).2 hb he)

/-- INTERNAL: a buffer with a block whose number no other block has. -/
theorem attach (hi : Account.Inv a h) (hp : ptr ≠ 0) (hnone : h.block ptr = none)
    (hn : h.next ≤ n) (hold : b.id < n) (hgone : b.id ∉ a.freed)
    (hown : ∀ p c, h.block p = some c → c.id ≠ b.id) (hh : b.Holds u) :
    Account.Inv (a.put ptr u)
      { h with block := Function.update h.block ptr (some b), next := n } := by
  have hcases : ∀ p c, Function.update h.block ptr (some b) p = some c →
      (p = ptr ∧ c = b) ∨ h.block p = some c := by
    intro p c hc
    by_cases he : p = ptr
    · rw [he, Function.update_self] at hc
      exact Or.inl ⟨he, (Option.some.inj hc).symm⟩
    · rw [Function.update_of_ne he] at hc
      exact Or.inr hc
  refine ⟨⟨fun p w hw => ?_, fun p hl => ?_, hi.released, hi.once⟩, ?_, fun p c hc => ?_,
    fun id hid => (hi.oldFreed id hid).trans_le hn, fun p p' c c' hc hc' he => ?_,
    fun p c hc => ?_⟩
  · by_cases he : p = ptr
    · subst he
      obtain rfl := Option.some.inj ((a.put_self p u).symm.trans hw)
      exact ⟨b, Function.update_self .., hh⟩
    · obtain ⟨c, hc, hh'⟩ := hi.held p w ((a.put_of_ne he u).symm.trans hw)
      exact ⟨c, (Function.update_of_ne he _ _).trans hc, hh'⟩
  · have he : p ≠ ptr := by
      rintro rfl
      cases (a.put_self p u).symm.trans hl
    exact (Function.update_of_ne he _ _).trans
      (hi.noLeak p ((a.put_of_ne he u).symm.trans hl))
  · exact (Function.update_of_ne hp.symm _ _).trans hi.null
  · rcases hcases p c hc with ⟨-, rfl⟩ | hc
    · exact hold
    · exact (hi.old p c hc).trans_le hn
  · rcases hcases p c hc with ⟨hp₁, hc₁⟩ | hc₁
    · rcases hcases p' c' hc' with ⟨hp₂, -⟩ | hc₂
      · exact hp₁.trans hp₂.symm
      · exact absurd (he.symm.trans (congrArg Block.id hc₁)) (hown p' c' hc₂)
    · rcases hcases p' c' hc' with ⟨-, hc₂⟩ | hc₂
      · exact absurd (he.trans (congrArg Block.id hc₂)) (hown p c hc₁)
      · exact hi.apart p p' c c' hc₁ hc₂ he
  · rcases hcases p c hc with ⟨-, rfl⟩ | hc
    · exact hgone
    · exact hi.gone p c hc

/-- INTERNAL: a block is exchanged for one with the same number, maybe at another address. -/
theorem exchange (hi : Account.Inv a h) (hb : h.block ptr = some b) (ha : answer ≠ 0)
    (hf : answer = ptr ∨ h.block answer = none) {b' : Block β} (hid : b'.id = b.id)
    (hh : b'.Holds u) : Account.Inv ((a.leave ptr).put answer u)
      { h with block :=
        Function.update (Function.update h.block ptr none) answer (some b') } := by
  obtain ⟨hi', hown⟩ := hi.detach hb
  have hnone : Function.update h.block ptr none answer = none := by
    by_cases he : answer = ptr
    · rw [he, Function.update_self]
    · rw [Function.update_of_ne he]
      exact hf.resolve_left he
  exact hi'.attach ha hnone le_rfl (hid ▸ hi.old ptr b hb) (hid ▸ hi.gone ptr b hb)
    (hid.symm ▸ hown) hh

/-! ## The uses of the heap -/

/-- INTERNAL: a new buffer. -/
theorem malloc (hi : Account.Inv a h) (ha : answer ≠ 0) (hf : h.Fresh answer) (hn : n ≤ size) :
    Account.Inv (a.put answer ⟨h.next, n, fun _ => none⟩) (h.malloc size answer junk).2 := by
  rw [MallocHeap.malloc_eq ha]
  refine hi.attach ha (hf.resolve_left ha) (Nat.le_succ _) (Nat.lt_succ_self _)
    (fun hid => lt_irrefl _ (hi.oldFreed _ hid)) (fun p c hc he => ?_) ⟨rfl, hn, ?_⟩
  · exact lt_irrefl _ (he ▸ hi.old p c hc)
  · intro i _ v hv
    cases hv

/-- INTERNAL: a buffer that is given back. -/
theorem free (hi : Account.Inv a h) (hu : a.live ptr = some u) :
    ∃ h', h.free ptr = .ok h' ∧ Account.Inv (a.giveBack ptr u) h' := by
  obtain ⟨b, hb, -, hid, hold, hgone⟩ := hi.block hu
  obtain ⟨hi', hown⟩ := hi.detach hb
  refine ⟨_, MallocHeap.free_eq (hi.ne_zero hu) hb, ⟨hi'.held, hi'.noLeak, ?_, ?_⟩, hi'.null,
    hi'.old, fun id hmem => ?_, hi'.apart, fun p c hc hmem => ?_⟩
  · change h.released ++ [b.id] = a.freed ++ [u.id]
    rw [hi.released, hid]
  · refine List.nodup_append.mpr ⟨hi.once, by simp, fun x hx y hy he => ?_⟩
    obtain rfl := List.mem_singleton.mp hy
    exact hgone (hid.trans he.symm ▸ hx)
  · rcases List.mem_append.mp hmem with hmem | hmem
    · exact hi.oldFreed id hmem
    · obtain rfl := List.mem_singleton.mp hmem
      exact hid ▸ hold
  · rcases List.mem_append.mp hmem with hmem | hmem
    · exact hi'.gone p c hc hmem
    · exact hown p c hc ((List.mem_singleton.mp hmem).trans hid.symm)

/-- INTERNAL: a buffer that is moved or resized in place. -/
theorem realloc (hi : Account.Inv a h) (hu : a.live ptr = some u) (hs : size ≠ 0)
    (ha : answer ≠ 0) (hf : answer = ptr ∨ h.block answer = none) (hn : n ≤ size)
    (junk : ℕ → β) : ∃ h', h.realloc ptr size answer junk = .ok (answer, h') ∧
      Account.Inv ((a.leave ptr).put answer (u.resized n)) h' := by
  obtain ⟨b, hb, hh, -⟩ := hi.block hu
  exact ⟨_, MallocHeap.realloc_eq (hi.ne_zero hu) hb hs ha,
    hi.exchange hb ha hf rfl (hh.resized hn junk)⟩

/-- INTERNAL: a buffer of which less is used. -/
theorem shrink (hi : Account.Inv a h) (hu : a.live ptr = some u) (hn : n ≤ u.size) :
    Account.Inv ((a.leave ptr).put ptr (u.resized n)) h := by
  obtain ⟨b, hb, hh, -⟩ := hi.block hu
  have hsame := hi.exchange hb (hi.ne_zero hu) (Or.inl rfl) rfl (hh.shrink hn)
  rw [Function.update_idem, ← hb, Function.update_eq_self] at hsame
  exact hsame

/-- INTERNAL: a write into a buffer. -/
theorem store (hi : Account.Inv a h) (hu : a.live ptr = some u) (hin : i < u.size) (v : β) :
    ∃ h', h.store ptr i v = .ok h' ∧
      Account.Inv ((a.leave ptr).put ptr (u.written i v)) h' := by
  obtain ⟨b, hb, hh, -⟩ := hi.block hu
  refine ⟨_, MallocHeap.store_eq hb (hin.trans_le hh.size), ?_⟩
  have hid : (b.written i v).id = b.id := rfl
  have hnew := hi.exchange hb (hi.ne_zero hu) (Or.inl rfl) hid (hh.written i v)
  rwa [Function.update_idem] at hnew

end Account.Inv

end Ming.Foundation
