import Ming.Analysis.GCHeapRuns
import Ming.Model.NewBorn

/-!
# The new-born stack over whole runs

The size of the stack doubles in 32 bits. It is right as long as it can double: with `2 ^ 31`
entries the doubled size is zero, the buffer is taken to shrink and stays as it is, and the next
entry is written behind it.
-/

set_option autoImplicit false

namespace Ming.Analysis

open Ming.Foundation Ming.Model Ming.Interface

variable {calls : List NbCall} {call : NbCall} {th th' : MThread} {cell : Addr}
variable {r r' : Outcome MThread} {s : ℕ → Outcome MThread} {i oid : ℕ}

/-! ## What the calls have said -/

/-- What one call says about an index: the object that was last returned with it, and whether it
was added since. -/
def nbSaid (said : ℕ → Option (Addr × Bool)) : NbCall → ℕ → Option (Addr × Bool)
  | .alloc cell oid => Function.update said oid (some (cell, false))
  | .addObj oid => Function.update said oid ((said oid).map fun e => (e.1, true))
  | .setNbLevel _ => said

/-- What all calls have said. -/
def nbRecord (calls : List NbCall) : ℕ → Option (Addr × Bool) :=
  calls.foldl nbSaid fun _ => none

/-- INTERNAL: one more call. -/
theorem nbRecord_append (calls : List NbCall) (call : NbCall) :
    nbRecord (calls ++ [call]) = nbSaid (nbRecord calls) call := by
  rw [nbRecord, List.foldl_append]
  rfl

/-- The stack holds what the calls have said. -/
structure NbStackRight (calls : List NbCall) (th : MThread) : Prop where
  top : th.nbTop ≤ th.nbSize
  room : th.nbSize ≤ th.nbStack.length
  entries : ∀ i < th.nbTop, ∃ cell added word, nbRecord calls i = some (cell, added) ∧
    th.nbStack[i]? = some word ∧ word / 2 * 2 = cell ∧ (word % 2 = 1 ↔ added = false)
  grow : ∀ i < th.nbTop, (nbReserve th).nbStack[i]? = th.nbStack[i]?

/-- The calls have written inside of the buffer only, and the stack is right. -/
def NbRight (calls : List NbCall) (r : Outcome MThread) : Prop :=
  ∃ th, r = .ok th ∧ NbStackRight calls th

/-- A run of a thread, from the record of a new thread on. -/
abbrev NbRun (calls : List NbCall) (s : ℕ → Outcome MThread) : Prop :=
  Run (fun r => r = .ok ⟨[], 0, 0⟩) NbStep calls s

/-- An allocation finds fewer than `2 ^ 31` entries. -/
def NbRoom (r : Outcome MThread) : NbCall → Prop
  | .alloc _ _ => ∀ th, r = .ok th → th.nbTop < 2 ^ 31
  | _ => True

/-! ## The invariant -/

/-- The word of an entry. -/
def nbWord (cell : Addr) (added : Bool) : ℕ := if added then cell else cell ||| GC_NB_FL_NO_PTR

/-- The buffer has exactly the recorded size, and the entries are words of objects. -/
structure NbInv (calls : List NbCall) (th : MThread) : Prop where
  size : th.nbSize = 0 ∨ ∃ j, 5 ≤ j ∧ j ≤ 31 ∧ th.nbSize = 2 ^ j
  room : th.nbStack.length = th.nbSize
  top : th.nbTop ≤ th.nbSize
  entries : ∀ i < th.nbTop, ∃ cell added, nbRecord calls i = some (cell, added) ∧ 8 ∣ cell ∧
    th.nbStack[i]? = some (nbWord cell added)

/-- INTERNAL: the record of a new thread. -/
theorem NbInv.empty : NbInv [] ⟨[], 0, 0⟩ :=
  ⟨Or.inl rfl, rfl, le_rfl, fun _ hi => absurd hi (Nat.not_lt_zero _)⟩

/-- INTERNAL: the buffer of the record. -/
theorem NbInv.threadInv (h : NbInv calls th) : ThreadInv th := by
  refine ⟨h.size, ?_, h.room ▸ h.top⟩
  rw [h.room]
  rcases h.size with h0 | ⟨j, -, hj, hsize⟩
  · omega
  · rw [hsize]
    exact Nat.pow_le_pow_right (by decide) hj

/-- INTERNAL: there are at most `2 ^ 31` entries. -/
theorem NbInv.top_le (h : NbInv calls th) : th.nbTop ≤ 2 ^ 31 :=
  h.threadInv.top.trans h.threadInv.room

/-- INTERNAL: the word of an entry stands for its object, and its lowest bit says that the
object was not added. -/
theorem nbWord_spec (h : 8 ∣ cell) (added : Bool) :
    nbWord cell added / 2 * 2 = cell ∧ (nbWord cell added % 2 = 1 ↔ added = false) := by
  obtain ⟨k, rfl⟩ := h
  cases added with
  | true => exact ⟨show 8 * k / 2 * 2 = 8 * k by omega, by simp [nbWord]; omega⟩
  | false =>
    have hor : nbWord (8 * k) false = 8 * k + 1 := by
      rw [nbWord, if_neg (by decide), show 8 * k = 2 ^ 3 * k from rfl,
        Nat.two_pow_add_eq_or_of_lt (by decide)]
    rw [hor]
    exact ⟨by omega, by simp; omega⟩

/-- INTERNAL: `& ~3` makes the word of an added object. -/
theorem nbWord_added (h : 8 ∣ cell) (added : Bool) :
    nbWord cell added / 4 * 4 = nbWord cell true := by
  cases added with
  | true =>
    obtain ⟨k, rfl⟩ := h
    change 8 * k / 4 * 4 = 8 * k
    omega
  | false => exact (nbRoot_word h).2.1

/-! ## Growing -/

/-- INTERNAL: the size of a buffer after `m_gc_realloc_buf`.
SOURCE: m_gc_buf.c:80-108 -/
theorem reallocBuf_length {buf : List ℕ} {oldSize newSize : ℕ} (h : buf.length = oldSize)
    (hlt : oldSize < newSize) : (mGCReallocBuf buf oldSize newSize).length = newSize := by
  rw [mGCReallocBuf]
  split_ifs with h0 hle
  · exact List.length_replicate
  · exact absurd hlt (Nat.not_lt.mpr hle)
  · rw [List.length_take, List.length_append, List.length_replicate]
    omega

/-- INTERNAL: growing keeps the entries below the top. -/
theorem nbReserve_entry (h : NbInv calls th) (hi : i < th.nbTop) :
    (nbReserve th).nbStack[i]? = th.nbStack[i]? := by
  have hwords := congrArg (fun l => l[i]?) (nbReserve_spec h.threadInv).2
  simp only [nbWords, nbReserve_top, List.getElem?_take, hi, if_true] at hwords
  exact hwords

/-- INTERNAL: the size after growing, while it can double.
SOURCE: m_gc_obj.c:596-613 -/
theorem nbReserve_room (h : NbInv calls th) (hlt : th.nbTop < 2 ^ 31) :
    ((nbReserve th).nbSize = 0 ∨
      ∃ j, 5 ≤ j ∧ j ≤ 31 ∧ (nbReserve th).nbSize = 2 ^ j) ∧
    (nbReserve th).nbStack.length = (nbReserve th).nbSize ∧
    th.nbTop < (nbReserve th).nbSize := by
  by_cases htop : th.nbTop = th.nbSize
  · obtain ⟨nsize, hns⟩ : ∃ nsize, nsize = max (th.nbSize * 2 % 2 ^ 32) 32 := ⟨_, rfl⟩
    have hres : nbReserve th =
        { th with nbStack := mGCReallocBuf th.nbStack th.nbSize nsize, nbSize := nsize } := by
      rw [hns, nbReserve, if_pos htop]
    have hgrow : th.nbSize < nsize ∧ ∃ j, 5 ≤ j ∧ j ≤ 31 ∧ nsize = 2 ^ j := by
      rcases h.size with h0 | ⟨j, h5, h31, hj⟩
      · rw [hns, h0]
        exact ⟨by decide, 5, le_rfl, by decide, rfl⟩
      · have hj30 : j ≤ 30 := by
          by_contra hj31
          obtain rfl : j = 31 := by omega
          omega
        rw [hns, hj, (nsize_spec h5).1 hj30]
        exact ⟨Nat.pow_lt_pow_right (by decide) (Nat.lt_succ_self j), j + 1, by omega,
          by omega, rfl⟩
    rw [hres]
    exact ⟨Or.inr hgrow.2, reallocBuf_length h.room hgrow.1, htop ▸ hgrow.1⟩
  · have hres : nbReserve th = th := if_neg htop
    rw [hres]
    exact ⟨h.size, h.room, Nat.lt_of_le_of_ne h.top htop⟩

/-- INTERNAL: a full stack of `2 ^ 31` entries is not grown.
SOURCE: m_gc_obj.c:600-605 -/
theorem nbReserve_full (h : NbInv calls th) (htop : th.nbTop = 2 ^ 31) :
    (nbReserve th).nbStack.length = 2 ^ 31 := by
  have hsize : th.nbSize = 2 ^ 31 := by
    have hle := h.threadInv.room
    have hge := h.top
    rw [h.room] at hle
    omega
  have hres : nbReserve th = { th with
      nbStack := mGCReallocBuf th.nbStack th.nbSize 32, nbSize := 32 } := by
    rw [nbReserve, if_pos (htop.trans hsize.symm), hsize]
    rfl
  rw [hres, mGCReallocBuf, if_neg (by omega), if_pos (by omega)]
  exact h.room.trans hsize

/-! ## One call -/

/-- INTERNAL: an allocation with room for its entry.
SOURCE: m_gc_obj.c:596-613, 625-629 -/
theorem NbInv.alloc (h : NbInv calls th) (hlt : th.nbTop < 2 ^ 31) (hcell : 8 ∣ cell) :
    ∃ th', nbAlloc th cell = .ok (th', th.nbTop) ∧ th'.nbTop = th.nbTop + 1 ∧
      NbInv (calls ++ [.alloc cell th.nbTop]) th' := by
  obtain ⟨hsize, hroom, htop⟩ := nbReserve_room h hlt
  have hin : th.nbTop < (nbReserve th).nbStack.length := hroom.symm ▸ htop
  have hwrap : (th.nbTop + 1) % 2 ^ 32 = th.nbTop + 1 := Nat.mod_eq_of_lt (by omega)
  refine ⟨⟨(nbReserve th).nbStack.set th.nbTop (nbWord cell false), (nbReserve th).nbSize,
    th.nbTop + 1⟩, ?_, rfl, hsize, ?_, htop, fun i hi => ?_⟩
  · rw [nbAlloc]
    simp only [nbPush, nbReserve_top, if_pos hin, hwrap, Outcome.ok_bind, Outcome.pure_eq_ok]
    rfl
  · rw [List.length_set]
    exact hroom
  · rw [nbRecord_append, nbSaid]
    by_cases heq : i = th.nbTop
    · subst heq
      refine ⟨cell, false, Function.update_self .., hcell, ?_⟩
      exact List.getElem?_set_self (hroom.symm ▸ htop)
    · have hi' : i < th.nbTop := Nat.lt_of_le_of_ne (Nat.le_of_lt_succ hi) heq
      obtain ⟨c, added, hrec, hc, hword⟩ := h.entries i hi'
      refine ⟨c, added, (Function.update_of_ne heq _ _).trans hrec, hc, ?_⟩
      rw [List.getElem?_set_ne (Ne.symm heq), nbReserve_entry h hi', hword]

/-- INTERNAL: an object that is added.
SOURCE: m_gc.h:125-134 -/
theorem NbInv.addObj (h : NbInv calls th) (hlt : oid < th.nbTop) :
    ∃ th', nbAddObj th oid = .ok th' ∧ th'.nbTop = th.nbTop ∧
      NbInv (calls ++ [.addObj oid]) th' := by
  have hin : oid < th.nbStack.length := h.room.symm ▸ hlt.trans_le h.top
  refine ⟨{ th with nbStack := th.nbStack.modify oid fun w => w / 4 * 4 }, ?_, rfl, h.size, ?_,
    h.top, fun i hi => ?_⟩
  · rw [nbAddObj, if_pos hlt, if_pos hin]
  · rw [List.length_modify]
    exact h.room
  · obtain ⟨c, added, hrec, hc, hword⟩ := h.entries i hi
    rw [nbRecord_append, nbSaid]
    by_cases heq : i = oid
    · subst heq
      refine ⟨c, true, ?_, hc, ?_⟩
      · rw [Function.update_self, hrec]
        rfl
      · rw [List.getElem?_modify_eq, hword]
        exact congrArg some (nbWord_added hc added)
    · refine ⟨c, added, (Function.update_of_ne heq _ _).trans hrec, hc, ?_⟩
      exact (List.getElem?_modify_ne _ _ (Ne.symm heq)).trans hword

/-- INTERNAL: a lower level.
SOURCE: m_gc.h:96-106 -/
theorem NbInv.setNbLevel (h : NbInv calls th) {level : ℕ} (hle : level ≤ th.nbTop) :
    ∃ th', nbSetLevel th level = .ok th' ∧ th'.nbTop = level ∧
      NbInv (calls ++ [.setNbLevel level]) th' := by
  refine ⟨{ th with nbTop := level }, if_pos hle, rfl, h.size, h.room, hle.trans h.top,
    fun i hi => ?_⟩
  rw [nbRecord_append]
  exact h.entries i (hi.trans_le hle)

/-- INTERNAL: an allocation on a stack of `2 ^ 31` entries writes behind the buffer.
SOURCE: m_gc_obj.c:600-605, 629 -/
theorem NbInv.alloc_full (h : NbInv calls th) (htop : th.nbTop = 2 ^ 31) (cell : Addr) :
    nbAlloc th cell = .error .outOfBounds := by
  have hout : ¬ (nbReserve th).nbTop < (nbReserve th).nbStack.length := by
    rw [nbReserve_top, nbReserve_full h htop, htop]
    exact lt_irrefl _
  rw [nbAlloc]
  simp only [nbPush, if_neg hout, Outcome.error_bind]

/-- INTERNAL: a call with room keeps the invariant. -/
theorem NbInv.step (h : NbInv calls th) (hs : NbStep (.ok th) call r) (hr : NbRoom (.ok th) call) :
    ∃ th', r = .ok th' ∧ NbInv (calls ++ [call]) th' := by
  obtain ⟨th₁, e, hallowed, rfl⟩ := hs
  obtain rfl := Except.ok.inj e
  cases call with
  | alloc cell oid =>
    obtain ⟨th', halloc, -, h'⟩ := h.alloc (hr th rfl) hallowed.1
    obtain rfl : th.nbTop = oid := hallowed.2 _ halloc
    refine ⟨th', ?_, h'⟩
    rw [NbCall.exec, halloc]
    rfl
  | addObj oid =>
    obtain ⟨th', e, -, h'⟩ := h.addObj hallowed
    exact ⟨th', e, h'⟩
  | setNbLevel level =>
    obtain ⟨th', e, -, h'⟩ := h.setNbLevel hallowed
    exact ⟨th', e, h'⟩

/-- INTERNAL: while the invariant holds the stack is right. -/
theorem NbInv.right (h : NbInv calls th) : NbRight calls (.ok th) := by
  refine ⟨th, rfl, h.top, h.room.ge, fun i hi => ?_, fun i hi => nbReserve_entry h hi⟩
  obtain ⟨c, added, hrec, hc, hword⟩ := h.entries i hi
  exact ⟨c, added, nbWord c added, hrec, hword, nbWord_spec hc added⟩

/-! ## Whole runs -/

/-- **The new-born stack is right exactly while it can double.** In a run of calls of one thread
with buffers that can be allocated, the top is within the size, the buffer has room for it, every
write goes into the buffer, and every entry below the top holds the object that was last returned
with its index and whether it was added since, if and only if every allocation finds fewer than
`2 ^ 31` entries.
SOURCE: m_gc_obj.c:595-629, m_gc_buf.c:80-108, m_gc.h:78-134, m_thread.h:33-41 -/
theorem newborn_stack_iff (h : NbRun calls s) :
    (∀ n, n ≤ calls.length → NbRight (calls.take n) (s n)) ↔
      ∀ i (hi : i < calls.length), NbRoom (s i) calls[i] := by
  apply h.forall_iff (fun l r => ∃ th, r = .ok th ∧ NbInv l th)
    (C := fun _ r call => NbRoom r call)
  · intro r hr
    exact ⟨_, hr, NbInv.empty⟩
  · rintro l r ⟨th, rfl, hinv⟩
    exact hinv.right
  · rintro l r call r' ⟨th, rfl, hinv⟩ hs hroom
    exact hinv.step hs hroom
  · rintro l r call r' ⟨th, rfl, hinv⟩ hs hroom ⟨th', rfl, -⟩
    cases call with
    | alloc cell oid =>
      have htop : th.nbTop = 2 ^ 31 := by
        refine Nat.le_antisymm hinv.top_le (Nat.not_lt.mp fun hlt => hroom fun th₁ e => ?_)
        exact Except.ok.inj e ▸ hlt
      obtain ⟨th₁, e, -, hexec⟩ := hs
      obtain rfl := Except.ok.inj e
      rw [NbCall.exec, hinv.alloc_full htop] at hexec
      cases hexec
    | addObj oid => exact hroom trivial
    | setNbLevel level => exact hroom trivial

/-- Allocations that hand out one cell after the other. -/
def nbAllocs (n : ℕ) : List NbCall := (List.range n).map fun i => .alloc (8 * (i + 1)) i

/-- INTERNAL: one more allocation. -/
theorem nbAllocs_succ (n : ℕ) :
    nbAllocs (n + 1) = nbAllocs n ++ [.alloc (8 * (n + 1)) n] := by
  rw [nbAllocs, nbAllocs, List.range_succ, List.map_append]
  rfl

/-- INTERNAL: the number of allocations. -/
theorem nbAllocs_length (n : ℕ) : (nbAllocs n).length = n := by
  rw [nbAllocs, List.length_map, List.length_range]

/-- INTERNAL: a run with one more call, in its last state. -/
theorem nbRun_snoc (h : NbRun calls s) (e : s calls.length = .ok th) (call : NbCall)
    (ha : call.Allowed th) (hr : call.exec th = r) :
    ∃ s, NbRun (calls ++ [call]) s ∧ s (calls ++ [call]).length = r := by
  refine ⟨_, h.snoc ⟨th, e, ha, hr.symm⟩, if_neg ?_⟩
  rw [List.length_append]
  exact Nat.not_succ_le_self _

/-- INTERNAL: an allocation that is labelled with the index it returns.
SOURCE: m_gc_obj.c:625-629 -/
theorem nbAlloc_call {th th' : MThread} {cell : Addr} {oid : ℕ} (hcell : 8 ∣ cell)
    (e : nbAlloc th cell = .ok (th', oid)) :
    (NbCall.alloc cell oid).Allowed th ∧ (NbCall.alloc cell oid).exec th = .ok th' := by
  refine ⟨⟨hcell, fun r hr => ?_⟩, ?_⟩
  · rw [← Except.ok.inj (e.symm.trans hr)]
  · rw [NbCall.exec, e]
    rfl

/-- INTERNAL: a run of allocations, as long as there is room. -/
theorem nbRun_allocs (n : ℕ) (hn : n ≤ 2 ^ 31) : ∃ s th, NbRun (nbAllocs n) s ∧
    s (nbAllocs n).length = .ok th ∧ th.nbTop = n ∧ NbInv (nbAllocs n) th := by
  induction n with
  | zero => exact ⟨fun _ => .ok ⟨[], 0, 0⟩, _, Run.nil rfl, rfl, rfl, NbInv.empty⟩
  | succ n ih =>
    obtain ⟨s, th, hrun, hs, htop, hinv⟩ := ih (by omega)
    obtain ⟨th', halloc, htop', hinv'⟩ := hinv.alloc (by omega) (Nat.dvd_mul_right 8 (n + 1))
    rw [htop] at halloc hinv' htop'
    obtain ⟨hallowed, hexec⟩ := nbAlloc_call (Nat.dvd_mul_right 8 (n + 1)) halloc
    obtain ⟨s', hrun', hs'⟩ := nbRun_snoc hrun hs _ hallowed hexec
    rw [nbAllocs_succ]
    exact ⟨s', th', hrun', hs', htop', hinv'⟩

/-- The stack of a thread that allocates on and on, and never goes back to a lower level: with
`2 ^ 31` entries the next one is written behind the buffer. -/
theorem newborn_stack_full : ∃ s, NbRun (nbAllocs (2 ^ 31 + 1)) s ∧
    s (2 ^ 31 + 1) = .error .outOfBounds ∧
    ¬ ∀ n, n ≤ (nbAllocs (2 ^ 31 + 1)).length →
      NbRight ((nbAllocs (2 ^ 31 + 1)).take n) (s n) := by
  obtain ⟨n, hn⟩ : ∃ n, n = 2 ^ 31 := ⟨_, rfl⟩
  rw [← hn]
  obtain ⟨s, th, hrun, hs, htop, hinv⟩ := nbRun_allocs n hn.le
  have halloc := hinv.alloc_full (htop.trans hn) (8 * (n + 1))
  have hallowed : (NbCall.alloc (8 * (n + 1)) n).Allowed th := by
    refine ⟨Nat.dvd_mul_right _ _, fun r hr => ?_⟩
    rw [halloc] at hr
    cases hr
  have hexec : (NbCall.alloc (8 * (n + 1)) n).exec th = .error .outOfBounds := by
    rw [NbCall.exec, halloc]
    rfl
  obtain ⟨s', hrun', hlast⟩ := nbRun_snoc hrun hs _ hallowed hexec
  rw [nbAllocs_succ]
  have hlen : (nbAllocs n ++ [NbCall.alloc (8 * (n + 1)) n]).length = n + 1 := by
    rw [List.length_append, nbAllocs_length]
    rfl
  refine ⟨s', hrun', hlen ▸ hlast, fun hall => ?_⟩
  obtain ⟨th', e, -⟩ := hall _ le_rfl
  cases hlast.symm.trans e

/-- INTERNAL: a call adds at most one entry.
SOURCE: m_gc_obj.c:629, m_gc.h:96-134 -/
theorem nbStep_top (hs : NbStep (.ok th) call (.ok th')) : th'.nbTop ≤ th.nbTop + 1 := by
  obtain ⟨th₁, e, hallowed, hexec⟩ := hs
  obtain rfl := Except.ok.inj e
  cases call with
  | alloc cell oid =>
    obtain ⟨⟨th₂, oid'⟩, halloc, e'⟩ := Outcome.bind_eq_ok.mp hexec.symm
    obtain rfl : th₂ = th' := Except.ok.inj e'
    obtain ⟨th₃, hpush, e'⟩ := Outcome.bind_eq_ok.mp halloc
    obtain rfl : th₃ = th₂ := (Prod.mk.inj (Except.ok.inj e')).1
    rw [nbPush] at hpush
    split_ifs at hpush
    obtain rfl := Except.ok.inj hpush
    exact (Nat.mod_le _ _).trans (by rw [nbReserve_top])
  | addObj oid =>
    rw [NbCall.exec, nbAddObj] at hexec
    split_ifs at hexec
    rw [Except.ok.inj hexec]
    exact Nat.le_succ _
  | setNbLevel level =>
    rw [NbCall.exec, nbSetLevel] at hexec
    split_ifs at hexec with hle
    rw [Except.ok.inj hexec]
    exact Nat.le_succ_of_le hle

/-- INTERNAL: a run of at most `2 ^ 31` calls has room for every entry. -/
theorem nbRoom_of_length (h : NbRun calls s) (hlen : calls.length ≤ 2 ^ 31) {i : ℕ}
    (hi : i < calls.length) : NbRoom (s i) calls[i] := by
  have htop := Run.inv (fun l r => ∀ th, r = .ok th → th.nbTop ≤ l.length)
    (fun r hr th hth => by
      rw [← Except.ok.inj (hr.symm.trans hth)]
      exact Nat.zero_le _)
    (fun l r call r' hinv hs th hth => by
      obtain ⟨th₁, e, -⟩ := id hs
      subst e hth
      rw [List.length_append]
      exact (nbStep_top hs).trans (Nat.add_le_add_right (hinv th₁ rfl) 1)) h i hi.le
  rw [List.length_take, Nat.min_eq_left hi.le] at htop
  cases hcall : calls[i] with
  | alloc cell oid => exact fun th hth => (htop th hth).trans_lt (hi.trans_le hlen)
  | addObj oid => trivial
  | setNbLevel level => trivial

/-- 33 allocations, for which the stack grows twice, an object that is added, a lower level, and an
allocation with an index that is in use again. -/
def nbCalls : List NbCall := nbAllocs 33 ++ [.addObj 1] ++ [.setNbLevel 2] ++ [.alloc 512 2]

/-- The last entry is the one of the last object, and the added one is still there. -/
theorem newborn_stack_iff_reused : ∃ s, NbRun nbCalls s ∧
    (∀ n, n ≤ 36 → NbRight (nbCalls.take n) (s n)) ∧
    nbRecord nbCalls 1 = some (16, true) ∧ nbRecord nbCalls 2 = some (512, false) := by
  obtain ⟨s₀, th₀, h₀, e₀, htop, hinv₀⟩ := nbRun_allocs 33 (by decide)
  have hadded : 1 < th₀.nbTop := by omega
  obtain ⟨th₁, e₁, htop₁, hinv₁⟩ := hinv₀.addObj hadded
  obtain ⟨s₁, h₁, hs₁⟩ := nbRun_snoc h₀ e₀ (.addObj 1) hadded e₁
  have hle : 2 ≤ th₁.nbTop := by omega
  obtain ⟨th₂, e₂, htop₂, hinv₂⟩ := hinv₁.setNbLevel hle
  obtain ⟨s₂, h₂, hs₂⟩ := nbRun_snoc h₁ hs₁ (.setNbLevel 2) hle e₂
  obtain ⟨th₃, e₃, -⟩ := hinv₂.alloc (by omega) (show 8 ∣ 512 by decide)
  rw [htop₂] at e₃
  obtain ⟨hallowed, hexec⟩ := nbAlloc_call (by decide) e₃
  obtain ⟨s₃, h₃, -⟩ := nbRun_snoc h₂ hs₂ _ hallowed hexec
  have hrun : NbRun nbCalls s₃ := h₃
  exact ⟨s₃, hrun, (newborn_stack_iff hrun).mpr fun i hi => nbRoom_of_length hrun (by decide) hi,
    rfl, rfl⟩

/-! ## The heap -/

section Heap

variable {D : GCConfig} {g g' : GCState} {t : ℕ} {type : MGCObjType} {base : Addr}

/-- INTERNAL: taking a free cell out of a pool does not touch the threads.
SOURCE: m_gc_obj.c:615-623 -/
theorem popCell_threadList (e : gcPopCell g type base = .ok (cell, g')) :
    g'.threadList = g.threadList := by
  rw [gcPopCell] at e
  obtain ⟨pool, -, e⟩ := Outcome.bind_eq_ok.mp e
  cases hfree : pool.freeCells with
  | nil =>
    rw [hfree] at e
    cases e
  | cons c free =>
    simp only [hfree] at e
    split_ifs at e with hnil
    · cases hu : (g.stubs type).usablePools with
      | nil =>
        rw [show (g.store base { pool with freeCells := free }).stubs = g.stubs from rfl, hu] at e
        cases e
      | cons b rest =>
        rw [show (g.store base { pool with freeCells := free }).stubs = g.stubs from rfl, hu] at e
        obtain ⟨-, rfl⟩ := Prod.mk.inj (Except.ok.inj e)
        rfl
    · obtain ⟨-, rfl⟩ := Prod.mk.inj (Except.ok.inj e)
      rfl

/-- What the operations of the heap do to the record of the calling thread is a step of its
new-born stack.
SOURCE: m_gc_obj.c:595-629, m_gc.h:96-134 -/
theorem heap_nbStep :
    (∀ cell oid, 8 ∣ cell → gcTakeCell D g t type base = .ok (cell, oid, g') →
      ∃ th th', g.threadList[t]? = some th ∧ g'.threadList = g.threadList.set t th' ∧
        NbStep (.ok th) (.alloc cell oid) (.ok th')) ∧
    (∀ oid, mGCAddObj g t oid = .ok g' →
      ∃ th th', g.threadList[t]? = some th ∧ g'.threadList = g.threadList.set t th' ∧
        NbStep (.ok th) (.addObj oid) (.ok th')) ∧
    ∀ level, mGCSetNbLevel g t level = .ok g' →
      ∃ th th', g.threadList[t]? = some th ∧ g'.threadList = g.threadList.set t th' ∧
        NbStep (.ok th) (.setNbLevel level) (.ok th') := by
  refine ⟨fun cell oid hcell e => ?_, fun oid e => ?_, fun level e => ?_⟩
  · simp only [gcTakeCell, Outcome.bind_eq_ok] at e
    obtain ⟨th, hth, ⟨c, g₁⟩, hpop, th', hpush, pool₁, -, id, -, pool₂, -, e⟩ := e
    obtain ⟨rfl, e'⟩ := Prod.mk.inj (Except.ok.inj e)
    obtain ⟨rfl, rfl⟩ := Prod.mk.inj e'
    have halloc : nbAlloc th c = .ok (th', (nbReserve th).nbTop) := by
      rw [nbAlloc]
      simp only [hpush, Outcome.ok_bind, Outcome.pure_eq_ok]
    refine ⟨th, th', threadSelf_eq_ok.mp hth, ?_, th, rfl, ⟨hcell, fun r hr => ?_⟩, ?_⟩
    · exact congrArg (fun l => l.set t th') (popCell_threadList hpop)
    · rw [halloc] at hr
      rw [← Except.ok.inj hr]
    · rw [NbCall.exec, halloc]
      rfl
  · obtain ⟨th, hth, e⟩ := Outcome.bind_eq_ok.mp e
    split_ifs at e with hlt hin
    obtain rfl := Except.ok.inj e
    refine ⟨th, _, threadSelf_eq_ok.mp hth, rfl, th, rfl, hlt, ?_⟩
    rw [NbCall.exec, nbAddObj, if_pos hlt, if_pos hin]
  · obtain ⟨th, hth, e⟩ := Outcome.bind_eq_ok.mp e
    split_ifs at e with hle
    obtain rfl := Except.ok.inj e
    exact ⟨th, _, threadSelf_eq_ok.mp hth, rfl, th, rfl, hle, (if_pos hle).symm⟩

end Heap

end Ming.Analysis
