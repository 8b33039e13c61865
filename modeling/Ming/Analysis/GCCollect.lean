import Ming.Analysis.GCMarkRoots
import Ming.Analysis.GCSweep

/-!
# One collection

In every state that the operations lead to, the gray stack is empty and no cell is gray, so
the mark loop returns at once. A call of `gc_do_collect` then marks the roots or not, sweeps
or not, and sets the status; which of these it does depends on the status and the flags only.
-/

set_option autoImplicit false

namespace Ming.Analysis

open Ming.Foundation Ming.Model Ming.Interface

variable {D : GCConfig} {s s' s₁ : GCState} {refs : Addr → List Addr} {n : ℕ}
variable {flags : BitVec 32} {b : Bool}

/-- No cell of a mapped pool is black. -/
def NoBlack (s : GCState) : Prop := ∀ base pool, s.pools base = some pool → ¬ HasBlack pool

/-- The state of the collector between two operations. -/
structure GCInv (D : GCConfig) (s : GCState) : Prop where
  heap : HeapInv D [] s
  near : HeapNear D s
  noGray : NoGray s
  noBlack : s.status = .idle ∨ s.status = .compact → NoBlack s
  stack : s.grayStack = []
  need : s.needScanGray = false
  status : s.status ≠ .markRoot
  threads : ThreadsInv s

/-- The call marks the roots. -/
def MarksRoots (s : GCState) (flags : BitVec 32) : Prop := s.status = .idle ∧ ¬ clearing flags

/-- The call sweeps. -/
def Sweeps (s : GCState) (flags : BitVec 32) : Prop :=
  s.status = .sweep ∨
    ((s.status = .idle ∨ s.status = .markObj) ∧ (clearing flags ∨ ¬ incremental flags))

/-- The state and the flags decide whether the roots are marked. -/
instance (s : GCState) (flags : BitVec 32) : Decidable (MarksRoots s flags) :=
  inferInstanceAs (Decidable (_ ∧ _))

/-- The state and the flags decide whether the heap is swept. -/
instance (s : GCState) (flags : BitVec 32) : Decidable (Sweeps s flags) :=
  inferInstanceAs (Decidable (_ ∨ _))

/-- The status that the call leaves. -/
def statusAfter (s : GCState) (flags : BitVec 32) : GCStatus :=
  if Sweeps s flags then (if incremental flags then .compact else .idle)
  else match s.status with
    | .idle => .markObj
    | .markObj => .sweep
    | _ => .idle

/-- What a call of `gc_do_collect` did; `s₁` is the heap between marking and sweeping. -/
structure Collected (D : GCConfig) (flags : BitVec 32) (s s₁ s' : GCState) : Prop where
  marked : MarksRoots s flags →
    RootsResolve D s ∧ Blackened (RootBlackens D s) (rootsBegun s) s₁
  unmarked : ¬ MarksRoots s flags → s₁ = s
  heap : HeapInv D [] s₁
  near : HeapNear D s₁
  noGray : NoGray s₁
  swept : Sweeps s flags → s'.lastAllocatedSize = s'.allocatedSize ∧
    ∃ bases, bases.Nodup ∧ (∀ b, b ∈ bases ↔ s₁.pools b ≠ none) ∧ PoolsSwept D bases s₁ s'
  unswept : ¬ Sweeps s flags → ∃ st, s' = { s₁ with status := st }
  status : s'.status = statusAfter s flags
  inv : GCInv D s'

/-! ## The phases -/

/-- INTERNAL: blackening makes no cell gray. -/
theorem Blackened.noGray {P : Addr → ℕ → Prop} (h : Blackened P s s') (hg : NoGray s) :
    NoGray s' := by
  intro b p hp id
  cases hb : s.pools b with
  | none => exact nomatch (h.unmapped b hb).symm.trans hp
  | some q =>
    obtain ⟨q', hq', hbl⟩ := h.mapped b q hb
    obtain rfl := Option.some.inj (hq'.symm.trans hp)
    by_cases hw : poolMark q id = GC_MARK_WHITE ∧ P b id
    · rw [hbl.black id hw.1 hw.2]
      decide
    · rw [hbl.same id hw]
      exact hg b q hb id

/-- INTERNAL: blackening leaves the unused cells unused. -/
theorem Blackened.near {P : Addr → ℕ → Prop} (h : Blackened P s s') (hn : HeapNear D s) :
    HeapNear D s' := by
  intro b p id hp hused
  cases hb : s.pools b with
  | none => exact nomatch (h.unmapped b hb).symm.trans hp
  | some q =>
    obtain ⟨q', hq', hbl⟩ := h.mapped b q hb
    obtain rfl := Option.some.inj (hq'.symm.trans hp)
    rw [NearAt, hbl.type_eq]
    refine hn b q id hb fun hu => hused ?_
    rw [hbl.same id fun hw => ?_, hu]
    exact absurd (hw.1.symm.trans hu) (by decide)

/-- INTERNAL: after a sweep of all pools no cell is black. -/
theorem PoolsSwept.noBlack {bases : List Addr} (h : PoolsSwept D bases s s')
    (hall : ∀ b, b ∈ bases ↔ s.pools b ≠ none) : NoBlack s' := by
  rintro b p hp ⟨id, hid⟩
  by_cases hb : b ∈ bases
  · obtain ⟨q, hq, hkept, hgone⟩ := h.swept b hb
    by_cases hblack : HasBlack q
    · obtain ⟨q', hq', hs⟩ := hkept hblack
      obtain rfl := Option.some.inj (hq'.symm.trans hp)
      rw [hs.mark] at hid
      exact sweptMark_ne_black _ hid
    · exact nomatch (hgone hblack).symm.trans hp
  · have hnone : s.pools b = none := by
      by_contra hne
      exact hb ((hall b).mpr hne)
    exact nomatch ((h.other b hb).trans hnone).symm.trans hp

/-- INTERNAL: with an empty stack and no rescan asked for, marking is over.
SOURCE: m_gc_obj.c:352-376 -/
theorem markObjs_eq (hstack : s.grayStack = []) (hneed : s.needScanGray = false) :
    gcMarkObjs D refs n s = .ok (true, s) := by
  rw [gcMarkObjs, if_pos hstack, if_pos hneed]

/-- INTERNAL: the sweep and what follows it.
SOURCE: m_gc_obj.c:512-521 -/
theorem collectSweep_spec (hi : HeapInv D [] s) (hn : HeapNear D s) (hg : NoGray s)
    (hstack : s.grayStack = []) (hneed : s.needScanGray = false) (hth : ThreadsInv s)
    (flags : BitVec 32) :
    ∃ b s' bases, gcCollectSweep D flags s = .ok (b, s') ∧ bases.Nodup ∧
      (∀ b, b ∈ bases ↔ s.pools b ≠ none) ∧ PoolsSwept D bases s s' ∧
      s'.lastAllocatedSize = s'.allocatedSize ∧
      s'.status = (if incremental flags then .compact else .idle) ∧ GCInv D s' := by
  obtain ⟨s₂, bases, e, h₂, hnd, hmem, hs, hlast⟩ := sweep_spec hi hg hn
  have hfinal : ∀ st, st ≠ .markRoot → GCInv D { s₂ with status := st } := fun st hst =>
    ⟨⟨h₂.pool, h₂.lists, h₂.bytes⟩, hs.near hn, hs.noGray hg, fun _ => hs.noBlack hmem,
      hs.grayStack.trans hstack, hs.needScanGray.trans hneed, hst,
      fun th hth' => hth th (hs.threadList ▸ hth')⟩
  have hswept : ∀ st, PoolsSwept D bases s { s₂ with status := st } := fun st =>
    ⟨hs.swept, hs.other, hs.log, hs.grayStack, hs.needScanGray, hs.threadList, hs.rootHash⟩
  rw [gcCollectSweep, e]
  by_cases hinc : incremental flags
  · refine ⟨_, _, bases, if_pos hinc, hnd, hmem, hswept _, hlast, (if_pos hinc).symm,
      hfinal _ (by decide)⟩
  · refine ⟨_, _, bases, if_neg hinc, hnd, hmem, hswept _, hlast, (if_neg hinc).symm,
      hfinal _ (by decide)⟩

/-- INTERNAL: the mark loop is passed in one step.
SOURCE: m_gc_obj.c:500-519 -/
theorem collectMarkObj_eq (hstack : s.grayStack = []) (hneed : s.needScanGray = false)
    (n : ℕ) (flags : BitVec 32) : gcCollectMarkObj D refs (n + 1) flags s =
      if clearing flags ∨ ¬ incremental flags then
        gcCollectSweep D flags { s with status := .sweep }
      else .ok (false, { s with status := .sweep }) := by
  rw [gcCollectMarkObj, gcMarkPhase, markObjs_eq hstack hneed]
  by_cases hc : clearing flags
  · rw [if_pos hc, if_pos (Or.inl hc)]
  · rw [if_neg hc]
    by_cases hinc : incremental flags
    · rw [if_neg (not_or.mpr ⟨hc, not_not.mpr hinc⟩), Outcome.ok_bind]
      simp [hinc]
    · rw [if_pos (Or.inr hinc), Outcome.ok_bind]
      simp [hinc]

/-- INTERNAL: the mark loop and what follows it, without fuel it does not return. -/
theorem collectMarkObj_of_ok (hstack : s.grayStack = []) (hneed : s.needScanGray = false)
    {r : Bool × GCState} (e : gcCollectMarkObj D refs n flags s = .ok r) :
    gcCollectMarkObj D refs 1 flags s = .ok r := by
  cases n with
  | zero =>
    rw [collectMarkObj_eq hstack hneed]
    rw [gcCollectMarkObj, gcMarkPhase] at e
    by_cases hc : clearing flags
    · rw [if_pos hc] at e
      rw [if_pos (Or.inl hc)]
      exact e
    · rw [if_neg hc] at e
      exact nomatch e
  | succ n =>
    rw [collectMarkObj_eq hstack hneed] at e ⊢
    exact e

/-- INTERNAL: the heap does not depend on the status. -/
theorem heapInv_withStatus {todo : List Addr} (h : HeapInv D todo s) (st : GCStatus) :
    HeapInv D todo { s with status := st } :=
  ⟨h.pool, h.lists, h.bytes⟩

/-- INTERNAL: a sweep does not depend on the status. -/
theorem PoolsSwept.of_withStatus {bases : List Addr} {st : GCStatus}
    (h : PoolsSwept D bases { s with status := st } s') : PoolsSwept D bases s s' :=
  ⟨h.swept, h.other, h.log, h.grayStack, h.needScanGray, h.threadList, h.rootHash⟩

/-- INTERNAL: a call that sweeps the heap `s₁`. -/
theorem collected_swept {st : GCStatus} (hs : Sweeps s flags)
    (hm : MarksRoots s flags → RootsResolve D s ∧ Blackened (RootBlackens D s) (rootsBegun s) s₁)
    (hu : ¬ MarksRoots s flags → s₁ = s) (hi : HeapInv D [] s₁) (hn : HeapNear D s₁)
    (hg : NoGray s₁) (hstack : s₁.grayStack = []) (hneed : s₁.needScanGray = false)
    (hth : ThreadsInv s₁)
    (e : gcCollectSweep D flags { s₁ with status := st } = .ok (b, s')) :
    Collected D flags s s₁ s' := by
  obtain ⟨b', s'', bases, e', hnd, hmem, hswept, hlast, hst, hinv⟩ :=
    collectSweep_spec (heapInv_withStatus hi st) hn hg hstack hneed hth flags
  obtain ⟨rfl, rfl⟩ := Prod.mk.inj (Except.ok.inj (e'.symm.trans e))
  refine ⟨hm, hu, hi, hn, hg, fun _ => ⟨hlast, bases, hnd, hmem, hswept.of_withStatus⟩,
    fun hn => absurd hs hn, ?_, hinv⟩
  rw [hst, statusAfter, if_pos hs]

/-- INTERNAL: the marked roots of a heap that is not being collected. -/
theorem markRoot_spec (h : GCInv D s) {st : GCStatus}
    (e : gcMarkRoot D { s with status := st } = .ok s₁) :
    RootsResolve D s ∧ Blackened (RootBlackens D s) (rootsBegun s) s₁ ∧ HeapInv D [] s₁ ∧
      HeapNear D s₁ ∧ NoGray s₁ ∧ s₁.grayStack = [] ∧ s₁.needScanGray = false ∧ ThreadsInv s₁ := by
  obtain ⟨hres, hb⟩ := markRoot_blackened (s := { s with status := st }) h.threads e
  have hb' : Blackened (RootBlackens D s) (rootsBegun s) s₁ :=
    ⟨hb.unmapped, hb.mapped, hb.stubs, hb.grayStack, hb.needScanGray, hb.allocatedSize,
      hb.lastAllocatedSize, hb.threadList, hb.rootHash, hb.log⟩
  refine ⟨hres, hb', hb'.heapInv ⟨h.heap.pool, h.heap.lists, h.heap.bytes⟩, hb'.near h.near,
    hb'.noGray h.noGray, hb.grayStack.trans h.stack, hb.needScanGray, fun th hth => ?_⟩
  rw [hb.threadList] at hth
  exact h.threads th hth

/-- INTERNAL: a call that stops before the sweep only moves the status. -/
theorem collected_unswept {st : GCStatus} (hsweeps : ¬ Sweeps s flags)
    (hm : MarksRoots s flags → RootsResolve D s ∧ Blackened (RootBlackens D s) (rootsBegun s) s₁)
    (hu : ¬ MarksRoots s flags → s₁ = s) (hi : HeapInv D [] s₁) (hn : HeapNear D s₁)
    (hg : NoGray s₁) (hstack : s₁.grayStack = []) (hneed : s₁.needScanGray = false)
    (hth : ThreadsInv s₁)
    (hst : st = statusAfter s flags) (hroot : st ≠ .markRoot)
    (hblack : st = .idle ∨ st = .compact → NoBlack s₁) :
    Collected D flags s s₁ { s₁ with status := st } :=
  ⟨hm, hu, hi, hn, hg, fun hs => absurd hs hsweeps, fun _ => ⟨_, rfl⟩, hst,
    heapInv_withStatus hi _, hn, hg, hblack, hstack, hneed, hroot, hth⟩

/-- INTERNAL: the roots are marked from the idle status only.
SOURCE: m_gc_obj.c:488-493 -/
theorem not_marksRoots_of_status (hst : s.status ≠ .idle) : ¬ MarksRoots s flags :=
  fun hm => hst hm.1

/-- INTERNAL: a call that clears the heap marks nothing.
SOURCE: m_gc_obj.c:489-516 -/
theorem collect_clearing (h : GCInv D s) (hst : s.status = .idle) (hc : clearing flags)
    (e : gcDoCollect D refs n flags s = .ok (b, s')) : Collected D flags s s s' := by
  have hmarks : ¬ MarksRoots s flags := fun hm => hm.2 hc
  have hsweeps : Sweeps s flags := Or.inr ⟨Or.inl hst, Or.inl hc⟩
  rw [gcDoCollect, hst] at e
  simp only [gcCollectMarkRoot] at e
  rw [if_pos hc] at e
  have e' := collectMarkObj_of_ok (s := { s with status := .markObj }) h.stack h.need e
  rw [collectMarkObj_eq (s := { s with status := .markObj }) h.stack h.need,
    if_pos (Or.inl hc)] at e'
  exact collected_swept hsweeps (fun hm => absurd hm hmarks) (fun _ => rfl) h.heap h.near h.noGray
    h.stack h.need h.threads e'

/-- INTERNAL: a first call marks the roots, and goes on to the sweep unless it is incremental.
SOURCE: m_gc_obj.c:489-519 -/
theorem collect_marking (h : GCInv D s) (hst : s.status = .idle) (hc : ¬ clearing flags)
    (e : gcDoCollect D refs n flags s = .ok (b, s')) : ∃ s₁, Collected D flags s s₁ s' := by
  have hmarks : MarksRoots s flags := ⟨hst, hc⟩
  rw [gcDoCollect, hst] at e
  simp only [gcCollectMarkRoot] at e
  rw [if_neg hc, Outcome.bind_eq_ok] at e
  obtain ⟨s₁, hmark, e⟩ := e
  obtain ⟨hres, hb, hi, hn, hg, hstack, hneed, hth⟩ := markRoot_spec h hmark
  by_cases hinc : incremental flags
  · have hsweeps : ¬ Sweeps s flags := by
      rintro (hs | ⟨-, hs | hs⟩)
      · cases hst.symm.trans hs
      · exact hc hs
      · exact hs hinc
    rw [if_pos hinc] at e
    obtain ⟨-, rfl⟩ := Prod.mk.inj (Except.ok.inj e)
    refine ⟨s₁, collected_unswept hsweeps (fun _ => ⟨hres, hb⟩) (fun hnot => absurd hmarks hnot) hi
      hn hg hstack hneed hth ?_ (by decide) (by simp)⟩
    rw [statusAfter, if_neg hsweeps, hst]
  · have hsweeps : Sweeps s flags := Or.inr ⟨Or.inl hst, Or.inr hinc⟩
    rw [if_neg hinc] at e
    have e' := collectMarkObj_of_ok (s := { s₁ with status := .markObj }) hstack hneed e
    rw [collectMarkObj_eq (s := { s₁ with status := .markObj }) hstack hneed,
      if_pos (Or.inr hinc)] at e'
    exact ⟨s₁, collected_swept hsweeps (fun _ => ⟨hres, hb⟩) (fun hnot => absurd hmarks hnot) hi hn
      hg hstack hneed hth e'⟩

/-- INTERNAL: a call after the roots were marked.
SOURCE: m_gc_obj.c:500-519 -/
theorem collect_marked (h : GCInv D s) (hst : s.status = .markObj)
    (e : gcDoCollect D refs n flags s = .ok (b, s')) : Collected D flags s s s' := by
  have hmarks : ¬ MarksRoots s flags := not_marksRoots_of_status (by rw [hst]; decide)
  rw [gcDoCollect, hst] at e
  have e' := collectMarkObj_of_ok h.stack h.need e
  rw [collectMarkObj_eq h.stack h.need] at e'
  by_cases hc : clearing flags ∨ ¬ incremental flags
  · rw [if_pos hc] at e'
    exact collected_swept (Or.inr ⟨Or.inr hst, hc⟩) (fun hm => absurd hm hmarks) (fun _ => rfl)
      h.heap h.near h.noGray h.stack h.need h.threads e'
  · have hsweeps : ¬ Sweeps s flags := by
      rintro (hs | ⟨-, hs⟩)
      · cases hst.symm.trans hs
      · exact hc hs
    rw [if_neg hc] at e'
    obtain ⟨-, rfl⟩ := Prod.mk.inj (Except.ok.inj e')
    refine collected_unswept hsweeps (fun hm => absurd hm hmarks) (fun _ => rfl) h.heap h.near
      h.noGray h.stack h.need h.threads ?_ (by decide) (by simp)
    rw [statusAfter, if_neg hsweeps, hst]

/-- INTERNAL: what a call of `gc_do_collect` does in a state of a run.
SOURCE: m_gc_obj.c:483-522 -/
theorem collect_spec (h : GCInv D s) (e : gcDoCollect D refs n flags s = .ok (b, s')) :
    ∃ s₁, Collected D flags s s₁ s' := by
  cases hst : s.status with
  | idle =>
    by_cases hc : clearing flags
    · exact ⟨s, collect_clearing h hst hc e⟩
    · exact collect_marking h hst hc e
  | markRoot => exact absurd hst h.status
  | markObj => exact ⟨s, collect_marked h hst e⟩
  | sweep =>
    have hmarks : ¬ MarksRoots s flags := not_marksRoots_of_status (by rw [hst]; decide)
    rw [gcDoCollect, hst] at e
    have hs : { s with status := s.status } = s := rfl
    exact ⟨s, collected_swept (Or.inl hst) (fun hm => absurd hm hmarks) (fun _ => rfl) h.heap
      h.near h.noGray h.stack h.need h.threads (hs.symm ▸ e)⟩
  | compact =>
    have hmarks : ¬ MarksRoots s flags := not_marksRoots_of_status (by rw [hst]; decide)
    have hsweeps : ¬ Sweeps s flags := by
      rintro (hs | ⟨hs | hs, -⟩)
      · cases hst.symm.trans hs
      · cases hst.symm.trans hs
      · cases hst.symm.trans hs
    rw [gcDoCollect, hst] at e
    obtain ⟨-, rfl⟩ := Prod.mk.inj (Except.ok.inj e)
    refine ⟨s, collected_unswept hsweeps (fun hm => absurd hm hmarks) (fun _ => rfl) h.heap
      h.near h.noGray h.stack h.need h.threads ?_ (by decide) fun _ => h.noBlack (Or.inr hst)⟩
    rw [statusAfter, if_neg hsweeps, hst]

/-- INTERNAL: a call of `gc_do_collect` returns when the roots that it marks can be marked. -/
theorem collect_ok (h : GCInv D s) (refs : Addr → List Addr) (flags : BitVec 32)
    (hr : MarksRoots s flags → RootsResolve D s) :
    ∃ r, gcDoCollect D refs 1 flags s = .ok r := by
  have hsweep : ∀ {s : GCState}, HeapInv D [] s → HeapNear D s → NoGray s → s.grayStack = [] →
      s.needScanGray = false → ThreadsInv s → ∃ r, gcCollectSweep D flags s = .ok r := by
    intro s hi hn hg hstack hneed hth
    obtain ⟨b, s', -, e, -⟩ := collectSweep_spec hi hn hg hstack hneed hth flags
    exact ⟨_, e⟩
  have hmarkObj : ∀ {s : GCState}, HeapInv D [] s → HeapNear D s → NoGray s → s.grayStack = [] →
      s.needScanGray = false → ThreadsInv s → ∃ r, gcCollectMarkObj D refs 1 flags s = .ok r := by
    intro s hi hn hg hstack hneed hth
    rw [collectMarkObj_eq hstack hneed]
    split_ifs
    · exact hsweep (heapInv_withStatus hi _) hn hg hstack hneed hth
    · exact ⟨_, rfl⟩
  rw [gcDoCollect]
  cases hst : s.status with
  | idle =>
    simp only [gcCollectMarkRoot]
    by_cases hc : clearing flags
    · rw [if_pos hc]
      exact hmarkObj (heapInv_withStatus h.heap _) h.near h.noGray h.stack h.need h.threads
    · obtain ⟨s₁, e₁⟩ := markRoot_ok (s := { s with status := .markRoot }) h.threads (hr ⟨hst, hc⟩)
      obtain ⟨-, -, hi, hn, hg, hstack, hneed, hth⟩ := markRoot_spec h e₁
      rw [if_neg hc, e₁, Outcome.ok_bind]
      split_ifs
      · exact ⟨_, rfl⟩
      · exact hmarkObj (heapInv_withStatus hi _) hn hg hstack hneed hth
  | markRoot => exact absurd hst h.status
  | markObj => exact hmarkObj h.heap h.near h.noGray h.stack h.need h.threads
  | sweep => exact hsweep h.heap h.near h.noGray h.stack h.need h.threads
  | compact => exact ⟨_, rfl⟩

end Ming.Analysis
