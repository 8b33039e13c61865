import Ming.Analysis.GCHeapRuns

/-!
# The mark loop

No step of the mark loop changes the mark of a gray cell: marking a pointer writes the marks of
white cells only, and a cell that is taken off the gray stack is scanned but keeps its mark. The
loop therefore gets rid of the gray cells only when there are none.
-/

set_option autoImplicit false

namespace Ming.Analysis

open Ming.Foundation Ming.Model Ming.Interface

variable {D : GCConfig} {s s' s₁ : GCState} {refs : Addr → List Addr} {n : ℕ} {b : Bool}
variable {descr : MGCObjDescr} {pool : MGCCellPool} {flags : BitVec 32}

/-- What marking leaves alone: gray cells, the status and the counters. -/
structure MarkFrame (s s' : GCState) : Prop where
  gray : ∀ base pool id, s.pools base = some pool → poolMark pool id = GC_MARK_GRAY →
    ∃ pool', s'.pools base = some pool' ∧ poolMark pool' id = GC_MARK_GRAY
  status : s'.status = s.status
  allocatedSize : s'.allocatedSize = s.allocatedSize
  lastAllocatedSize : s'.lastAllocatedSize = s.lastAllocatedSize

/-- What a search for gray cells leaves alone. -/
structure ScanFrame (s s' : GCState) : Prop where
  pools : s'.pools = s.pools
  status : s'.status = s.status
  allocatedSize : s'.allocatedSize = s.allocatedSize
  lastAllocatedSize : s'.lastAllocatedSize = s.lastAllocatedSize

/-- The gray stack holds distinct gray cells, and all of them unless the heap has to be scanned
for gray cells. -/
structure GrayStackOk (D : GCConfig) (s : GCState) : Prop where
  nodup : s.grayStack.Nodup
  room : s.grayStack.length ≤ D.grayStackSize
  gray : ∀ ptr ∈ s.grayStack, ∃ base pool id, s.pools base = some pool ∧
    ptr = cellAddr D pool id ∧ poolMark pool id = GC_MARK_GRAY
  stacked : s.needScanGray = false → ∀ base pool id, s.pools base = some pool →
    poolMark pool id = GC_MARK_GRAY → cellAddr D pool id ∈ s.grayStack
  overflow : s.grayStack = [] → s.needScanGray = true → ¬ NoGray s

/-- The mark loop of a collection that is not incremental ends, without a gray cell, with every
gray cell made black, and the sweep that follows does not fail. -/
def MarkLoopEnds (D : GCConfig) (refs : Addr → List Addr) (s : GCState) : Prop :=
  ∃ fuel s', gcMarkPhase D refs 0 fuel s = .ok (true, s') ∧ NoGray s' ∧
    (∀ base pool id, s.pools base = some pool → poolMark pool id = GC_MARK_GRAY →
      ∃ pool', s'.pools base = some pool' ∧ poolMark pool' id = GC_MARK_BLACK) ∧
    (HeapInv D [] s → ∃ s'', gcSweep D s' = .ok s'')

/-! ## Gray cells stay gray -/

/-- INTERNAL: what a scan keeps, marking keeps. -/
theorem ScanFrame.markFrame (h : ScanFrame s s') : MarkFrame s s' :=
  ⟨fun base pool _ hp hm => ⟨pool, (congrFun h.pools base).trans hp, hm⟩, h.status,
    h.allocatedSize, h.lastAllocatedSize⟩

/-- INTERNAL: nothing has changed. -/
theorem ScanFrame.refl (s : GCState) : ScanFrame s s := ⟨rfl, rfl, rfl, rfl⟩

/-- INTERNAL: one piece of marking after the other. -/
theorem MarkFrame.trans (h : MarkFrame s s₁) (h' : MarkFrame s₁ s') : MarkFrame s s' := by
  refine ⟨fun base pool id hp hm => ?_, h'.status.trans h.status,
    h'.allocatedSize.trans h.allocatedSize, h'.lastAllocatedSize.trans h.lastAllocatedSize⟩
  obtain ⟨pool₁, hp₁, hm₁⟩ := h.gray base pool id hp hm
  exact h'.gray base pool₁ id hp₁ hm₁

/-- INTERNAL: one scan after the other. -/
theorem ScanFrame.trans (h : ScanFrame s s₁) (h' : ScanFrame s₁ s') : ScanFrame s s' :=
  ⟨h'.pools.trans h.pools, h'.status.trans h.status, h'.allocatedSize.trans h.allocatedSize,
    h'.lastAllocatedSize.trans h.lastAllocatedSize⟩

/-- INTERNAL: a push changes the stack and the flag only.
SOURCE: m_gc_obj.c:188-198 -/
theorem pushGrayStack_frame (D : GCConfig) (s : GCState) (ptr : Addr) :
    ScanFrame s (gcPushGrayStack D s ptr).2 := by
  rw [gcPushGrayStack]
  split_ifs <;> exact ⟨rfl, rfl, rfl, rfl⟩

/-- INTERNAL: a pointer.
SOURCE: m_gc_obj.c:201-222 -/
theorem markWithColor_frame {ptr : Addr} {color : BitVec 32}
    (e : gcMarkWithColor D s ptr color = .ok s') : MarkFrame s s' := by
  have hblackened := markWithColor_blackened e
  refine ⟨fun base pool id hp hm => ?_, ?_, hblackened.allocatedSize,
    hblackened.lastAllocatedSize⟩
  · obtain ⟨pool', hp', hb⟩ := hblackened.mapped base pool hp
    refine ⟨pool', hp', (hb.same id ?_).trans hm⟩
    rintro ⟨hw, -⟩
    exact absurd (hm.symm.trans hw) (by decide)
  · simp only [gcMarkWithColor, Outcome.bind_eq_ok] at e
    obtain ⟨pool, -, id, -, flags, -, e⟩ := e
    by_cases hw : flags = GC_MARK_WHITE
    · rw [if_pos hw, Outcome.bind_eq_ok] at e
      obtain ⟨pool', -, e⟩ := e
      generalize (if color = GC_MARK_BLACK ∨ ¬ (D.descrs pool.type).hasPtr then GC_MARK_BLACK
        else flags) = mark at e
      by_cases hg : mark = GC_MARK_GRAY
      · rw [if_pos hg] at e
        exact Except.ok.inj e ▸ (pushGrayStack_frame D _ ptr).status
      · rw [if_neg hg] at e
        exact Except.ok.inj e ▸ rfl
    · rw [if_neg hw] at e
      exact Except.ok.inj e ▸ rfl

/-- INTERNAL: the references of a cell.
SOURCE: m_gc_obj.c:225-229 -/
theorem scan_frame {ptr : Addr} (e : gcScan D refs s ptr = .ok s') : MarkFrame s s' :=
  Outcome.foldlM_trans (fun s => (ScanFrame.refl s).markFrame) MarkFrame.trans
    markWithColor_frame e

/-- INTERNAL: the words of all new-born stacks, and the nodes of the root hash.
SOURCE: m_gc_obj.c:232-278 -/
theorem markRoot_frame (e : gcMarkRoot D s = .ok s') : MarkFrame s s' := by
  have hrefl : ∀ s, MarkFrame s s := fun s => (ScanFrame.refl s).markFrame
  have hword : ∀ {th s i s'}, gcMarkNbAt D th s i = .ok s' → MarkFrame s s' := by
    intro th s i s' e
    rw [gcMarkNbAt] at e
    split at e
    · cases e
    · rw [gcMarkNbWord] at e
      split_ifs at e
      · exact markWithColor_frame e
      · exact markWithColor_frame e
  have hstack : ∀ {s th s'}, gcMarkNbStack D s th = .ok s' → MarkFrame s s' := fun e =>
    Outcome.foldlM_trans hrefl MarkFrame.trans hword e
  rw [gcMarkRoot] at e
  obtain ⟨s₁, hstacks, e⟩ := Outcome.bind_eq_ok.mp e
  have hnb := Outcome.foldlM_trans hrefl MarkFrame.trans hstack hstacks
  have hroot := Outcome.foldlM_trans hrefl MarkFrame.trans markWithColor_frame e
  have hboth := hnb.trans hroot
  exact ⟨hboth.gray, hboth.status, hboth.allocatedSize, hboth.lastAllocatedSize⟩

/-- INTERNAL: the cells on the gray stack.
SOURCE: m_gc_obj.c:369-373 -/
theorem markStack_frame (e : gcMarkStack D refs n s = .ok s') : MarkFrame s s' := by
  induction n generalizing s with
  | zero => exact nomatch e
  | succ n ih =>
    rw [gcMarkStack] at e
    split at e
    · obtain rfl := Except.ok.inj e
      exact (ScanFrame.refl s).markFrame
    · simp only [Outcome.bind_eq_ok] at e
      obtain ⟨-, -, s₁, hscan, hrest⟩ := e
      have hscanned := scan_frame hscan
      have hpopped := hscanned.trans (ih hrest)
      exact ⟨hpopped.gray, hpopped.status, hpopped.allocatedSize, hpopped.lastAllocatedSize⟩

/-! ## The search for gray cells -/

/-- INTERNAL: the marks of a word.
SOURCE: m_gc_obj.c:296-316 -/
theorem scanWordGray_frame {ptr : Addr}
    (e : gcScanWordGray D descr n s flags ptr = .ok (b, s')) : ScanFrame s s' := by
  induction n generalizing s flags ptr with
  | zero => exact nomatch e
  | succ n ih =>
    rw [gcScanWordGray] at e
    have hpush : ScanFrame s (if flags &&& 3 = GC_MARK_GRAY then gcPushGrayStack D s ptr
        else (true, s)).2 := by
      split_ifs
      · exact pushGrayStack_frame D s ptr
      · exact ScanFrame.refl _
    generalize (if flags &&& 3 = GC_MARK_GRAY then gcPushGrayStack D s ptr
        else (true, s)) = pushed at e hpush
    obtain ⟨p, s₁⟩ := pushed
    simp only at e hpush
    split_ifs at e
    · obtain ⟨-, rfl⟩ := Prod.mk.inj (Except.ok.inj e)
      exact hpush
    · obtain ⟨-, rfl⟩ := Prod.mk.inj (Except.ok.inj e)
      exact hpush
    · exact hpush.trans (ih e)

/-- INTERNAL: the words of a bitmap.
SOURCE: m_gc_obj.c:295-321 -/
theorem scanWordsGray_frame {words : List ℕ}
    (e : gcScanWordsGray D descr pool words s = .ok (b, s')) : ScanFrame s s' := by
  induction words generalizing s with
  | nil =>
    obtain ⟨-, rfl⟩ := Prod.mk.inj (Except.ok.inj e)
    exact ScanFrame.refl _
  | cons n words ih =>
    rw [gcScanWordsGray] at e
    split at e
    · exact nomatch e
    · split_ifs at e
      · rw [Outcome.bind_eq_ok] at e
        obtain ⟨⟨p, s₁⟩, hword, hrest⟩ := e
        have hframe := scanWordGray_frame hword
        cases p with
        | true => exact hframe.trans (ih hrest)
        | false =>
          obtain ⟨-, rfl⟩ := Prod.mk.inj (Except.ok.inj hrest)
          exact hframe
      · exact ih e

/-- INTERNAL: a list of pools.
SOURCE: m_gc_obj.c:281-324, 338-347 -/
theorem scanPoolsGray_frame {bases : List Addr}
    (e : gcScanPoolsGray D bases s = .ok (b, s')) : ScanFrame s s' := by
  induction bases generalizing s with
  | nil =>
    obtain ⟨-, rfl⟩ := Prod.mk.inj (Except.ok.inj e)
    exact ScanFrame.refl _
  | cons base bases ih =>
    rw [gcScanPoolsGray, Outcome.bind_eq_ok] at e
    obtain ⟨⟨p, s₁⟩, hpool, hrest⟩ := e
    obtain ⟨pool, -, hwords⟩ := Outcome.bind_eq_ok.mp hpool
    have hframe := scanWordsGray_frame hwords
    cases p with
    | true => exact hframe.trans (ih hrest)
    | false =>
      obtain ⟨-, rfl⟩ := Prod.mk.inj (Except.ok.inj hrest)
      exact hframe

/-- INTERNAL: the pools of several types.
SOURCE: m_gc_obj.c:335-348 -/
theorem scanTypesGray_frame {types : List MGCObjType}
    (e : gcScanTypesGray D types s = .ok (b, s')) : ScanFrame s s' := by
  induction types generalizing s with
  | nil =>
    obtain ⟨-, rfl⟩ := Prod.mk.inj (Except.ok.inj e)
    exact ScanFrame.refl _
  | cons type types ih =>
    rw [gcScanTypesGray, Outcome.bind_eq_ok] at e
    obtain ⟨⟨p, s₁⟩, hfull, e⟩ := e
    have hframe := scanPoolsGray_frame hfull
    cases p with
    | false =>
      obtain ⟨-, rfl⟩ := Prod.mk.inj (Except.ok.inj e)
      exact hframe
    | true =>
      simp only [Bool.true_eq_false, if_false, Outcome.bind_eq_ok] at e
      obtain ⟨⟨q, s₂⟩, husable, e⟩ := e
      have hframe' := hframe.trans (scanPoolsGray_frame husable)
      cases q with
      | false =>
        obtain ⟨-, rfl⟩ := Prod.mk.inj (Except.ok.inj e)
        exact hframe'
      | true =>
        simp only [Bool.true_eq_false, if_false] at e
        exact hframe'.trans (ih e)

/-- INTERNAL: all pools.
SOURCE: m_gc_obj.c:327-349 -/
theorem scanGray_frame (e : gcScanGray D s = .ok s') : ScanFrame s s' := by
  rw [gcScanGray] at e
  split_ifs at e
  obtain ⟨⟨p, s₁⟩, htypes, e⟩ := Outcome.bind_eq_ok.mp e
  obtain rfl := Except.ok.inj e
  have hframe := scanTypesGray_frame htypes
  exact ⟨hframe.pools, hframe.status, hframe.allocatedSize, hframe.lastAllocatedSize⟩

/-! ## The loop -/

/-- INTERNAL: a call of `gc_mark_objs`.
SOURCE: m_gc_obj.c:352-376 -/
theorem markObjs_frame (e : gcMarkObjs D refs n s = .ok (b, s')) : MarkFrame s s' := by
  have hgray : ∀ {s}, gcMarkGray D refs n s = .ok (b, s') → MarkFrame s s' := by
    intro s e
    rw [gcMarkGray] at e
    split_ifs at e
    obtain ⟨s₁, hstack, e⟩ := Outcome.bind_eq_ok.mp e
    obtain ⟨-, rfl⟩ := Prod.mk.inj (Except.ok.inj e)
    exact markStack_frame hstack
  rw [gcMarkObjs] at e
  split_ifs at e
  · obtain ⟨-, rfl⟩ := Prod.mk.inj (Except.ok.inj e)
    exact (ScanFrame.refl s).markFrame
  · obtain ⟨s₁, hscan, e⟩ := Outcome.bind_eq_ok.mp e
    exact (scanGray_frame hscan).markFrame.trans (hgray e)
  · exact hgray e

/-- INTERNAL: the repetition of `gc_mark_objs` keeps the gray cells.
SOURCE: m_gc_obj.c:501-508 -/
theorem markPhase_gray (e : gcMarkPhase D refs flags n s = .ok (b, s')) :
    ∀ base pool id, s.pools base = some pool → poolMark pool id = GC_MARK_GRAY →
      ∃ pool', s'.pools base = some pool' ∧ poolMark pool' id = GC_MARK_GRAY := by
  induction n generalizing s with
  | zero => exact nomatch e
  | succ n ih =>
    rw [gcMarkPhase, Outcome.bind_eq_ok] at e
    obtain ⟨⟨done, s₁⟩, hobjs, e⟩ := e
    have hpools : (if done then { s₁ with status := GCStatus.sweep } else s₁).pools = s₁.pools := by
      split_ifs <;> rfl
    simp only at e
    generalize (if done then { s₁ with status := GCStatus.sweep } else s₁) = s₂ at e hpools
    intro base pool id hp hm
    obtain ⟨pool₁, hp₁, hm₁⟩ := (markObjs_frame hobjs).gray base pool id hp hm
    rw [← hpools] at hp₁
    split_ifs at e
    · obtain ⟨-, rfl⟩ := Prod.mk.inj (Except.ok.inj e)
      exact ⟨pool₁, hp₁, hm₁⟩
    · obtain ⟨-, rfl⟩ := Prod.mk.inj (Except.ok.inj e)
      exact ⟨pool₁, hp₁, hm₁⟩
    · exact ih e base pool₁ id hp₁ hm₁

/-- INTERNAL: a loop that ends leaves no gray cell. -/
theorem noGray_of_markLoopEnds (h : MarkLoopEnds D refs s) : NoGray s := by
  obtain ⟨fuel, s', e, hnone, -⟩ := h
  intro base pool hp id hm
  obtain ⟨pool', hp', hm'⟩ := markPhase_gray e base pool id hp hm
  exact hnone base pool' hp' id hm'

/-- **The mark loop gets rid of the gray cells exactly when there are none.** When the gray
stack is as the marking leaves it, the loop ends in a state without a gray cell, with all gray
cells made black, if and only if no cell is gray when it starts.
SOURCE: m_gc_obj.c:182-229, 280-376, 500-511 -/
theorem mark_loop_ends_iff (h : GrayStackOk D s) (refs : Addr → List Addr) :
    MarkLoopEnds D refs s ↔ NoGray s := by
  refine ⟨noGray_of_markLoopEnds, fun hnone => ?_⟩
  have hstack : s.grayStack = [] := by
    refine List.eq_nil_iff_forall_not_mem.mpr fun ptr hptr => ?_
    obtain ⟨base, pool, id, hp, -, hm⟩ := h.gray ptr hptr
    exact hnone base pool hp id hm
  have hneed : s.needScanGray = false := by
    rw [← Bool.not_eq_true]
    exact fun hneed => h.overflow hstack hneed hnone
  have hphase : gcMarkPhase D refs 0 1 s = .ok (true, { s with status := .sweep }) := by
    rw [gcMarkPhase, markObjs_eq hstack hneed, Outcome.ok_bind]
    rfl
  refine ⟨1, _, hphase, hnone, fun base pool id hp hm => absurd hm (hnone base pool hp id),
    fun hheap => ?_⟩
  obtain ⟨s'', e, -⟩ := sweep_returns (heapInv_withStatus hheap .sweep) hnone
  exact ⟨s'', e⟩

/-- Three cells of two types, one of which is a root when the roots are marked. -/
def markedOps : List GCOp :=
  [.alloc 0 .double (some 4096) false, .alloc 0 .object (some 8192) false,
    .alloc 0 .double none false, .setNbLevel 0 1, .run M_GC_COLLECT_FL_INCREMENT false]

/-- The mark loop of a heap with a black cell and two white ones. -/
theorem mark_loop_ends_marked : ∃ σ, GCRun defaultConfig markedOps σ ∧
    (hasMark (σ 5) 4096 0 GC_MARK_BLACK && hasMark (σ 5) 4096 1 GC_MARK_WHITE &&
      hasMark (σ 5) 8192 0 GC_MARK_WHITE) = true ∧
    MarkLoopEnds defaultConfig (fun _ => []) (σ 5) := by
  have hc : runChecked defaultConfig (fun _ => []) (fun _ _ => true)
      (fun s => hasMark s 4096 0 GC_MARK_BLACK && hasMark s 4096 1 GC_MARK_WHITE &&
        hasMark s 8192 0 GC_MARK_WHITE) markedOps
      gcObjStartup = true := by
    decide +kernel
  obtain ⟨σ, hrun, hplaced, -, hmarks⟩ := run_of_checked (startup_inv defaultConfig) hc
  have hi := run_inv (n := 5) hrun hplaced le_rfl
  refine ⟨σ, hrun, hmarks, (mark_loop_ends_iff ⟨?_, ?_, fun ptr hptr => ?_,
    fun _ base pool id hp hm => ?_, fun _ hneed => ?_⟩ _).mpr hi.noGray⟩
  · rw [hi.stack]
    exact List.nodup_nil
  · rw [hi.stack]
    exact Nat.zero_le _
  · rw [hi.stack] at hptr
    exact absurd hptr List.not_mem_nil
  · exact absurd hm (hi.noGray base pool hp id)
  · exact absurd (hi.need.symm.trans hneed) (by decide)

/-- A pool with one gray cell. -/
def grayPool : MGCCellPool :=
  setPoolMark { newPool defaultConfig .object 4096 with
    freeCells := (newPool defaultConfig .object 4096).freeCells.tail } 0 GC_MARK_GRAY

/-- A heap in the middle of marking: its only cell is gray and on the gray stack. -/
def grayHeap : GCState :=
  { gcObjStartup with
    pools := fun base => if base = 4096 then some grayPool else none
    stubs := fun type => if type = .object then ⟨[4096], []⟩ else ⟨[], []⟩
    grayStack := [cellAddr defaultConfig grayPool 0]
    status := .markObj
    allocatedSize := 40 }

/-- A gray cell on the gray stack is scanned and stays gray.
SOURCE: m_gc_obj.c:369-373 -/
theorem mark_loop_counterexample : ¬ ∀ (D : GCConfig) (refs : Addr → List Addr) (s : GCState),
    GrayStackOk D s → MarkLoopEnds D refs s := by
  intro hall
  have hpool : grayHeap.pools 4096 = some grayPool := rfl
  have hmark : ∀ id, poolMark grayPool id = if id = 0 then GC_MARK_GRAY else GC_MARK_UNUSED := by
    intro id
    rw [grayPool, poolMark_set rfl (by decide +kernel)]
    split_ifs
    · rfl
    · exact newPool_mark defaultConfig .object 4096 id
  have hgray : poolMark grayPool 0 = GC_MARK_GRAY := hmark 0
  have hok : GrayStackOk defaultConfig grayHeap := by
    refine ⟨List.nodup_singleton _, by decide, fun ptr hptr => ?_, fun _ base pool id hp hm => ?_,
      fun hnil => nomatch hnil⟩
    · exact ⟨4096, grayPool, 0, hpool, List.mem_singleton.mp hptr, hgray⟩
    · have hbase : base = 4096 := by
        by_contra hne
        exact nomatch (if_neg hne).symm.trans hp
      subst hbase
      obtain rfl := Option.some.inj (hpool.symm.trans hp)
      have hid : id = 0 := by
        by_contra hne
        rw [hmark, if_neg hne] at hm
        exact absurd hm (by decide)
      rw [hid]
      exact List.mem_singleton.mpr rfl
  exact noGray_of_markLoopEnds (hall defaultConfig (fun _ => []) grayHeap hok) 4096 grayPool hpool
    0 hgray

end Ming.Analysis
