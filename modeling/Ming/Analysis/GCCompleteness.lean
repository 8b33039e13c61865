import Ming.Analysis.GCFarRun

/-!
# What a collection reclaims

A sweep finalizes every white cell once: no pool is swept twice, and within a pool no cell is
visited twice. After a complete collection of an idle heap all cells that nothing reaches are
free again, a pool stays mapped only when one of its cells survives, and the counter of the
last collection is the size of what survived.
-/

set_option autoImplicit false

namespace Ming.Analysis

open Ming.Foundation Ming.Model Ming.Interface

variable {D : GCConfig} {s s' s₁ : GCState} {ops : List GCOp} {σ : ℕ → GCState}
variable {refs : Addr → List Addr} {n : ℕ} {flags : BitVec 32} {b : Bool} {t : MGCObjType}
variable {a : Addr} {c : Cell}

/-- The address that a finalizer ran on. -/
def finalAddr : GCEvent → Option Addr
  | .final _ ptr => some ptr
  | _ => none

/-- How often the finalizer of a cell ran. -/
def finalCount (log : List GCEvent) (ptr : Addr) : ℕ := (log.filterMap finalAddr).count ptr

/-- The cell is reached from the root set. -/
def Reachable (D : GCConfig) (refs : Addr → List Addr) (s : GCState) (c : Cell) : Prop :=
  ∃ c₀, Held D s c₀ ∧ Relation.ReflTransGen (References D refs s) c₀ c

/-- The cell, which was there before, is free: it is on the free list of its pool once, or the
pool is unmapped. -/
def Reclaimed (D : GCConfig) (s : GCState) (c : Cell) : Prop :=
  s.pools c.1 = none ∨ ∃ pool, s.pools c.1 = some pool ∧ poolMark pool c.2 = GC_MARK_UNUSED ∧
    pool.freeCells.count (cellAddr D pool c.2) = 1

/-- What a collection of the heap `s` leaves in `s'` of the cells that nothing reaches. -/
structure Completed (D : GCConfig) (refs : Addr → List Addr) (s s' : GCState) : Prop where
  finalized : ∀ c pool, s.pools c.1 = some pool → poolMark pool c.2 ≠ GC_MARK_UNUSED →
    ¬ Reachable D refs s c → finalCount (eventsSince s s') (cellAddr D pool c.2) = 1
  reclaimed : ∀ c, IsAllocated s c → ¬ Reachable D refs s c → Reclaimed D s' c
  used : ∀ base pool, s'.pools base = some pool →
    ∃ id < D.cellNum pool.type, poolMark pool id ≠ GC_MARK_UNUSED
  bytes : s'.lastAllocatedSize = listedBytes D s'

/-! ## Finalizers -/

/-- INTERNAL: the addresses that the sweep of a pool runs finalizers on. -/
theorem filterMap_finals (s : GCState) (base : Addr) :
    (finals D s base).filterMap finalAddr =
      match s.pools base with
      | none => []
      | some pool => whiteCells D pool := by
  rw [finals, finalsAs]
  cases s.pools base with
  | none => rfl
  | some pool =>
    simp only [List.filterMap_map]
    exact List.filterMap_some

/-- INTERNAL: a sweep of the heap runs no finalizer twice. -/
theorem Collected.finalAddrs_nodup (h : Collected D flags s s₁ s') (hs : Sweeps s flags) :
    ((eventsSince s s').filterMap finalAddr).Nodup := by
  obtain ⟨bases, hnd, -, -, hlog⟩ := h.events_swept hs
  have hmark :
      (if MarksRoots s flags then [GCEvent.markRoot] else []).filterMap finalAddr = [] := by
    split_ifs <;> rfl
  rw [hlog, List.filterMap_append, hmark, List.nil_append, List.filterMap_flatMap]
  refine List.nodup_flatMap.mpr ⟨fun base _ => ?_, hnd.imp fun {base base'} hne a ha ha' => ?_⟩
  · rw [filterMap_finals]
    cases hpool : s₁.pools base with
    | none => exact List.nodup_nil
    | some pool => exact nodup_whiteCells (h.heap.pool hpool)
  · -- the address of a cell leads back to its pool
    have hbase : ∀ {base}, a ∈ (finals D s₁ base).filterMap finalAddr →
        base = gcObjGetPool D a := by
      intro base ha
      rw [filterMap_finals] at ha
      cases hpool : s₁.pools base with
      | none => simp [hpool] at ha
      | some pool =>
        rw [hpool] at ha
        obtain ⟨id, hid, rfl, -⟩ := mem_whiteCells.mp ha
        exact ((h.heap.pool hpool).getPool_cellAddr hid).symm
    exact hne ((hbase ha).trans (hbase ha').symm)

/-- INTERNAL: a cell that is finalized is finalized once. -/
theorem Collected.finalCount_eq_one (h : Collected D flags s s₁ s') (hs : Sweeps s flags)
    (ha : .final t a ∈ eventsSince s s') : finalCount (eventsSince s s') a = 1 :=
  List.count_eq_one_of_mem (h.finalAddrs_nodup hs) (List.mem_filterMap.mpr ⟨_, ha, rfl⟩)

/-! ## Cells and pools -/

/-- INTERNAL: a cell that was white before a sweep is free after it. -/
theorem Collected.reclaimed (h : Collected D flags s s₁ s') (hs : Sweeps s flags)
    {pool : MGCCellPool} (hpool : s₁.pools c.1 = some pool)
    (hw : poolMark pool c.2 = GC_MARK_WHITE) : Reclaimed D s' c := by
  obtain ⟨-, bases, -, hmem, hswept⟩ := h.swept hs
  obtain ⟨p, hp, hkept, hgone⟩ := hswept.swept c.1 ((hmem c.1).mpr (by simp [hpool]))
  obtain rfl := Option.some.inj (hpool.symm.trans hp)
  by_cases hblack : HasBlack pool
  · obtain ⟨pool', hpool', hsw⟩ := hkept hblack
    have hinv := h.inv.heap.pool hpool'
    have hunused : poolMark pool' c.2 = GC_MARK_UNUSED := by
      rw [hsw.mark, sweptMark_eq_unused]
      exact Or.inr hw
    have hlt : c.2 < D.cellNum pool'.type := by
      by_contra hge
      have hpad := (h.heap.pool hpool).padding c.2 (hsw.type_eq ▸ Nat.le_of_not_lt hge)
      exact absurd (hw.symm.trans hpad) (by decide)
    refine Or.inr ⟨pool', hpool', hunused, ?_⟩
    exact List.count_eq_one_of_mem hinv.free_nodup
      ((hinv.mem_free _).mpr ⟨c.2, hlt, rfl, hunused⟩)
  · exact Or.inl (hgone hblack)

/-- INTERNAL: a pool that is still mapped after a sweep has a cell that is in use. -/
theorem Collected.pool_used (h : Collected D flags s s₁ s') (hs : Sweeps s flags) {base : Addr}
    {pool : MGCCellPool} (hpool : s'.pools base = some pool) :
    ∃ id < D.cellNum pool.type, poolMark pool id ≠ GC_MARK_UNUSED := by
  obtain ⟨-, bases, -, hmem, hswept⟩ := h.swept hs
  have hbase : base ∈ bases := by
    by_contra hno
    have hnone : s₁.pools base = none := by
      by_contra hne
      exact hno ((hmem base).mpr hne)
    exact nomatch ((hswept.other base hno).trans hnone).symm.trans hpool
  obtain ⟨p, hp, hkept, hgone⟩ := hswept.swept base hbase
  by_cases hblack : HasBlack p
  · obtain ⟨pool', hpool', hsw⟩ := hkept hblack
    obtain rfl := Option.some.inj (hpool'.symm.trans hpool)
    obtain ⟨id, hid⟩ := hblack
    have hused : poolMark pool' id ≠ GC_MARK_UNUSED := by
      rw [hsw.mark, hid]
      decide
    refine ⟨id, ?_, hused⟩
    by_contra hge
    exact hused ((h.inv.heap.pool hpool).padding id (Nat.le_of_not_lt hge))
  · exact nomatch (hgone hblack).symm.trans hpool

/-- INTERNAL: what the root set blackens directly is reached. -/
theorem reachable_of_blackens (h : RootBlackens D s c.1 c.2) : Reachable D refs s c := by
  have hheld : Held D s c := by
    rcases rootBlackens_iff.mp h with ⟨word, hword, -, hpoints⟩ | ⟨hheld, -⟩
    · exact Or.inl ⟨word, hword, hpoints⟩
    · exact hheld
  exact ⟨c, hheld, Relation.ReflTransGen.refl⟩

/-- **A collection reclaims every cell that nothing reaches.** A complete collection of an idle
heap returns when the marks of all roots can be read; then every allocated cell that is not
reached has been finalized once and is free, every pool that is still mapped has a cell in use,
and the counter of the last collection is the size of the cells that survived.
SOURCE: m_gc_obj.c:200-278, 351-376, 378-522 -/
theorem collect_complete (h : GCRun D ops σ) (hp : RunPlaced D ops σ) (hn : n ≤ ops.length)
    (hidle : (σ n).status = .idle) (refs : Addr → List Addr) :
    (RootsResolve D (σ n) → ∃ fuel r, gcDoCollect D refs fuel 0 (σ n) = .ok r) ∧
      ∀ fuel b s', gcDoCollect D refs fuel 0 (σ n) = .ok (b, s') →
        Completed D refs (σ n) s' := by
  have hi := run_inv h hp hn
  refine ⟨fun hroots => ⟨1, collect_ok hi refs 0 fun _ => hroots⟩, fun fuel b s' e => ?_⟩
  obtain ⟨s₁, hc⟩ := collect_spec hi e
  have hs : Sweeps (σ n) 0 := Or.inr ⟨Or.inl hidle, Or.inr (by decide)⟩
  have hfinal : ∀ c pool, (σ n).pools c.1 = some pool → poolMark pool c.2 ≠ GC_MARK_UNUSED →
      ¬ Reachable D refs (σ n) c →
      .final pool.type (cellAddr D pool c.2) ∈ eventsSince (σ n) s' ∧ Reclaimed D s' c := by
    intro c pool hpool hused hnot
    have hspared : ¬ RootBlackens D (σ n) c.1 c.2 := fun hb => hnot (reachable_of_blackens hb)
    obtain ⟨p, hp, -, hmem⟩ := (swept_iff hi hidle e c).mpr ⟨⟨pool, hpool, hused⟩, hspared⟩
    obtain rfl := Option.some.inj (hpool.symm.trans hp)
    obtain ⟨pool₁, hpool₁, -, -, hmark⟩ := (hc.mark_of_idle hi hidle).2 c.1 pool hpool
    exact ⟨hmem, hc.reclaimed hs hpool₁ ((hmark c.2).mpr ⟨hused, hspared⟩)⟩
  refine ⟨fun c pool hpool hused hnot => ?_, fun c ⟨pool, hpool, hused⟩ hnot => ?_,
    fun base pool hpool => hc.pool_used hs hpool, ?_⟩
  · exact hc.finalCount_eq_one hs (hfinal c pool hpool hused hnot).1
  · exact (hfinal c pool hpool hused hnot).2
  · rw [(hc.swept hs).1, bytes_eq_listed hc.inv.heap]

/-- Four cells of three types, of which the new-born stack still holds the first. -/
def droppedOps : List GCOp :=
  [.alloc 0 .double (some 4096) false, .alloc 0 .string (some 8192) false,
    .alloc 0 .double none false, .alloc 0 .object (some 12288) false, .setNbLevel 0 1]

/-- A collection of cells of several types. -/
theorem collect_complete_dropped : ∃ σ b s', GCRun defaultConfig droppedOps σ ∧
    gcDoCollect defaultConfig (fun _ => []) 1 0 (σ 5) = .ok (b, s') ∧
    eventsSince (σ 5) s' = [.markRoot, .final .double 4272, .final .string 8296,
      .final .object 12360] ∧ Completed defaultConfig (fun _ => []) (σ 5) s' := by
  have hc : runChecked defaultConfig (fun _ => []) (fun _ _ => true)
      (fun s => decide (s.status = .idle) &&
        (gcDoCollect defaultConfig (fun _ => []) 1 0 s).check fun r => decide (eventsSince s r.2 =
          [.markRoot, .final .double 4272, .final .string 8296, .final .object 12360]))
      droppedOps gcObjStartup = true := by
    decide +kernel
  obtain ⟨σ, hrun, hplaced, -, hP⟩ := run_of_checked (startup_inv defaultConfig) hc
  rw [Bool.and_eq_true, decide_eq_true_eq] at hP
  obtain ⟨⟨b, s'⟩, e, hevents⟩ := Outcome.exists_of_check hP.2
  exact ⟨σ, b, s', hrun, e, of_decide_eq_true hevents,
    (collect_complete hrun hplaced le_rfl hP.1 _).2 1 b s' e⟩

/-- The collection of a pool of `2 ^ 33` bytes runs no finalizer on a cell that nothing reaches.
SOURCE: m_gc_obj.c:393 -/
theorem collect_complete_counterexample : ¬ ∀ (D : GCConfig) (ops : List GCOp)
    (σ : ℕ → GCState) (n : ℕ), GCRun D ops σ → n ≤ ops.length → (σ n).status = .idle →
    ∀ refs, (RootsResolve D (σ n) → ∃ fuel r, gcDoCollect D refs fuel 0 (σ n) = .ok r) ∧
      ∀ fuel b s', gcDoCollect D refs fuel 0 (σ n) = .ok (b, s') →
        Completed D refs (σ n) s' := by
  intro hall
  obtain ⟨ops, σ, hrun, hkept⟩ := far_run
  obtain ⟨pool, s', -, hpool, hwhite, e, -, -, -, -, -, -, hfinals⟩ :=
    hkept.collect (by decide) farCell_lt loopAddr_farCell fun _ => []
  have hdone := (hall farConfig ops σ ops.length hrun le_rfl hkept.idle fun _ => []).2 1 true s' e
  have hfar : ¬ Reachable farConfig (fun _ => []) (σ ops.length)
      (farConfig.poolSize, farCell) := by
    rintro ⟨c, hheld, hpath⟩
    have hfirst := hkept.held (Nat.zero_lt_of_lt farCell_lt) hheld
    rcases Relation.ReflTransGen.cases_tail hpath with heq | ⟨_, -, _, -, ptr, hptr, -⟩
    · rw [← heq] at hfirst
      exact absurd hfirst (by decide)
    · exact absurd hptr List.not_mem_nil
  have hone := hdone.finalized (farConfig.poolSize, farCell) pool hpool
    (by rw [hwhite]; decide) hfar
  have hmem : cellAddr farConfig pool farCell ∈
      (eventsSince (σ ops.length) s').filterMap finalAddr :=
    List.count_pos_iff.mp (Nat.lt_of_lt_of_eq Nat.zero_lt_one hone.symm)
  obtain ⟨e, he, haddr⟩ := List.mem_filterMap.mp hmem
  cases e with
  | final t ptr =>
    obtain rfl := Option.some.inj haddr
    exact hfinals t he
  | markRoot => exact absurd haddr (by simp [finalAddr])
  | alloc ptr => exact absurd haddr (by simp [finalAddr])

end Ming.Analysis
