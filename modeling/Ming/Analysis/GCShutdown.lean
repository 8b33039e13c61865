import Ming.Analysis.GCCompleteness

/-!
# Shutdown

The collection that `gc_obj_shutdown` runs does not mark, and sweeps what the colours say that
an earlier increment has left. Black cells survive it, and from the status COMPACT it does not
sweep at all.
-/

set_option autoImplicit false

namespace Ming.Analysis

open Ming.Foundation Ming.Model Ming.Interface

variable {D : GCConfig} {s s' s₁ : GCState} {ops : List GCOp} {σ : ℕ → GCState}
variable {refs : Addr → List Addr} {n : ℕ} {b : Bool}

/-- Shutdown returns with every allocated cell finalized once, every pool unmapped, both pool
lists of every type empty and no byte counted. -/
def ShutdownReclaims (D : GCConfig) (refs : Addr → List Addr) (s : GCState) : Prop :=
  ∃ fuel s', gcObjShutdown D refs fuel s = .ok s' ∧
    (∀ base pool id, s.pools base = some pool → poolMark pool id ≠ GC_MARK_UNUSED →
      finalCount (eventsSince s s') (cellAddr D pool id) = 1) ∧
    (∀ base, s'.pools base = none) ∧ (∀ type, s'.stubs type = ⟨[], []⟩) ∧ s'.allocatedSize = 0

/-- INTERNAL: the flags of the shutdown.
SOURCE: m_gc_obj.c:750 -/
theorem clearing_flag : clearing M_GC_COLLECT_FL_CLEAR ∧ ¬ incremental M_GC_COLLECT_FL_CLEAR := by
  decide

/-- INTERNAL: the collection at shutdown sweeps unless the status is COMPACT. -/
theorem sweeps_clear_iff (h : GCInv D s) :
    Sweeps s M_GC_COLLECT_FL_CLEAR ↔ s.status ≠ .compact := by
  have hroot := h.status
  rw [Sweeps, and_iff_left (Or.inl clearing_flag.1)]
  cases hst : s.status
  case markRoot => exact absurd hst hroot
  all_goals simp

/-- INTERNAL: a clearing collection marks no roots.
SOURCE: m_gc_obj.c:492 -/
theorem not_marksRoots_clear (s : GCState) : ¬ MarksRoots s M_GC_COLLECT_FL_CLEAR :=
  fun h => h.2 clearing_flag.1

/-- INTERNAL: without a mapped pool the lists are empty and no byte is counted. -/
theorem heapInv_empty (h : HeapInv D [] s) (hnone : ∀ base, s.pools base = none) :
    (∀ type, s.stubs type = ⟨[], []⟩) ∧ s.allocatedSize = 0 := by
  have hstubs : ∀ type, s.stubs type = ⟨[], []⟩ := by
    intro type
    have hnil : (s.stubs type).fullPools ++ (s.stubs type).usablePools = [] := by
      refine List.eq_nil_iff_forall_not_mem.mpr fun base hbase => ?_
      obtain ⟨-, pool, hpool, -⟩ := (h.lists.mem_type type).mp hbase
      exact nomatch (hnone base).symm.trans hpool
    obtain ⟨hfull, husable⟩ := List.append_eq_nil_iff.mp hnil
    cases hstub : s.stubs type with
    | mk usable full =>
      rw [hstub] at hfull husable
      rw [show usable = [] from husable, show full = [] from hfull]
  refine ⟨hstubs, ?_⟩
  have hlisted : gcObjTypes.flatMap (fun t => (s.stubs t).fullPools ++ (s.stubs t).usablePools) =
      [] := List.flatMap_eq_nil_iff.mpr fun t _ => by rw [hstubs]; rfl
  rw [bytes_eq_listed h, listedBytes, hlisted]
  rfl

/-- INTERNAL: what shutdown is, from a state of a run. -/
theorem shutdown_spec (h : GCInv D s) (e : gcObjShutdown D refs n s = .ok s') :
    ∃ s₂, Collected D M_GC_COLLECT_FL_CLEAR s s s₂ ∧ s' = { s₂ with grayStack := [] } := by
  rw [gcObjShutdown, Outcome.bind_eq_ok] at e
  obtain ⟨⟨b, s₂⟩, hcollect, e⟩ := e
  obtain rfl := Except.ok.inj e
  obtain ⟨s₁, hc⟩ := collect_spec h hcollect
  obtain rfl := hc.unmarked (not_marksRoots_clear s)
  exact ⟨s₂, hc, rfl⟩

/-- INTERNAL: a heap that shutdown reclaims has no black cell, and no cell at all when the
sweep has already been made. -/
theorem noBlack_of_shutdown (h : GCInv D s) (hs : ShutdownReclaims D refs s) :
    NoBlack s ∧ (s.status = .compact → ∀ base, s.pools base = none) := by
  obtain ⟨fuel, s', e, -, hnone, -⟩ := hs
  obtain ⟨s₂, hc, rfl⟩ := shutdown_spec h e
  by_cases hst : s.status = .compact
  · obtain ⟨st, rfl⟩ := hc.unswept fun hsw => (sweeps_clear_iff h).mp hsw hst
    exact ⟨h.noBlack (Or.inr hst), fun _ => hnone⟩
  · refine ⟨fun base pool hpool hblack => ?_, fun hst' => absurd hst' hst⟩
    obtain ⟨-, bases, -, hmem, hswept⟩ := hc.swept ((sweeps_clear_iff h).mpr hst)
    obtain ⟨p, hp, hkept, -⟩ := hswept.swept base ((hmem base).mpr (by simp [hpool]))
    obtain rfl := Option.some.inj (hpool.symm.trans hp)
    obtain ⟨pool', hpool', -⟩ := hkept hblack
    exact nomatch (hnone base).symm.trans hpool'

/-- **Shutdown reclaims everything exactly when no cell is black.** In every state of a run whose
operations meet what the collector does not check, `gc_obj_shutdown` finalizes every allocated cell
once, unmaps every pool and leaves the pool lists and the counter empty if and only if no cell is
black and, when the status is COMPACT, no pool is mapped.
SOURCE: m_gc_obj.c:378-522, 745-754 -/
theorem shutdown_reclaims_iff (h : GCRun D ops σ) (hp : RunPlaced D ops σ) (hn : n ≤ ops.length)
    (refs : Addr → List Addr) : ShutdownReclaims D refs (σ n) ↔
      NoBlack (σ n) ∧ ((σ n).status = .compact → ∀ base, (σ n).pools base = none) := by
  have hi := run_inv h hp hn
  refine ⟨noBlack_of_shutdown hi, fun ⟨hblack, hcompact⟩ => ?_⟩
  obtain ⟨⟨b, s₂⟩, e⟩ := collect_ok hi refs M_GC_COLLECT_FL_CLEAR
    fun hm => absurd hm (not_marksRoots_clear _)
  have hshutdown : gcObjShutdown D refs 1 (σ n) = .ok { s₂ with grayStack := [] } := by
    rw [gcObjShutdown, e]
    rfl
  obtain ⟨s₁, hc⟩ := collect_spec hi e
  obtain rfl := hc.unmarked (not_marksRoots_clear _)
  have hempty : (∀ base, s₂.pools base = none) ∧ ∀ base pool id, (σ n).pools base = some pool →
      poolMark pool id ≠ GC_MARK_UNUSED →
      finalCount (eventsSince (σ n) s₂) (cellAddr D pool id) = 1 := by
    by_cases hst : (σ n).status = .compact
    · obtain ⟨st, rfl⟩ := hc.unswept fun hsw => (sweeps_clear_iff hi).mp hsw hst
      exact ⟨hcompact hst, fun base pool id hpool =>
        nomatch (hcompact hst base).symm.trans hpool⟩
    · have hsweeps := (sweeps_clear_iff hi).mpr hst
      obtain ⟨-, bases, -, hmem, hswept⟩ := hc.swept hsweeps
      refine ⟨fun base => ?_, fun base pool id hpool hused => ?_⟩
      · by_cases hbase : base ∈ bases
        · obtain ⟨pool, hpool, -, hgone⟩ := hswept.swept base hbase
          exact hgone (hblack base pool hpool)
        · rw [hswept.other base hbase]
          by_contra hne
          exact hbase ((hmem base).mpr hne)
      · -- a cell in use is white
        have hwhite : poolMark pool id = GC_MARK_WHITE := by
          rcases poolMark_cases pool id with hm | hm | hm | hm
          · exact absurd hm hused
          · exact hm
          · exact absurd hm (hi.noGray base pool hpool id)
          · exact absurd ⟨id, hm⟩ (hblack base pool hpool)
        have hlt : id < D.cellNum pool.type := by
          by_contra hge
          exact hused ((hi.heap.pool hpool).padding id (Nat.le_of_not_lt hge))
        exact hc.finalCount_eq_one hsweeps ((hc.final_mem_iff hsweeps).mpr
          ⟨base, pool, hpool, rfl, mem_whiteCells.mpr ⟨id, hlt, rfl, hwhite⟩⟩)
  obtain ⟨hstubs, hsize⟩ := heapInv_empty hc.inv.heap hempty.1
  exact ⟨1, _, hshutdown, hempty.2, hempty.1, hstubs, hsize⟩

/-- Shutdown of a heap with cells of several types. -/
theorem shutdown_reclaims_dropped : ∃ σ, GCRun defaultConfig droppedOps σ ∧
    (σ 5).allocatedSize = 72 ∧ ShutdownReclaims defaultConfig (fun _ => []) (σ 5) := by
  have hc : runChecked defaultConfig (fun _ => []) (fun _ _ => true)
      (fun s => decide (s.status = .idle ∧ s.allocatedSize = 72)) droppedOps gcObjStartup =
        true := by
    decide +kernel
  obtain ⟨σ, hrun, hplaced, -, hP⟩ := run_of_checked (startup_inv defaultConfig) hc
  obtain ⟨hidle, hsize⟩ := of_decide_eq_true hP
  have hi := run_inv (n := 5) hrun hplaced le_rfl
  refine ⟨σ, hrun, hsize, (shutdown_reclaims_iff hrun hplaced le_rfl _).mpr
    ⟨hi.noBlack (Or.inl hidle), fun hst => ?_⟩⟩
  cases hidle.symm.trans hst

/-- A new cell is black after an incremental call has marked the roots, and shutdown keeps it.
SOURCE: m_gc_obj.c:410-414 -/
theorem shutdown_reclaims_counterexample : ¬ ∀ (D : GCConfig) (ops : List GCOp)
    (σ : ℕ → GCState) (n : ℕ), GCRun D ops σ → RunPlaced D ops σ → n ≤ ops.length → ∀ refs,
    ShutdownReclaims D refs (σ n) := by
  intro hall
  have hc : runChecked defaultConfig (fun _ => []) (fun _ _ => true)
      (fun s => hasMark s 4096 0 GC_MARK_BLACK)
      [.alloc 0 .double (some 4096) false, .run M_GC_COLLECT_FL_INCREMENT false] gcObjStartup =
        true := by
    decide +kernel
  obtain ⟨σ, hrun, hplaced, -, hP⟩ := run_of_checked (startup_inv defaultConfig) hc
  obtain ⟨pool, hpool, hmark⟩ := (Option.any_eq_true _ _).mp hP
  have hi := run_inv (n := 2) hrun hplaced le_rfl
  exact (noBlack_of_shutdown hi (hall defaultConfig _ σ 2 hrun hplaced le_rfl fun _ => [])).1 4096
    pool hpool ⟨0, of_decide_eq_true hmark⟩

end Ming.Analysis
