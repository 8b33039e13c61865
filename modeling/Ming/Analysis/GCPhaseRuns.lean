import Ming.Analysis.GCHeapRuns
import Ming.Model.GCPhases

/-!
# Runs in which a collection is not one step

A call of `gc_do_collect` is its cases one after the other, and an operation is what it does before
that call and then the cases of the call. Between two cases other threads may come: the invariant
of the collector holds there too, since a case of a collection that does not clear the heap is an
incremental call of its own.
-/

set_option autoImplicit false

namespace Ming.Analysis

open Ming.Foundation Ming.Model Ming.Interface

variable {D : GCConfig} {s s' : GCState} {refs : Addr → List Addr} {n k : ℕ} {flags : BitVec 32}
variable {b done : Bool} {op : GCOp}

/-! ## A call is its cases -/

/-- INTERNAL: where the repetition of `gc_mark_objs` ends.
SOURCE: m_gc_obj.c:501-508 -/
theorem markPhase_end (e : gcMarkPhase D refs flags n s = .ok (b, s')) :
    (incremental flags → b = false) ∧ (¬ incremental flags → b = true ∧ s'.status = .sweep) := by
  induction n generalizing s with
  | zero => exact nomatch e
  | succ n ih =>
    rw [gcMarkPhase, Outcome.bind_eq_ok] at e
    obtain ⟨⟨marked, s₁⟩, -, e⟩ := e
    by_cases hinc : incremental flags
    · simp only [hinc, if_true] at e
      obtain ⟨rfl, -⟩ := Prod.mk.inj (Except.ok.inj e)
      exact ⟨fun _ => rfl, fun hn => absurd hinc hn⟩
    · refine ⟨fun h => absurd h hinc, fun _ => ?_⟩
      cases marked with
      | true =>
        simp only [hinc, if_true, if_false] at e
        obtain ⟨rfl, rfl⟩ := Prod.mk.inj (Except.ok.inj e)
        exact ⟨rfl, rfl⟩
      | false =>
        simp only [hinc, if_false, Bool.false_eq_true] at e
        exact (ih e).2 hinc

/-- The heap behind a call. -/
def heapAfter (x : Outcome (Bool × GCState)) : Outcome GCState := x >>= fun r => pure r.2

/-- INTERNAL: the cases from `GC_STATUS_COMPACT` on. -/
theorem cases_compact (hst : s.status = .compact) :
    gcCollectCases D refs n flags (k + 1) s = heapAfter (.ok (gcCollectCompact s)) := by
  rw [gcCollectCases, gcCollectCase, hst]
  rfl

/-- INTERNAL: the cases from `GC_STATUS_SWEEP` on. -/
theorem cases_sweep (hst : s.status = .sweep) :
    gcCollectCases D refs n flags (k + 2) s = heapAfter (gcCollectSweep D flags s) := by
  rw [gcCollectCases, gcCollectCase, hst, gcCollectSweep, heapAfter]
  cases gcSweep D s with
  | error x => rfl
  | ok s₁ =>
    by_cases hinc : incremental flags
    · simp [hinc]
    · simp only [Outcome.ok_bind, Outcome.pure_eq_ok, hinc, decide_false, if_false,
        Bool.false_eq_true]
      exact cases_compact rfl

/-- INTERNAL: the cases from `GC_STATUS_MARK_OBJ` on. -/
theorem cases_markObj (hst : s.status = .markObj) :
    gcCollectCases D refs n flags (k + 3) s = heapAfter (gcCollectMarkObj D refs n flags s) := by
  rw [gcCollectCases, gcCollectCase, hst, gcCollectMarkObj]
  by_cases hc : clearing flags
  · simp only [hc, if_true, Outcome.ok_bind, Bool.false_eq_true, if_false]
    exact cases_sweep rfl
  · simp only [hc, if_false]
    cases e : gcMarkPhase D refs flags n s with
    | error x => rfl
    | ok r =>
      obtain ⟨b, s₁⟩ := r
      obtain ⟨hinc, hall⟩ := markPhase_end e
      by_cases hi : incremental flags
      · obtain rfl := hinc hi
        simp [hi, heapAfter]
      · obtain ⟨rfl, hst₁⟩ := hall hi
        simp only [Outcome.ok_bind, Outcome.pure_eq_ok, hi, decide_false, Bool.false_eq_true,
          if_false, if_true]
        exact cases_sweep hst₁

/-- INTERNAL: the cases from `GC_STATUS_MARK_ROOT` on, which `GC_STATUS_IDLE` falls into. -/
theorem cases_markRoot (hst : s.status = .idle ∨ s.status = .markRoot) :
    gcCollectCases D refs n flags (k + 4) s =
      heapAfter (gcCollectMarkRoot D refs n flags { s with status := .markRoot }) := by
  have hcase : gcCollectCase D refs n flags s =
      if clearing flags then .ok (false, { s with status := .markObj })
      else gcMarkRoot D { s with status := .markRoot } >>= fun s₁ =>
        .ok (decide (incremental flags), { s₁ with status := .markObj }) := by
    rw [gcCollectCase]
    rcases hst with hst | hst
    · rw [hst]
      rfl
    · rw [hst]
      rfl
  rw [gcCollectCases, hcase, gcCollectMarkRoot]
  by_cases hc : clearing flags
  · simp only [hc, if_true, Outcome.ok_bind, Bool.false_eq_true, if_false]
    exact cases_markObj rfl
  · simp only [hc, if_false]
    cases gcMarkRoot D { s with status := .markRoot } with
    | error x => rfl
    | ok s₁ =>
      by_cases hi : incremental flags
      · simp [hi, heapAfter]
      · simp only [Outcome.ok_bind, Outcome.pure_eq_ok, hi, decide_false, Bool.false_eq_true,
          if_false]
        exact cases_markObj rfl

/-- **A call of `gc_do_collect` is its cases one after the other.**
SOURCE: m_gc_obj.c:483-522 -/
theorem doCollect_cases (D : GCConfig) (refs : Addr → List Addr) (n : ℕ) (flags : BitVec 32)
    (s : GCState) :
    heapAfter (gcDoCollect D refs n flags s) = gcCollectCases D refs n flags 4 s := by
  rw [gcDoCollect]
  cases hst : s.status with
  | idle => exact (cases_markRoot (Or.inl hst)).symm
  | markRoot =>
    have hs : { s with status := .markRoot } = s := by rw [← hst]
    rw [cases_markRoot (Or.inr hst), hs]
  | markObj => exact (cases_markObj hst).symm
  | sweep => exact (cases_sweep hst).symm
  | compact => exact (cases_compact hst).symm

/-- **An operation is its start and the cases of the collection that it starts.**
SOURCE: m_gc_obj.c:525-568, 571-645 -/
theorem exec_cases (D : GCConfig) (refs : Addr → List Addr) (n : ℕ) (s : GCState) (op : GCOp) :
    op.exec D refs n s = op.start D s >>= fun r =>
      match r.1 with
      | none => pure r.2
      | some flags => gcCollectCases D refs n flags 4 r.2 := by
  cases op with
  | alloc th type map waiting =>
    rw [GCOp.exec, GCOp.start, gcAllocObj]
    cases gcUsablePool D s type map with
    | none => rfl
    | some bs =>
      obtain ⟨base, s₀⟩ := bs
      simp only
      cases gcTakeCell D s₀ th type base with
      | error x => rfl
      | ok r =>
        obtain ⟨cell, oid, s₁⟩ := r
        simp only [Outcome.ok_bind, Outcome.pure_eq_ok, gcCollectObjs]
        by_cases hneed : collectionNeeded D s₁
        · cases waiting with
          | true => simp [hneed]
          | false =>
            simp only [hneed, if_true, Bool.false_eq_true, if_false, and_self,
              ← doCollect_cases, heapAfter]
            cases gcDoCollect D refs n 0 s₁ <;> rfl
        · simp [hneed]
  | run flags waiting =>
    rw [GCOp.exec, GCOp.start, gcCollectObjs]
    cases waiting with
    | true => rfl
    | false =>
      simp only [Bool.false_eq_true, if_false, Outcome.ok_bind, ← doCollect_cases, heapAfter]
  | addObj th oid =>
    simp only [GCOp.start, GCOp.exec]
    cases mGCAddObj s th oid <;> rfl
  | setNbLevel th level =>
    simp only [GCOp.start, GCOp.exec]
    cases mGCSetNbLevel s th level <;> rfl
  | setRoots ptrs => rfl
  | threadEnter => rfl
  | threadExit th => rfl

/-! ## Between two cases -/

/-- The operation, when another thread runs the collector. -/
def whileCollecting : GCOp → GCOp
  | .alloc th type map _ => .alloc th type map true
  | .run flags _ => .run flags true
  | op => op

/-- INTERNAL: the start of an operation is an operation that waits for the collector. -/
theorem start_step {r : Option (BitVec 32)} (hmap : op.mapsFresh D s)
    (e : op.start D s = .ok (r, s')) : GCStep D s (whileCollecting op) s' := by
  have hstart : (whileCollecting op).start D s = .ok (none, s') := by
    cases op with
    | alloc th type map waiting =>
      rw [whileCollecting, GCOp.start]
      rw [GCOp.start] at e
      cases hpool : gcUsablePool D s type map with
      | none =>
        rw [hpool] at e
        obtain ⟨-, rfl⟩ := Prod.mk.inj (Except.ok.inj e)
        rfl
      | some bs =>
        rw [hpool] at e
        obtain ⟨⟨cell, oid, s₁⟩, htake, e⟩ := Outcome.bind_eq_ok.mp e
        obtain ⟨-, rfl⟩ := Prod.mk.inj (Except.ok.inj e)
        simp [htake]
    | run flags waiting =>
      obtain ⟨-, rfl⟩ := Prod.mk.inj (Except.ok.inj e)
      rfl
    | addObj th oid =>
      obtain ⟨s₁, e₁, e₂⟩ := Outcome.bind_eq_ok.mp e
      obtain ⟨rfl, rfl⟩ := Prod.mk.inj (Except.ok.inj e₂)
      exact e
    | setNbLevel th level =>
      obtain ⟨s₁, e₁, e₂⟩ := Outcome.bind_eq_ok.mp e
      obtain ⟨rfl, rfl⟩ := Prod.mk.inj (Except.ok.inj e₂)
      exact e
    | setRoots ptrs =>
      obtain ⟨rfl, rfl⟩ := Prod.mk.inj (Except.ok.inj e)
      rfl
    | threadEnter =>
      obtain ⟨rfl, rfl⟩ := Prod.mk.inj (Except.ok.inj e)
      rfl
    | threadExit th =>
      obtain ⟨rfl, rfl⟩ := Prod.mk.inj (Except.ok.inj e)
      rfl
  refine ⟨?_, fun _ => [], 0, ?_⟩
  · cases op with
    | alloc th type map waiting => cases map <;> exact hmap
    | _ => exact trivial
  · rw [exec_cases, hstart]
    rfl

/-- INTERNAL: what the collector does not check has nothing to do with waiting. -/
theorem placed_whileCollecting (h : op.placed D s) : (whileCollecting op).placed D s := by
  cases op <;> exact h

/-- INTERNAL: a case of a collection that does not clear the heap is an incremental call. -/
theorem case_doCollect (hi : GCInv D s) (hc : ¬ clearing flags)
    (e : gcCollectCase D refs n flags s = .ok (done, s')) :
    ∃ b, gcDoCollect D refs 1 M_GC_COLLECT_FL_INCREMENT s = .ok (b, s') := by
  have hinc : incremental M_GC_COLLECT_FL_INCREMENT := by decide
  have hnotc : ¬ clearing M_GC_COLLECT_FL_INCREMENT := by decide
  rw [gcCollectCase] at e
  rw [gcDoCollect]
  cases hst : s.status with
  | markRoot => exact absurd hst hi.status
  | idle =>
    simp only [hst, if_neg hc] at e
    obtain ⟨s₁, hmark, e⟩ := Outcome.bind_eq_ok.mp e
    obtain ⟨-, rfl⟩ := Prod.mk.inj (Except.ok.inj e)
    refine ⟨false, ?_⟩
    simp only [gcCollectMarkRoot, if_neg hnotc, hmark, Outcome.ok_bind, if_pos hinc]
    rfl
  | markObj =>
    simp only [hst, if_neg hc] at e
    obtain ⟨⟨b, s₁⟩, hphase, e⟩ := Outcome.bind_eq_ok.mp e
    obtain ⟨-, rfl⟩ := Prod.mk.inj (Except.ok.inj e)
    cases n with
    | zero => cases hphase
    | succ n =>
      rw [gcMarkPhase, markObjs_eq hi.stack hi.need, Outcome.ok_bind] at hphase
      have hs₁ : s₁ = { s with status := .sweep } := by
        split_ifs at hphase
        all_goals exact (Prod.mk.inj (Except.ok.inj hphase)).2.symm
      refine ⟨false, ?_⟩
      simp only
      rw [collectMarkObj_eq hi.stack hi.need, if_neg, hs₁]
      exact not_or.mpr ⟨hnotc, not_not.mpr hinc⟩
  | sweep =>
    simp only [hst] at e
    obtain ⟨s₁, hsweep, e⟩ := Outcome.bind_eq_ok.mp e
    obtain ⟨-, rfl⟩ := Prod.mk.inj (Except.ok.inj e)
    refine ⟨false, ?_⟩
    simp only [gcCollectSweep, hsweep, Outcome.ok_bind, if_pos hinc]
    rfl
  | compact =>
    simp only [hst] at e
    obtain ⟨-, rfl⟩ := Prod.mk.inj (Except.ok.inj e)
    exact ⟨true, rfl⟩

/-- INTERNAL: a case keeps the invariant.
SOURCE: m_gc_obj.c:483-522 -/
theorem case_inv (hi : GCInv D s) (e : gcCollectCase D refs n flags s = .ok (done, s')) :
    GCInv D s' := by
  have hmove : ∀ st, st = .markObj ∨ st = .sweep → GCInv D { s with status := st } := by
    intro st hst
    refine ⟨heapInv_withStatus hi.heap st, hi.near, hi.noGray, fun hd => ?_, hi.stack, hi.need,
      fun hr => ?_, hi.threads⟩
    · rcases hst with rfl | rfl <;> rcases hd with hd | hd <;> cases hd
    · rcases hst with rfl | rfl <;> cases hr
  have hplain : ¬ clearing flags → GCInv D s' := by
    intro hc
    obtain ⟨b, e⟩ := case_doCollect hi hc e
    obtain ⟨_, hc⟩ := collect_spec hi e
    exact hc.inv
  by_cases hc : clearing flags
  · cases hst : s.status with
    | markRoot => exact absurd hst hi.status
    | idle =>
      rw [gcCollectCase, hst] at e
      simp only [if_pos hc] at e
      obtain ⟨-, rfl⟩ := Prod.mk.inj (Except.ok.inj e)
      exact hmove _ (Or.inl rfl)
    | markObj =>
      rw [gcCollectCase, hst] at e
      simp only [if_pos hc] at e
      obtain ⟨-, rfl⟩ := Prod.mk.inj (Except.ok.inj e)
      exact hmove _ (Or.inr rfl)
    | sweep =>
      -- these two cases do not look at the flag
      rw [gcCollectCase, hst] at e
      have e₀ : gcCollectCase D refs n 0 s = .ok (false, s') := by
        rw [gcCollectCase, hst]
        obtain ⟨s₁, hsweep, e⟩ := Outcome.bind_eq_ok.mp e
        obtain ⟨-, rfl⟩ := Prod.mk.inj (Except.ok.inj e)
        exact Outcome.bind_eq_ok.mpr ⟨s₁, hsweep, rfl⟩
      obtain ⟨b, e⟩ := case_doCollect hi (by decide) e₀
      obtain ⟨_, hc⟩ := collect_spec hi e
      exact hc.inv
    | compact =>
      rw [gcCollectCase, hst] at e
      have e₀ : gcCollectCase D refs n 0 s = .ok (done, s') := by
        rw [gcCollectCase, hst]
        exact e
      obtain ⟨b, e⟩ := case_doCollect hi (by decide) e₀
      obtain ⟨_, hc⟩ := collect_spec hi e
      exact hc.inv
  · exact hplain hc

/-! ## Runs -/

variable {acts : List GCAction} {ω : ℕ → GCWorld} {w w' : GCWorld} {a : GCAction}

/-- A run of operations and cases from the start of the program. -/
abbrev GCWorldRun (D : GCConfig) (acts : List GCAction) (ω : ℕ → GCWorld) : Prop :=
  Run (fun w => w = gcWorldStartup) (GCWorldStep D) acts ω

/-- Every operation of the run meets what the collector does not check. -/
def WorldPlaced (D : GCConfig) (acts : List GCAction) (ω : ℕ → GCWorld) : Prop :=
  ∀ i (hi : i < acts.length), (acts[i]).placed D (ω i).heap

/-- INTERNAL: every step keeps the invariant. -/
theorem worldStep_inv (hi : GCInv D w.heap) (hp : a.placed D w.heap) (hs : GCWorldStep D w a w') :
    GCInv D w'.heap := by
  cases hs with
  | op hwait hmap e => exact step_inv hi (placed_whileCollecting hp) (start_step hmap e)
  | case hflags e => exact case_inv hi e

/-- INTERNAL: the invariant holds in every state of a run. -/
theorem world_inv (h : GCWorldRun D acts ω) (hp : WorldPlaced D acts ω) {n : ℕ}
    (hn : n ≤ acts.length) : GCInv D (ω n).heap :=
  h.inv_of (fun _ w => GCInv D w.heap) (fun _ w a => a.placed D w.heap)
    (fun w (hw : w = gcWorldStartup) => hw ▸ startup_inv D)
    (fun _ _ _ _ hi hs hp => worldStep_inv hi hp hs) n hn fun i hi _ => hp i hi

/-- INTERNAL: a run with one more step. -/
theorem world_snoc (h : GCWorldRun D acts ω) (hp : WorldPlaced D acts ω)
    (ha : a.placed D (ω acts.length).heap) (hs : GCWorldStep D (ω acts.length) a w') :
    ∃ ω', GCWorldRun D (acts ++ [a]) ω' ∧ WorldPlaced D (acts ++ [a]) ω' ∧
      ω' acts.length = ω acts.length ∧ ω' (acts.length + 1) = w' := by
  refine ⟨_, h.snoc hs, fun i hi => ?_, if_pos le_rfl, if_neg (Nat.not_succ_le_self _)⟩
  rw [List.length_append, List.length_singleton] at hi
  have hstate : (if i ≤ acts.length then ω i else w') = ω i := if_pos (Nat.le_of_lt_succ hi)
  simp only [hstate]
  rcases Nat.lt_or_eq_of_le (Nat.le_of_lt_succ hi) with hlt | rfl
  · rw [List.getElem_append_left hlt]
    exact hp i hlt
  · rw [List.getElem_append_right le_rfl]
    simpa using ha

/-- Execute the steps, and check each of them, and the last state; `Q` is what is checked of a step
besides. -/
def worldChecked (D : GCConfig) (refs : Addr → List Addr) (Q : GCWorld → GCAction → Bool)
    (P : GCWorld → Bool) : List GCAction → GCWorld → Bool
  | [], w => P w
  | .op o :: acts, w => Q w (.op o) && decide (o.waitsFor w.collecting.isSome) &&
    opChecked D w.heap o && (o.start D w.heap).check fun r =>
      worldChecked D refs Q P acts ⟨r.2, r.1.or w.collecting⟩
  | .case :: acts, w => Q w .case && w.collecting.any fun flags =>
    (gcCollectCase D refs 1 flags w.heap).check fun r =>
      worldChecked D refs Q P acts ⟨r.2, if r.1 then none else some flags⟩

/-- The run that was executed. -/
structure WorldChecked (D : GCConfig) (Q : GCWorld → GCAction → Bool) (P : GCWorld → Bool)
    (w : GCWorld) (acts : List GCAction) (ω : ℕ → GCWorld) : Prop where
  run : Run (fun w₀ => w₀ = w) (GCWorldStep D) acts ω
  placed : WorldPlaced D acts ω
  steps : ∀ i (hi : i < acts.length), Q (ω i) acts[i] = true
  last : P (ω acts.length) = true

variable {Q : GCWorld → GCAction → Bool} {P : GCWorld → Bool}

/-- INTERNAL: a run with one more step at its beginning. -/
theorem WorldChecked.cons (h : WorldChecked D Q P w' acts ω) (hp : a.placed D w.heap)
    (hq : Q w a = true) (hs : GCWorldStep D w a w') :
    WorldChecked D Q P w (a :: acts) fun i => if i = 0 then w else ω (i - 1) := by
  refine ⟨Run.cons rfl hs h.run, fun i hi => ?_, fun i hi => ?_, by simpa using h.last⟩
  · cases i with
    | zero => exact hp
    | succ i => simpa using h.placed i (Nat.lt_of_succ_lt_succ hi)
  · cases i with
    | zero => exact hq
    | succ i => simpa using h.steps i (Nat.lt_of_succ_lt_succ hi)

/-- INTERNAL: a run that was executed and checked is a run. -/
theorem world_of_checked (h : GCInv D w.heap) (hc : worldChecked D refs Q P acts w = true) :
    ∃ ω, WorldChecked D Q P w acts ω := by
  induction acts generalizing w with
  | nil =>
    exact ⟨fun _ => w, Run.nil rfl, fun i hi => absurd hi (Nat.not_lt_zero i),
      fun i hi => absurd hi (Nat.not_lt_zero i), hc⟩
  | cons a acts ih =>
    cases a with
    | op o =>
      rw [worldChecked, Bool.and_eq_true, Bool.and_eq_true, Bool.and_eq_true,
        decide_eq_true_eq] at hc
      obtain ⟨⟨⟨hq, hwait⟩, hop⟩, hc⟩ := hc
      obtain ⟨hmap, hplaced⟩ := opChecked_spec h.heap hop
      obtain ⟨r, e, hc⟩ := Outcome.exists_of_check hc
      have hs : GCWorldStep D w (.op o) ⟨r.2, r.1.or w.collecting⟩ := .op hwait hmap e
      have hp : (GCAction.op o).placed D w.heap := hplaced
      obtain ⟨ω, hω⟩ := ih (worldStep_inv h hp hs) hc
      exact ⟨_, hω.cons hp hq hs⟩
    | case =>
      rw [worldChecked, Bool.and_eq_true, Option.any_eq_true] at hc
      obtain ⟨hq, flags, hflags, hc⟩ := hc
      obtain ⟨r, e, hc⟩ := Outcome.exists_of_check hc
      have hs : GCWorldStep D w .case ⟨r.2, if r.1 then none else some flags⟩ := .case hflags e
      have hp : GCAction.case.placed D w.heap := trivial
      obtain ⟨ω, hω⟩ := ih (worldStep_inv h hp hs) hc
      exact ⟨_, hω.cons hp hq hs⟩

end Ming.Analysis
