import Ming.Analysis.GCMarkLoop

/-!
# Incremental collection

With `M_GC_COLLECT_FL_INCREMENT`, `gc_do_collect` returns behind every phase, and behind every
call of `gc_mark_objs`. Without another operation in between, its calls go through the same
states as one call without the flag, phase by phase and from every status.
-/

set_option autoImplicit false

namespace Ming.Analysis

open Ming.Foundation Ming.Model Ming.Interface

variable {D : GCConfig} {s s' s₁ : GCState} {refs : Addr → List Addr} {n n' k : ℕ} {b : Bool}
variable {flags : BitVec 32}

/-- Calls of `gc_do_collect` with `M_GC_COLLECT_FL_INCREMENT` until one returns true. -/
def gcCollectIncrements (D : GCConfig) (refs : Addr → List Addr) (fuel : ℕ) :
    ℕ → GCState → Outcome GCState
  | 0, _ => .error .outOfFuel
  | k + 1, s => do
    let (done, s) ← gcDoCollect D refs fuel M_GC_COLLECT_FL_INCREMENT s
    if done then pure s else gcCollectIncrements D refs fuel k s

/-- INTERNAL: the two flags of an increment, and of a whole collection. -/
theorem incremental_flag : incremental M_GC_COLLECT_FL_INCREMENT ∧
    ¬ clearing M_GC_COLLECT_FL_INCREMENT ∧ ¬ incremental 0 ∧ ¬ clearing 0 := by decide

/-! ## More fuel -/

/-- INTERNAL: the cells on the gray stack. -/
theorem markStack_approx (D : GCConfig) (refs : Addr → List Addr) (n : ℕ) (s : GCState) :
    Outcome.Approx (gcMarkStack D refs n s) (gcMarkStack D refs (n + 1) s) := by
  induction n generalizing s with
  | zero => exact Outcome.Approx.outOfFuel _
  | succ n ih =>
    rw [gcMarkStack, gcMarkStack]
    cases s.grayStack with
    | nil => exact Outcome.Approx.refl _
    | cons ptr rest =>
      exact (Outcome.Approx.refl _).bind fun _ => (Outcome.Approx.refl _).bind fun s => ih s

/-- INTERNAL: a call of `gc_mark_objs`. -/
theorem markObjs_approx (D : GCConfig) (refs : Addr → List Addr) (n : ℕ) (s : GCState) :
    Outcome.Approx (gcMarkObjs D refs n s) (gcMarkObjs D refs (n + 1) s) := by
  have hgray : ∀ s, Outcome.Approx (gcMarkGray D refs n s) (gcMarkGray D refs (n + 1) s) := by
    intro s
    refine (Outcome.Approx.refl _).ite ?_
    exact (markStack_approx D refs n s).bind fun s => Outcome.Approx.refl _
  refine Outcome.Approx.ite ?_ (hgray s)
  exact (Outcome.Approx.refl _).ite ((Outcome.Approx.refl _).bind hgray)

/-- INTERNAL: the mark loop. -/
theorem markPhase_approx (D : GCConfig) (refs : Addr → List Addr) (flags : BitVec 32) (n : ℕ)
    (s : GCState) :
    Outcome.Approx (gcMarkPhase D refs flags n s) (gcMarkPhase D refs flags (n + 1) s) := by
  induction n generalizing s with
  | zero => exact Outcome.Approx.outOfFuel _
  | succ n ih =>
    rw [gcMarkPhase, gcMarkPhase]
    refine (markObjs_approx D refs n s).bind fun r => ?_
    exact (Outcome.Approx.refl _).ite ((Outcome.Approx.refl _).ite (ih _))

/-- INTERNAL: a call of `gc_do_collect`. -/
theorem collect_approx (D : GCConfig) (refs : Addr → List Addr) (flags : BitVec 32) (n : ℕ)
    (s : GCState) :
    Outcome.Approx (gcDoCollect D refs n flags s) (gcDoCollect D refs (n + 1) flags s) := by
  have hmarkObj : ∀ s, Outcome.Approx (gcCollectMarkObj D refs n flags s)
      (gcCollectMarkObj D refs (n + 1) flags s) := by
    intro s
    refine (Outcome.Approx.refl _).ite ?_
    exact (markPhase_approx D refs flags n s).bind fun r => Outcome.Approx.refl _
  have hmarkRoot : ∀ s, Outcome.Approx (gcCollectMarkRoot D refs n flags s)
      (gcCollectMarkRoot D refs (n + 1) flags s) := by
    intro s
    refine Outcome.Approx.ite (hmarkObj _) ((Outcome.Approx.refl _).bind fun s => ?_)
    exact (Outcome.Approx.refl _).ite (hmarkObj _)
  rw [gcDoCollect, gcDoCollect]
  cases s.status with
  | idle => exact hmarkRoot _
  | markRoot => exact hmarkRoot _
  | markObj => exact hmarkObj _
  | sweep => exact Outcome.Approx.refl _
  | compact => exact Outcome.Approx.refl _

/-- INTERNAL: several calls of `gc_do_collect`, with more fuel for each of them. -/
theorem increments_approx_fuel (D : GCConfig) (refs : Addr → List Addr) (n k : ℕ) (s : GCState) :
    Outcome.Approx (gcCollectIncrements D refs n k s)
      (gcCollectIncrements D refs (n + 1) k s) := by
  induction k generalizing s with
  | zero => exact Outcome.Approx.refl _
  | succ k ih =>
    rw [gcCollectIncrements, gcCollectIncrements]
    refine (collect_approx D refs _ n s).bind fun r => ?_
    exact (Outcome.Approx.refl _).ite (ih _)

/-- INTERNAL: more calls of `gc_do_collect`. -/
theorem increments_approx (D : GCConfig) (refs : Addr → List Addr) (n k : ℕ) (s : GCState) :
    Outcome.Approx (gcCollectIncrements D refs n k s)
      (gcCollectIncrements D refs n (k + 1) s) := by
  induction k generalizing s with
  | zero => exact Outcome.Approx.outOfFuel _
  | succ k ih =>
    rw [gcCollectIncrements, gcCollectIncrements]
    exact (Outcome.Approx.refl _).bind fun r => (Outcome.Approx.refl _).ite (ih _)

/-- INTERNAL: the state in which the calls end does not depend on the fuel. -/
theorem increments_unique {k' : ℕ} {s₁ s₂ : GCState}
    (h₁ : gcCollectIncrements D refs n k s = .ok s₁)
    (h₂ : gcCollectIncrements D refs n' k' s = .ok s₂) : s₁ = s₂ := by
  have hlift : ∀ {n k : ℕ} {s' : GCState} (N K : ℕ), n ≤ N → k ≤ K →
      gcCollectIncrements D refs n k s = .ok s' → gcCollectIncrements D refs N K s = .ok s' := by
    intro n k s' N K hn hk h
    have hcalls := (Outcome.Approx.of_succ (fun k => increments_approx D refs n k s) hk).eq_ok h
    exact (Outcome.Approx.of_succ (fun n => increments_approx_fuel D refs n K s) hn).eq_ok hcalls
  have e₁ := hlift (max n n') (max k k') (le_max_left _ _) (le_max_left _ _) h₁
  have e₂ := hlift (max n n') (max k k') (le_max_right _ _) (le_max_right _ _) h₂
  exact Except.ok.inj (e₁.symm.trans e₂)

/-! ## The phases -/

/-- INTERNAL: a first increment and the others. -/
theorem increments_succ (h : gcDoCollect D refs n M_GC_COLLECT_FL_INCREMENT s = .ok (false, s₁))
    (hk : gcCollectIncrements D refs n k s₁ = .ok s') :
    gcCollectIncrements D refs n (k + 1) s = .ok s' := by
  rw [gcCollectIncrements, h]
  exact hk

/-- INTERNAL: from the sweep on.
SOURCE: m_gc_obj.c:512-521 -/
theorem increments_sweep (hst : s.status = .sweep) (e : gcCollectSweep D 0 s = .ok (b, s')) :
    s'.status = .idle ∧ ∃ k, gcCollectIncrements D refs n k s = .ok s' := by
  rw [gcCollectSweep, Outcome.bind_eq_ok] at e
  obtain ⟨s₁, hsweep, e⟩ := e
  rw [if_neg incremental_flag.2.2.1] at e
  obtain ⟨-, rfl⟩ := Prod.mk.inj (Except.ok.inj e)
  have hfirst : gcDoCollect D refs n M_GC_COLLECT_FL_INCREMENT s =
      .ok (false, { s₁ with status := .compact }) := by
    rw [gcDoCollect, hst]
    simp only [gcCollectSweep, hsweep, Outcome.ok_bind, if_pos incremental_flag.1]
    rfl
  exact ⟨rfl, 2, increments_succ hfirst rfl⟩

/-- INTERNAL: the mark loop. The induction is on the fuel of the call without the flag, whose
rounds are the calls with it. -/
theorem increments_markPhase (s' : GCState) (hst : s.status = .markObj) (hn : n ≤ n')
    (e : gcMarkPhase D refs 0 n s = .ok (b, s₁)) : b = true ∧ s₁.status = .sweep ∧
      ((∃ k, gcCollectIncrements D refs n' k s₁ = .ok s') →
        ∃ k, gcCollectIncrements D refs n' k s = .ok s') := by
  induction n generalizing s with
  | zero => cases e
  | succ n ih =>
    obtain ⟨m, rfl⟩ := Nat.exists_eq_add_of_le hn
    rw [gcMarkPhase, Outcome.bind_eq_ok] at e
    obtain ⟨⟨done, s₂⟩, hobjs, e⟩ := e
    -- the same call of `gc_mark_objs`, with the fuel of an increment
    have hobjs' := (Outcome.Approx.of_succ (fun n => markObjs_approx D refs n s)
      (Nat.le_add_right n m)).eq_ok hobjs
    have hcall : gcDoCollect D refs (n + 1 + m) M_GC_COLLECT_FL_INCREMENT s =
        .ok (false, if done then { s₂ with status := .sweep } else s₂) := by
      rw [gcDoCollect, hst, Nat.add_right_comm]
      simp only [gcCollectMarkObj, if_neg incremental_flag.2.1, gcMarkPhase, hobjs',
        Outcome.ok_bind, if_pos incremental_flag.1]
      rfl
    simp only [if_neg incremental_flag.2.2.1] at e
    cases done with
    | true =>
      obtain ⟨rfl, rfl⟩ := Prod.mk.inj (Except.ok.inj e)
      refine ⟨rfl, rfl, fun hk => ?_⟩
      obtain ⟨k, hk⟩ := hk
      exact ⟨k + 1, increments_succ hcall hk⟩
    | false =>
      have hst₂ : s₂.status = .markObj := (markObjs_frame hobjs).status.trans hst
      obtain ⟨hb, hsweep, hrest⟩ := ih hst₂ (by omega) e
      refine ⟨hb, hsweep, fun hk => ?_⟩
      obtain ⟨k, hk⟩ := hrest hk
      exact ⟨k + 1, increments_succ hcall hk⟩

/-- INTERNAL: from the mark loop on.
SOURCE: m_gc_obj.c:500-521 -/
theorem increments_markObj (hst : s.status = .markObj)
    (e : gcCollectMarkObj D refs n 0 s = .ok (b, s')) :
    s'.status = .idle ∧ ∃ k, gcCollectIncrements D refs n k s = .ok s' := by
  rw [gcCollectMarkObj, if_neg incremental_flag.2.2.2, Outcome.bind_eq_ok] at e
  obtain ⟨⟨through, s₁⟩, hphase, e⟩ := e
  obtain ⟨rfl, hsweep, hrest⟩ := increments_markPhase s' hst le_rfl hphase
  obtain ⟨hidle, hk⟩ := increments_sweep hsweep e
  exact ⟨hidle, hrest hk⟩

/-- INTERNAL: from the marking of the roots on.
SOURCE: m_gc_obj.c:491-521 -/
theorem increments_markRoot {s₀ : GCState}
    (hcall : gcDoCollect D refs n M_GC_COLLECT_FL_INCREMENT s =
      gcCollectMarkRoot D refs n M_GC_COLLECT_FL_INCREMENT s₀)
    (e : gcCollectMarkRoot D refs n 0 s₀ = .ok (b, s')) :
    s'.status = .idle ∧ ∃ k, gcCollectIncrements D refs n k s = .ok s' := by
  rw [gcCollectMarkRoot, if_neg incremental_flag.2.2.2, Outcome.bind_eq_ok] at e
  obtain ⟨s₁, hroot, e⟩ := e
  simp only [if_neg incremental_flag.2.2.1] at e
  obtain ⟨hidle, k, hk⟩ := increments_markObj rfl e
  have hfirst : gcDoCollect D refs n M_GC_COLLECT_FL_INCREMENT s =
      .ok (false, { s₁ with status := .markObj }) := by
    rw [hcall, gcCollectMarkRoot, if_neg incremental_flag.2.1, hroot, Outcome.ok_bind]
    simp only [if_pos incremental_flag.1]
    rfl
  exact ⟨hidle, k + 1, increments_succ hfirst hk⟩

/-- **Increments and one call end in the same state.** From every state in which a call of
`gc_do_collect` without the flag returns, the calls with `M_GC_COLLECT_FL_INCREMENT` end too,
in the state of that call, whose status is idle, and in no other.
SOURCE: m_gc_obj.c:482-522 -/
theorem increments_agree (e : gcDoCollect D refs n 0 s = .ok (b, s')) :
    s'.status = .idle ∧ (∃ k, gcCollectIncrements D refs n k s = .ok s') ∧
      ∀ fuel k s'', gcCollectIncrements D refs fuel k s = .ok s'' → s'' = s' := by
  have hend : s'.status = .idle ∧ ∃ k, gcCollectIncrements D refs n k s = .ok s' := by
    rw [gcDoCollect] at e
    cases hst : s.status with
    | idle =>
      rw [hst] at e
      exact increments_markRoot (by rw [gcDoCollect, hst]) e
    | markRoot =>
      rw [hst] at e
      exact increments_markRoot (by rw [gcDoCollect, hst]) e
    | markObj =>
      rw [hst] at e
      exact increments_markObj hst e
    | sweep =>
      rw [hst] at e
      exact increments_sweep hst e
    | compact =>
      rw [hst] at e
      obtain ⟨-, rfl⟩ := Prod.mk.inj (Except.ok.inj e)
      refine ⟨rfl, 1, ?_⟩
      rw [gcCollectIncrements, gcDoCollect, hst]
      rfl
  obtain ⟨hidle, k, hk⟩ := hend
  exact ⟨hidle, ⟨k, hk⟩, fun fuel k' s'' h => increments_unique h hk⟩

/-- What a collection makes of three cells in use: it keeps one of a pool and frees the other, and
unmaps the pool of the third. -/
def collectedParts (s s' : GCState) : Bool :=
  hasMark s 4096 0 GC_MARK_WHITE && hasMark s 4096 1 GC_MARK_WHITE &&
    hasMark s 8192 0 GC_MARK_WHITE && hasMark s' 4096 0 GC_MARK_WHITE &&
    hasMark s' 4096 1 GC_MARK_UNUSED && (s'.pools 8192).isNone

/-- The increments of a collection that keeps a cell and frees two of other types. -/
theorem increments_agree_dropped : ∃ σ s', GCRun defaultConfig markedOps.dropLast σ ∧
    collectedParts (σ 4) s' = true ∧ s'.status = .idle ∧
    ∃ k, gcCollectIncrements defaultConfig (fun _ => []) 1 k (σ 4) = .ok s' := by
  have hc : runChecked defaultConfig (fun _ => []) (fun _ _ => true) (fun s =>
      (gcDoCollect defaultConfig (fun _ => []) 1 0 s).check fun r => collectedParts s r.2)
      markedOps.dropLast gcObjStartup = true := by
    decide +kernel
  obtain ⟨σ, hrun, -, -, hP⟩ := run_of_checked (startup_inv defaultConfig) hc
  obtain ⟨⟨b, s'⟩, e, hparts⟩ := Outcome.exists_of_check hP
  obtain ⟨hidle, hend, -⟩ := increments_agree e
  exact ⟨σ, s', hrun, hparts, hidle, hend⟩

end Ming.Analysis
