import Ming.Analysis.ThreadExclusion

/-!
# The wake-up of the collector

A collector sleeps in `m_thread_pause_all` until the two counters are equal. `m_thread_leave`
and `m_thread_check_nl` signal after they have raised the second counter;
`thread_key_destructor` lowers the first one and does not signal. The wake-up is lost when the
last thread that is not paused exits instead of leaving.
-/

set_option autoImplicit false

namespace Ming.Analysis

open Ming.Foundation Ming.Model Ming.Interface

variable {limit : ℕ} {s s' : ThreadState} {op : ThreadOp} {t c : Tid}

/-- A collector that is blocked, with no signal delivered or outstanding, waits for something:
the counters differ. -/
def NoLostWakeup (s : ThreadState) : Prop :=
  ∀ c, s.place c = .pauseWait false → (∀ u, s.place u ≠ .leaveSignal) →
    s.threadNum ≠ s.pausedThreadNum

/-- The step is the exit of the last thread that is not paused, while the collector is blocked
and no signal is outstanding. -/
def LastExit (s : ThreadState) (op : ThreadOp) : Prop :=
  ∃ t c, op = .exit t ∧ pausedFlag s t = some false ∧ s.place c = .pauseWait false ∧
    (∀ u, s.place u ≠ .leaveSignal) ∧ ∀ u ∈ s.threadList, u ≠ t → flagged s u = true

/-- INTERNAL: the threads other than the one that takes the step were blocked and about to
signal before as they are after it. -/
theorem quiet_before (h : Section limit s op s') (hc : s'.place c = .pauseWait false)
    (hne : c ≠ op.thread) (hq : ∀ u, s'.place u ≠ .leaveSignal)
    (ht : s.place op.thread ≠ .leaveSignal) :
    s.place c = .pauseWait false ∧ ∀ u, s.place u ≠ .leaveSignal := by
  refine ⟨(others_of_section h).blocked c hne hc, fun u hu => ?_⟩
  rcases eq_or_ne u op.thread with rfl | hut
  · exact ht hu
  · have hpl := (others_of_section h).place u hut
    rw [hu] at hpl
    apply hq u
    cases hp : s'.place u <;> rw [hp] at hpl <;> first | rfl | exact nomatch hpl

/-- INTERNAL: after a signal no collector is blocked. -/
theorem not_blocked_signal (hI : PauseInv s) {w : Option Tid} {p : ThreadPlace}
    (hw : s.PauseSignal w) (hp : p ≠ .pauseWait false) :
    ((s.signalPause w).goto t p).place c ≠ .pauseWait false := by
  intro hc
  rcases eq_or_ne c t with rfl | hne
  · exact hp (goto_place_self.symm.trans hc)
  replace hc := (goto_place_ne hne).symm.trans hc
  cases w with
  | none => exact hw c hc
  | some d =>
    rcases eq_or_ne c d with rfl | hcd
    · exact nomatch goto_place_self.symm.trans hc
    · replace hc := (goto_place_ne hcd).symm.trans hc
      exact hcd (inBranch_unique hI (by rw [hc]; rfl) (by rw [show s.place d = _ from hw]; rfl))

/-- INTERNAL: a blocked collector excludes the end of a collection and a clear pause flag. -/
theorem pauseFlag_of_blocked (hI : PauseInv s) (hc : s.place c = .pauseWait false) :
    s.gcThread = some c ∧ s.threadPauseFlag = true := by
  have hgc := (hI.branch c).mpr (by rw [hc]; rfl)
  refine ⟨hgc, ?_⟩
  rw [hI.pauseFlag, hgc]
  rfl

/-- INTERNAL: while some listed thread is not paused the counters differ. -/
theorem counters_ne (hI : PauseInv s) (hF : FewThreads s) (hm : t ∈ s.threadList)
    (hf : flagged s t = false) : s.threadNum ≠ s.pausedThreadNum := by
  intro heq
  have h := (counters_eq_iff hI hF).mp heq t hm
  rw [hf] at h
  exact nomatch h

/-- INTERNAL: a collector that blocks itself has found the counters different. -/
theorem counters_ne_of_blocking (hN : NoLostWakeup s) (h : Section limit s op s')
    (hc : s'.place op.thread = .pauseWait false) (hq : ∀ u, s'.place u ≠ .leaveSignal) :
    s'.threadNum ≠ s'.pausedThreadNum := by
  cases h with
  | move _ hm =>
    replace hc := goto_place_self.symm.trans hc
    subst hc
    cases hm with
    | pauseWait _ hne => exact hne
  | stay _ _ => exact hN _ hc hq
  | grow _ _ _ => exact hN _ hc hq
  | pauseAll _ _ _ _ =>
    unfold ThreadState.pauseAllLoop at hc ⊢
    split
    · rename_i hne
      exact hne
    · rename_i heq
      rw [if_neg heq] at hc
      exact nomatch goto_place_self.symm.trans hc
  | exit _ hf =>
    obtain ⟨th, hr, -⟩ := record_of_pausedFlag hf
    rw [threadKeyDestructor_eq hr] at hc
    exact nomatch goto_place_self.symm.trans hc
  | leave _ _ _ | signal _ _ _ | check _ _ _ _ _ | resume _ _ _ _ _ | finish _ _ | register _
  | freeStack _ | freeRecord _ => exact nomatch goto_place_self.symm.trans hc

/-- INTERNAL: while a collector is blocked the other threads keep the counters different. -/
theorem counters_ne_of_blocked (hI : PauseInv s) (hI' : PauseInv s') (hF' : FewThreads s')
    (hN : NoLostWakeup s) (h : Section limit s op s') (hop : ¬ LastExit s op)
    (hc : s'.place c = .pauseWait false) (hne : c ≠ op.thread)
    (hq : ∀ u, s'.place u ≠ .leaveSignal) : s'.threadNum ≠ s'.pausedThreadNum := by
  have hblocked := (others_of_section h).blocked c hne hc
  obtain ⟨hgc, hflag⟩ := pauseFlag_of_blocked hI hblocked
  have hquiet := quiet_before h hc hne hq
  cases h with
  | move _ hm =>
    have ht : s.place op.thread ≠ .leaveSignal := by
      cases hm with
      | enterWait hp => rcases hp with hp | hp | hp <;> simp [hp]
      | register hp _ _ => rcases hp with hp | hp <;> simp [hp]
      | create hp _ | enterWoken hp | checkWait hp | checkWoken hp | pauseWait hp _
      | pauseWoken hp | collect hp _ | exit hp => simp [hp]
    exact hN c hblocked (hquiet ht).2
  | stay _ _ => exact hN c hc hq
  | grow _ hp _ => exact hN c hc hq
  | leave _ _ _ => exact absurd goto_place_self (hq op.thread)
  | signal _ _ hw => exact absurd hc (not_blocked_signal hI hw nofun)
  | @check _ _ w _ _ _ hw =>
    have hno := not_blocked_signal (t := op.thread) (c := c) hI hw
      (p := .checkWait false) nofun
    cases w <;> exact absurd hc hno
  | pauseAll _ _ _ hnone =>
    rw [hgc] at hnone
    exact nomatch hnone
  | resume _ _ _ _ hfree =>
    rw [hflag] at hfree
    exact nomatch hfree
  | @finish t _ hp _ =>
    have ht := inBranch_unique hI (c := c) (d := t) (by rw [hblocked]; rfl) (by rw [hp]; rfl)
    exact absurd ht hne
  | @register t _ =>
    obtain ⟨hm, hf⟩ := entered_unflagged (t := t) hI' goto_place_self
    exact counters_ne hI' hF' hm hf
  | @exit t b hp hf =>
    have hq' := (hquiet (by rcases hp with hp | hp <;> simp [ThreadOp.thread, hp])).2
    obtain ⟨th, hr, hb⟩ := record_of_pausedFlag hf
    cases b with
    | true =>
      have hnum := hN c hblocked hq'
      rw [threadKeyDestructor_eq hr, if_pos hb]
      intro heq
      replace heq : s.threadNum - 1 = s.pausedThreadNum - 1 := heq
      exact hnum (by bv_omega)
    | false =>
      obtain ⟨u, hu, hut, huf⟩ : ∃ u ∈ s.threadList, u ≠ t ∧ flagged s u = false := by
        by_contra hno
        refine hop ⟨t, c, rfl, hf, hblocked, hq', fun u hu hut => ?_⟩
        by_contra huf
        exact hno ⟨u, hu, hut, Bool.eq_false_of_not_eq_true huf⟩
      have hsec : Section limit s (.exit t) _ := .exit hp hf
      have hoth := others_of_section hsec
      refine counters_ne hI' hF' ((hoth.listed u hut).mpr hu) ?_
      rw [flagged_congr (hoth.record u hut), huf]
  | freeStack hp | freeRecord hp =>
    exact hN c hblocked (hquiet fun h => nomatch hp.symm.trans h).2

/-- INTERNAL: **a step that is not such an exit loses no wake-up.** -/
theorem noLostWakeup_of_section (hI : PauseInv s) (hI' : PauseInv s') (hF' : FewThreads s')
    (hN : NoLostWakeup s) (h : Section limit s op s') (hop : ¬ LastExit s op) :
    NoLostWakeup s' := by
  intro c hc hq
  by_cases hne : c = op.thread
  · subst hne
    exact counters_ne_of_blocking hN h hc hq
  · exact counters_ne_of_blocked hI hI' hF' hN h hop hc hne hq

/-- INTERNAL: after such an exit the collector sleeps although the counters are equal. -/
theorem not_noLostWakeup (hI' : PauseInv s') (hF' : FewThreads s')
    (hs : ThreadStep limit s op s') (hop : LastExit s op) : ¬ NoLostWakeup s' := by
  obtain ⟨t, c, rfl, hf, hc, hq, hall⟩ := hop
  cases hs with
  | exit hp =>
    intro hN
    obtain ⟨th, hr, -⟩ := record_of_pausedFlag hf
    rw [threadKeyDestructor_eq hr] at hI' hF' hN
    have hct : c ≠ t := by
      rintro rfl
      rcases hp with hp | hp | hp <;> exact nomatch hc.symm.trans hp
    refine hN c ((goto_place_ne hct).trans hc) (fun u hu => ?_)
      ((counters_eq_iff hI' hF').mpr fun u hu => ?_)
    · rcases eq_or_ne u t with rfl | hut
      · exact nomatch goto_place_self.symm.trans hu
      · exact hq u ((goto_place_ne hut).symm.trans hu)
    · have hut : u ≠ t := by
        rintro rfl
        have hok := hI'.place u
        rw [goto_place_self] at hok
        exact hok.1 hu
      exact hall u ((List.mem_erase_of_ne hut).mp hu) hut

/-- **No wake-up is lost exactly when the last running thread does not exit.** In every state of
a run in which the collector is blocked on `thread_pause_cond` and no signal is delivered or
outstanding the counters differ, if and only if no thread exits unpaused as the last one of the
list that is not paused, in such a state.
SOURCE: m_thread.c:50-77, 184-202, 219-234, 265-285 -/
theorem no_lost_wakeup_iff (hlimit : limit < 2 ^ 32) {ops : List ThreadOp} {s : ℕ → ThreadState}
    (h : ThreadRun limit ops s) :
    (∀ n, n ≤ ops.length → NoLostWakeup (s n)) ↔
      ∀ (i : ℕ) (hi : i < ops.length), ¬ LastExit (s i) ops[i] := by
  apply Run.forall_iff (fun _ s => (PauseInv s ∧ FewThreads s) ∧ NoLostWakeup s)
    (P := fun _ s => NoLostWakeup s) (C := fun _ s op => ¬ LastExit s op) _ _ _ _ h
  · rintro _ ⟨t, rfl⟩
    refine ⟨⟨pauseInv_startup t, few_startup t⟩, fun c hc => ?_⟩
    rcases eq_or_ne c t with rfl | hne
    · exact nomatch goto_place_self.symm.trans hc
    · exact nomatch (goto_place_ne hne).symm.trans hc
  · rintro _ s ⟨-, hN⟩
    exact hN
  · rintro _ s op s' ⟨⟨hI, hF⟩, hN⟩ hs hop
    have hsec := section_of_step hI hs
    have hI' := pauseInv_section hI hsec
    have hF' := few_of_section hlimit hF hsec
    exact ⟨⟨hI', hF'⟩, noLostWakeup_of_section hI hI' hF' hN hsec hop⟩
  · rintro _ s op s' ⟨⟨hI, hF⟩, -⟩ hs hop
    have hsec := section_of_step hI hs
    exact not_noLostWakeup (pauseInv_section hI hsec) (few_of_section hlimit hF hsec) hs
      (not_not.mp hop)

/-- INTERNAL: thread 0 waits for thread 1. -/
theorem run_blocked : ∃ s, ThreadRun 2 [.create 1, .enter 1, .register 1, .run 0 none] s ∧
    (s 4).place 0 = .pauseWait false ∧ (∀ u, (s 4).place u ≠ .leaveSignal) ∧
    (s 4).place 1 = .entered ∧ (s 4).threadList = [0, 1] ∧
    flagged (s 4) 0 = true ∧ pausedFlag (s 4) 1 = some false := by
  have hw := pauseSignal_none (pauseInv_run run_joining 3 le_rfl) rfl
  refine ⟨_, run_joining.snoc (.run (t := 0) (.inl rfl) hw rfl), rfl, fun u => ?_, rfl, rfl, rfl,
    rfl⟩
  match u with
  | 0 | 1 | _ + 2 => exact nofun

/-- A blocked collector waits for a thread that is not paused. -/
theorem no_lost_wakeup_blocked :
    ∃ s, ThreadRun 2 [.create 1, .enter 1, .register 1, .run 0 none] s ∧
    (s 4).place 0 = .pauseWait false ∧ (s 4).threadNum ≠ (s 4).pausedThreadNum := by
  obtain ⟨s, hr, hp, hq, -⟩ := run_blocked
  refine ⟨s, hr, hp, (no_lost_wakeup_iff (by decide) hr).mpr (fun i hi hop => ?_) 4 le_rfl 0 hp hq⟩
  obtain ⟨t, c, hop, -⟩ := hop
  match i, hi with
  | 0, _ | 1, _ | 2, _ | 3, _ => exact nomatch hop

/-- The thread that the collector waits for exits without leaving. -/
theorem no_lost_wakeup_counterexample :
    ¬ ∀ (limit : ℕ) (ops : List ThreadOp) (s : ℕ → ThreadState), limit < 2 ^ 32 →
      ThreadRun limit ops s → ∀ n, n ≤ ops.length → NoLostWakeup (s n) := by
  intro hall
  obtain ⟨s, hr, hp, hq, h1, hl, h0, hf⟩ := run_blocked
  have hs : ThreadStep 2 (s 4) (.exit 1) ((s 4).threadKeyDestructor 1) := .exit (.inr (.inl h1))
  obtain ⟨hI', hF'⟩ := few_run (by decide) (hr.snoc hs) 5 le_rfl
  refine not_noLostWakeup hI' hF' hs ⟨1, 0, rfl, hf, hp, hq, fun u hu hu1 => ?_⟩
    (hall 2 _ _ (by decide) (hr.snoc hs) 5 le_rfl)
  rw [hl] at hu
  obtain rfl : u = 0 := by simpa [hu1] using hu
  exact h0

end Ming.Analysis
