import Ming.Analysis.ThreadRuns

/-!
# One collector at a time

The lock is free while a thread collects, so the exclusion rests on `gc_thread` and the pause
flag. A caller of `gc_collect_objs` that finds another thread collecting sleeps until the flag
is clear, and only the end of that collection clears it.
-/

set_option autoImplicit false

namespace Ming.Analysis

open Ming.Foundation Ming.Model Ming.Interface

variable {limit : ℕ} {s s' : ThreadState} {op : ThreadOp} {t c : Tid}

/-- The step calls `gc_collect_objs`. -/
def CallsCollect : ThreadOp → Prop
  | .run _ _ => True
  | .alloc _ _ pool _ need => pool = true ∧ need = true
  | _ => False

/-- INTERNAL: one thread is in the branch of the collector. -/
theorem inBranch_unique (hI : PauseInv s) {d : Tid} (hc : inBranch (s.place c) = true)
    (hd : inBranch (s.place d) = true) : c = d := by
  have h := (hI.branch c).mpr hc
  rw [(hI.branch d).mpr hd] at h
  exact (Option.some.inj h).symm

/-- INTERNAL: a caller that finds another thread collecting falls asleep. -/
theorem collects_waits (hI : PauseInv s) (h : ThreadStep limit s op s') (hop : CallsCollect op)
    (hc : s.gcThread = some c) (hne : op.thread ≠ c) :
    s'.gcThread = some c ∧ s'.place op.thread = .checkWait false := by
  have key : ∀ {s₁ : ThreadState} {th : ThreadRecord} {w : Option Tid},
      s₁.record op.thread = some th → s₁.threadPauseFlag = s₁.gcThread.isSome →
      s₁.gcThread = some c → s₁.gcCollectObjs op.thread w = .ok s' →
      s'.gcThread = some c ∧ s'.place op.thread = .checkWait false := by
    intro s₁ th w hr hflag hgc hcall
    rcases gcCollectObjs_cases hr hflag hcall with ⟨hnone, -⟩ | ⟨-, -, th', -, rfl⟩ | ⟨hself, -⟩
    · rw [hgc] at hnone
      exact nomatch hnone
    · refine ⟨?_, goto_place_self⟩
      cases w <;> exact hgc
    · rw [hgc] at hself
      exact absurd (Option.some.inj hself).symm hne
  cases h with
  | @run _ t w hp _ hcall =>
    obtain ⟨th, hr, -⟩ := record_of_inside hI hp
    exact key hr hI.pauseFlag hc hcall
  | @alloc _ t w pool need grow hp _ hcall =>
    obtain ⟨rfl, rfl⟩ := hop
    obtain ⟨th, hr, hcall⟩ := Outcome.bind_eq_ok.mp hcall
    have hr : (s.setRecord t (some { th with nbStack := grow.or th.nbStack })).record t =
      some { th with nbStack := grow.or th.nbStack } := Function.update_self ..
    exact key hr hI.pauseFlag hc hcall
  | _ => exact hop.elim

/-- INTERNAL: only the end of the collection gives up `gc_thread`. -/
theorem gcThread_of_section (hI : PauseInv s) (h : Section limit s op s')
    (hc : s.gcThread = some c) (hop : op ≠ .finish c) : s'.gcThread = some c := by
  cases h with
  | move _ _ | stay _ _ | grow _ _ _ | leave _ _ _ | resume _ _ _ _ _ | register _
  | freeStack _ | freeRecord _ => exact hc
  | @signal _ w _ _ => cases w <;> exact hc
  | @check _ _ w _ _ _ _ => cases w <;> exact hc
  | pauseAll _ _ _ hnone =>
    rw [hnone] at hc
    exact nomatch hc
  | @finish t _ hp _ =>
    have hbr := (hI.branch t).mpr (by rw [hp]; rfl)
    rw [hc] at hbr
    exact absurd (congrArg ThreadOp.finish (Option.some.inj hbr).symm) hop
  | exit _ hf =>
    obtain ⟨th, hr, -⟩ := record_of_pausedFlag hf
    rw [threadKeyDestructor_eq hr]
    exact hc

/-- INTERNAL: while the flag is set, a thread in the wait of `m_thread_check_nl` stays there. -/
theorem checkWait_of_section (h : Section limit s op s') (hflag : s.threadPauseFlag = true)
    {b : Bool} (ht : s.place t = .checkWait b) : ∃ b', s'.place t = .checkWait b' := by
  by_cases hop : t = op.thread
  · subst hop
    cases h with
    | move _ hm =>
      cases hm with
      | checkWait _ => exact ⟨false, goto_place_self⟩
      | checkWoken _ => exact ⟨true, goto_place_self⟩
      | enterWait hp => rcases hp with hp | hp | hp <;> exact nomatch ht.symm.trans hp
      | register hp _ _ => rcases hp with hp | hp <;> exact nomatch ht.symm.trans hp
      | create hp _ | enterWoken hp | pauseWait hp _ | pauseWoken hp | collect hp _ | exit hp =>
        exact nomatch ht.symm.trans hp
    | stay _ hp | grow _ hp _ | exit hp _ =>
      rcases hp with hp | hp <;> exact nomatch ht.symm.trans hp
    | resume _ _ _ _ hfree =>
      rw [hflag] at hfree
      exact nomatch hfree
    | leave _ hp _ | signal _ hp _ | check _ hp _ _ _ | pauseAll _ hp _ _ | finish hp _
    | register hp | freeStack hp | freeRecord hp => exact nomatch ht.symm.trans hp
  · have hpl := (others_of_section h).place t hop
    rw [ht] at hpl
    cases hq : s'.place t
    all_goals rw [hq] at hpl
    case checkWait b' => exact ⟨b', rfl⟩
    all_goals exact nomatch hpl

/-- INTERNAL: **a waiter outlasts the collection**, along a run. -/
theorem waits_until_finish {ops : List ThreadOp} {s : ℕ → ThreadState}
    (h : ThreadRun limit ops s) {i : ℕ} (hi : i < ops.length) (hcall : CallsCollect ops[i])
    (hc : (s i).gcThread = some c) (hne : ops[i].thread ≠ c) (j : ℕ) (hij : i + 1 ≤ j)
    (hj : j ≤ ops.length) :
    (∃ k, i < k ∧ k < j ∧ ops[k]? = some (.finish c)) ∨
      ((s j).gcThread = some c ∧ ∃ b, (s j).place ops[i].thread = .checkWait b) := by
  induction j, hij using Nat.le_induction with
  | base =>
    have hI := pauseInv_run h i (Nat.le_of_lt hi)
    obtain ⟨hgc, hpl⟩ := collects_waits hI (h.step i hi) hcall hc hne
    exact .inr ⟨hgc, false, hpl⟩
  | succ j hij ih =>
    rcases ih (Nat.le_of_succ_le hj) with ⟨k, hik, hkj, hk⟩ | ⟨hgc, b, hpl⟩
    · exact .inl ⟨k, hik, Nat.lt_succ_of_lt hkj, hk⟩
    have hI := pauseInv_run h j (Nat.le_of_succ_le hj)
    have hsec := section_of_step hI (h.step j hj)
    by_cases hop : ops[j] = .finish c
    · exact .inl ⟨j, hij, Nat.lt_succ_self j, by rw [List.getElem?_eq_getElem hj, hop]⟩
    · have hflag : (s j).threadPauseFlag = true := by
        rw [hI.pauseFlag, hgc]
        rfl
      exact .inr ⟨gcThread_of_section hI hsec hgc hop, checkWait_of_section hsec hflag hpl⟩

/-- **One thread collects at a time.** In every state of a run at most one thread is in the
branch of `gc_collect_objs` that pauses, collects and resumes, and `gc_thread` is set exactly
when the pause flag is. A thread that calls `gc_collect_objs` while another one collects has
returned only after that one has resumed all threads.
SOURCE: m_gc_obj.c:524-568, 756-780, m_thread.c:184-217, 265-295 -/
theorem one_collector {ops : List ThreadOp} {s : ℕ → ThreadState} (h : ThreadRun limit ops s) :
    (∀ n, n ≤ ops.length →
      (∀ c d, inBranch ((s n).place c) = true → inBranch ((s n).place d) = true → c = d) ∧
      ((s n).gcThread ≠ none ↔ (s n).threadPauseFlag = true)) ∧
    ∀ (i : ℕ) (hi : i < ops.length), CallsCollect ops[i] → ∀ c, (s i).gcThread = some c →
      ops[i].thread ≠ c → ∀ j, i < j → j ≤ ops.length →
      (∀ b, (s j).place ops[i].thread ≠ .checkWait b) →
      ∃ k, i < k ∧ k < j ∧ ops[k]? = some (.finish c) := by
  refine ⟨fun n hn => ?_, fun i hi hcall c hc hne j hij hj hret => ?_⟩
  · have hI := pauseInv_run h n hn
    refine ⟨fun c d => inBranch_unique hI, ?_⟩
    rw [hI.pauseFlag, Option.isSome_iff_ne_none]
  · rcases waits_until_finish h hi hcall hc hne j hij hj with hk | ⟨-, b, hb⟩
    · exact hk
    · exact absurd hb (hret b)

/-- The steps of a caller that is woken too early and sleeps again. -/
def waitOps : List ThreadOp :=
  [.create 1, .enter 1, .register 1, .run 0 none, .run 1 (some 0), .wake 1, .checkAgain 1,
    .pauseAgain 0, .finish 0, .checkAgain 1]

/-- INTERNAL: the run of that caller. -/
theorem run_waiting : ∃ s, ThreadRun 2 waitOps s ∧ (s 4).gcThread = some 0 ∧
    (s 10).place 1 = .entered := by
  have hw := pauseSignal_none (pauseInv_run run_joining 3 le_rfl) rfl
  have h₁ := run_joining.snoc (.run (t := 0) (.inl rfl) hw rfl)
  have h₂ := h₁.snoc (.run (t := 1) (w := some 0) (.inl rfl) rfl rfl)
  have h₃ := h₂.snoc (.wakeCheck (t := 1) rfl)
  have h₄ := h₃.snoc (.checkAgain (t := 1) rfl rfl)
  have h₅ := h₄.snoc (.pauseAgain (t := 0) rfl)
  have h₆ := h₅.snoc (.finish (t := 0) rfl rfl)
  exact ⟨_, h₆.snoc (.checkAgain (t := 1) rfl rfl), rfl, rfl⟩

/-- That caller returns after the end of the collection. -/
theorem one_collector_waits : ∃ s, ThreadRun 2 waitOps s ∧ (s 10).place 1 = .entered ∧
    ∃ k, 4 < k ∧ k < 10 ∧ waitOps[k]? = some (.finish 0) := by
  obtain ⟨s, hs, hgc, hpl⟩ := run_waiting
  exact ⟨s, hs, hpl, (one_collector hs).2 4 (by decide) trivial 0 hgc (by decide) 10 (by decide)
    le_rfl fun b h => nomatch hpl.symm.trans h⟩

end Ming.Analysis
