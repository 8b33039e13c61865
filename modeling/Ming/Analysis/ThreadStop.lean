import Ming.Analysis.ThreadExclusion

/-!
# The world is stopped while a thread collects

`m_thread_enter` drops the lock between the test of the pause flag and the registration of a
new thread, and `thread_key_destructor` does not look at the flag at all. A thread that
registers during a collection runs beside it, and a thread that exits during a collection takes
its record out of the list that the collector walks. Without these steps every listed thread
stays paused and the records stay what they are.
-/

set_option autoImplicit false

namespace Ming.Analysis

open Ming.Foundation Ming.Model Ming.Interface

variable {limit : ℕ} {s s' : ThreadState} {op : ThreadOp} {t u c : Tid}

/-- While a thread collects, all other listed threads are paused and none of them runs. -/
def AllPaused (s : ThreadState) : Prop :=
  ∀ c, s.place c = .collect → ∀ t ∈ s.threadList, t ≠ c →
    flagged s t = true ∧ s.place t ≠ .entered

/-- The flags of all listed threads are set while a thread collects. -/
def Stopped (s : ThreadState) : Prop :=
  ∀ c, s.place c = .collect → ∀ t ∈ s.threadList, flagged s t = true

/-- INTERNAL: no thread has entered while the world is stopped. -/
theorem Stopped.not_entered (hS : Stopped s) (hI : PauseInv s) (hc : s.place c = .collect) :
    s.place t ≠ .entered := by
  intro hp
  obtain ⟨hm, hf⟩ := entered_unflagged hI hp
  rw [hS c hc t hm] at hf
  exact nomatch hf

/-- INTERNAL: every thread is flagged while the world is stopped. -/
theorem Stopped.allPaused (hS : Stopped s) (hI : PauseInv s) : AllPaused s :=
  fun c hc t ht _ => ⟨hS c hc t ht, hS.not_entered hI hc⟩

/-- INTERNAL: one thread collects. -/
theorem collect_unique (hI : PauseInv s) (hc : s.place c = .collect) (ht : s.place t = .collect) :
    t = c :=
  inBranch_unique hI (by rw [ht]; rfl) (by rw [hc]; rfl)

/-- INTERNAL: a collection begins when the counters are equal. -/
theorem collect_begins (h : Section limit s op s') (hc : s'.place op.thread = .collect) :
    s.place op.thread = .collect ∨ s'.threadNum = s'.pausedThreadNum := by
  cases h with
  | move _ hm =>
    replace hc := goto_place_self.symm.trans hc
    subst hc
    cases hm with
    | collect _ heq => exact .inr heq
  | stay _ _ => exact .inl hc
  | grow _ _ _ => exact .inl hc
  | pauseAll _ _ _ _ =>
    unfold ThreadState.pauseAllLoop at hc ⊢
    split at hc
    · exact nomatch goto_place_self.symm.trans hc
    · rename_i heq
      rw [if_neg heq]
      exact .inr (not_not.mp heq)
  | exit _ hf =>
    obtain ⟨th, hr, -⟩ := record_of_pausedFlag hf
    rw [threadKeyDestructor_eq hr] at hc
    exact nomatch goto_place_self.symm.trans hc
  | leave _ _ _ | signal _ _ _ | check _ _ _ _ _ | resume _ _ _ _ _ | finish _ _ | register _
  | freeStack _ | freeRecord _ => exact nomatch goto_place_self.symm.trans hc

/-- INTERNAL: during a collection of another thread, a thread comes to run in the environment
by its registration only. -/
theorem entered_begins (hI : PauseInv s) (h : Section limit s op s') (hc : s.place c = .collect)
    (hne : op.thread ≠ c) (hp : s'.place op.thread = .entered) :
    s.place op.thread = .entered ∨ op = .register op.thread := by
  cases h with
  | move _ hm =>
    replace hp := goto_place_self.symm.trans hp
    subst hp
    exact nomatch hm
  | stay _ _ => exact .inl hp
  | grow _ _ _ => exact .inl hp
  | pauseAll _ _ _ _ =>
    unfold ThreadState.pauseAllLoop at hp
    split at hp <;> exact nomatch goto_place_self.symm.trans hp
  | resume _ _ _ _ hflag =>
    have hgc := (hI.branch c).mpr (by rw [hc]; rfl)
    rw [hI.pauseFlag, hgc] at hflag
    exact nomatch hflag
  | finish ht _ => exact absurd (collect_unique hI hc ht) hne
  | register _ => exact .inr rfl
  | exit _ hf =>
    obtain ⟨th, hr, -⟩ := record_of_pausedFlag hf
    rw [threadKeyDestructor_eq hr] at hp
    exact nomatch goto_place_self.symm.trans hp
  | leave _ _ _ | signal _ _ _ | check _ _ _ _ _ | freeStack _ | freeRecord _ =>
    exact nomatch goto_place_self.symm.trans hp

/-- INTERNAL: another thread's step leaves the collector where it is. -/
theorem collect_of_others (h : Section limit s op s') (hne : c ≠ op.thread) :
    s'.place c = .collect ↔ s.place c = .collect := by
  have hpl := (others_of_section h).place c hne
  constructor
  · intro hc
    rw [hc] at hpl
    cases hq : s.place c <;> rw [hq] at hpl <;> first | rfl | exact nomatch hpl
  · intro hc
    rw [hc] at hpl
    cases hq : s'.place c <;> rw [hq] at hpl <;> first | rfl | exact nomatch hpl

/-- INTERNAL: **a step that is not a registration during a collection keeps the world
stopped.** -/
theorem stopped_of_section (hI : PauseInv s) (hI' : PauseInv s') (hF' : FewThreads s')
    (hS : Stopped s) (h : Section limit s op s')
    (hreg : ∀ t, op = .register t → ∀ c, s.place c ≠ .collect) : Stopped s' := by
  intro c hc t ht
  have hold : s.place c = .collect ∨ s'.threadNum = s'.pausedThreadNum := by
    rcases eq_or_ne c op.thread with rfl | hne
    · exact collect_begins h hc
    · exact .inl ((collect_of_others h hne).mp hc)
  rcases hold with hcs | heq
  · apply flagged_of_listed hI' ht
    intro hp
    rcases eq_or_ne t op.thread with rfl | hne
    · rcases eq_or_ne op.thread c with rfl | hoc
      · exact nomatch hp.symm.trans hc
      · rcases entered_begins hI h hcs hoc hp with hp | hop
        · exact hS.not_entered hI hcs hp
        · exact hreg _ hop c hcs
    · have hpl := (others_of_section h).place t hne
      rw [hp] at hpl
      refine hS.not_entered hI hcs (t := t) ?_
      cases hq : s.place t <;> rw [hq] at hpl <;> first | rfl | exact nomatch hpl
  · exact (counters_eq_iff hI' hF').mp heq t ht

/-- INTERNAL: a registration during a collection lets a thread run beside it. -/
theorem not_allPaused_register (hs : ThreadStep limit s (.register t) s')
    (hc : s.place c = .collect) : ¬ AllPaused s' := by
  cases hs with
  | register hp =>
    intro hall
    have hne : c ≠ t := by
      rintro rfl
      exact nomatch hc.symm.trans hp
    have hmem : t ∈ (s.threadRegister t).threadList :=
      List.mem_append.mpr (.inr (List.mem_singleton_self t))
    exact (hall c ((goto_place_ne hne).trans hc) t hmem hne.symm).2 goto_place_self

/-- The step is not a registration during a collection. -/
def RegistersFree (s : ThreadState) (op : ThreadOp) : Prop :=
  ∀ t, op = .register t → ∀ c, s.place c ≠ .collect

/-- What holds while no thread registers during a collection. -/
structure StopInv (s : ThreadState) : Prop where
  pause : PauseInv s
  few : FewThreads s
  stopped : Stopped s

/-- INTERNAL: no one collects at the startup. -/
theorem stopInv_startup (t : Tid) : StopInv (ThreadState.mThreadStartup t) := by
  refine ⟨pauseInv_startup t, few_startup t, fun c hc => ?_⟩
  rcases eq_or_ne c t with rfl | hne
  · exact nomatch goto_place_self.symm.trans hc
  · exact nomatch (goto_place_ne hne).symm.trans hc

/-- INTERNAL: a step in which no one registers during a collection. -/
theorem StopInv.step (hlimit : limit < 2 ^ 32) (h : StopInv s) (hs : ThreadStep limit s op s')
    (hreg : RegistersFree s op) : StopInv s' := by
  have hsec := section_of_step h.pause hs
  have hI' := pauseInv_section h.pause hsec
  have hF' := few_of_section hlimit h.few hsec
  exact ⟨hI', hF', stopped_of_section h.pause hI' hF' h.stopped hsec hreg⟩

/-- INTERNAL: the invariant along a run without such registrations. -/
theorem stopInv_run (hlimit : limit < 2 ^ 32) {ops : List ThreadOp} {s : ℕ → ThreadState}
    (h : ThreadRun limit ops s)
    (hreg : ∀ (i : ℕ) (hi : i < ops.length), RegistersFree (s i) ops[i]) (n : ℕ)
    (hn : n ≤ ops.length) : StopInv (s n) := by
  refine Run.inv_of (fun _ s => StopInv s) (fun _ s op => RegistersFree s op)
    ?_ ?_ h n hn fun i hi _ => hreg i hi
  · rintro _ ⟨t, rfl⟩
    exact stopInv_startup t
  · intro _ s op s' hI hs hreg
    exact hI.step hlimit hs hreg

/-- **The world is stopped exactly when no thread registers during a collection.** In every
state of a run in which a thread is between `m_thread_pause_all` and `m_thread_resume_all` all
other listed threads are paused, if and only if no `thread_register` takes the lock in such a
state.
SOURCE: m_thread.c:79-110, 184-285, m_gc_obj.c:524-568 -/
theorem world_stopped_iff (hlimit : limit < 2 ^ 32) {ops : List ThreadOp} {s : ℕ → ThreadState}
    (h : ThreadRun limit ops s) :
    (∀ n, n ≤ ops.length → AllPaused (s n)) ↔
      ∀ (i : ℕ) (hi : i < ops.length), RegistersFree (s i) ops[i] := by
  apply Run.forall_iff (fun _ s => StopInv s) (P := fun _ s => AllPaused s)
    (C := fun _ s op => RegistersFree s op) _ _ _ _ h
  · rintro _ ⟨t, rfl⟩
    exact stopInv_startup t
  · intro _ s hI
    exact hI.stopped.allPaused hI.pause
  · intro _ s op s' hI hs hreg
    exact hI.step hlimit hs hreg
  · intro _ s op s' hI hs hreg
    obtain ⟨t, rfl, c, hc⟩ : ∃ t, op = .register t ∧ ∃ c, s.place c = .collect := by
      by_contra hno
      exact hreg fun t ht c hc => hno ⟨t, ht, c, hc⟩
    exact not_allPaused_register hs hc

/-- INTERNAL: nobody collects while `gc_thread` is clear. -/
theorem not_collect (hI : PauseInv s) (hgc : s.gcThread = none) (c : Tid) :
    s.place c ≠ .collect := by
  intro hc
  have h := (hI.branch c).mpr (by rw [hc]; rfl)
  rw [hgc] at h
  exact nomatch h

/-- Thread 1 leaves, then thread 0 collects. -/
def leftOps : List ThreadOp :=
  [.create 1, .enter 1, .register 1, .leave 1, .signal 1 none, .run 0 none]

/-- INTERNAL: the run in which thread 1 has left when thread 0 collects. -/
theorem run_left : ∃ s, ThreadRun 2 leftOps s ∧ s 2 = joiningStates 2 ∧
    (s 6).place 0 = .collect ∧ (s 6).threadList = [0, 1] ∧ (s 6).place 1 = .left ∧
    ((s 6).record 1).isSome = true := by
  have h₁ := run_joining.snoc (.leave (t := 1) rfl rfl)
  have h₂ := h₁.snoc (.signal (t := 1) (w := none) rfl
    (pauseSignal_none (pauseInv_run h₁ 4 le_rfl) rfl))
  have h₃ := h₂.snoc (.run (t := 0) (w := none) (.inl rfl)
    (pauseSignal_none (pauseInv_run h₂ 5 le_rfl) rfl) rfl)
  exact ⟨_, h₃, rfl, rfl, rfl, rfl, rfl⟩

/-- A thread that has left is paused while another one collects. -/
theorem world_stopped_left : ∃ s, ThreadRun 2 leftOps s ∧ (s 6).place 0 = .collect ∧
    1 ∈ (s 6).threadList ∧ flagged (s 6) 1 = true := by
  obtain ⟨s, hr, h2, hc, hl, -⟩ := run_left
  have hmem : 1 ∈ (s 6).threadList := by simp [hl]
  refine ⟨s, hr, hc, hmem, ((world_stopped_iff (by decide) hr).mpr (fun i hi t hop => ?_) 6 le_rfl 0
    hc 1 hmem (by decide)).1⟩
  match i, hi with
  | 2, _ => exact not_collect (pauseInv_run hr 2 (by decide)) (by rw [h2]; rfl)
  | 0, _ | 1, _ | 3, _ | 4, _ | 5, _ => exact nomatch hop

/-- INTERNAL: the run in which thread 1 is about to register when thread 0 collects. -/
theorem run_racing : ∃ s, ThreadRun 2 [.create 1, .enter 1, .run 0 none] s ∧
    (s 3).place 0 = .collect ∧ (s 3).place 1 = .register := by
  have hw := pauseSignal_none (pauseInv_run run_entering 2 le_rfl) rfl
  exact ⟨_, run_entering.snoc (.run (t := 0) (.inl rfl) hw rfl), rfl, rfl⟩

/-- A thread registers while another one collects. -/
theorem world_stopped_counterexample :
    ¬ ∀ (limit : ℕ) (ops : List ThreadOp) (s : ℕ → ThreadState), limit < 2 ^ 32 →
      ThreadRun limit ops s → ∀ n, n ≤ ops.length → AllPaused (s n) := by
  intro hall
  obtain ⟨s, hr, hc, hp⟩ := run_racing
  have hs : ThreadStep 2 (s 3) (.register 1) ((s 3).threadRegister 1) := .register hp
  exact not_allPaused_register hs hc (hall 2 _ _ (by decide) (hr.snoc hs) 4 le_rfl)

/-! ## The records -/

/-- The list is unchanged, and no record and no new-born stack of another thread than `c` has
been freed. -/
structure RecordsKept (c : Tid) (s s' : ThreadState) : Prop where
  list : s'.threadList = s.threadList
  record : ∀ u, u ≠ c → ∀ th, s.record u = some th → ∃ th', s'.record u = some th' ∧
    (th.nbStack ≠ none → th'.nbStack = th.nbStack)

/-- INTERNAL: equal lists and records are kept. -/
theorem recordsKept_same (hl : s'.threadList = s.threadList) (hr : s'.record = s.record) :
    RecordsKept c s s' :=
  ⟨hl, fun _ _ th h => ⟨th, by rw [hr, h], fun _ => rfl⟩⟩

/-- INTERNAL: one step after the other. -/
theorem RecordsKept.trans {s₁ : ThreadState} (h : RecordsKept c s s₁)
    (h' : RecordsKept c s₁ s') : RecordsKept c s s' := by
  refine ⟨h'.list.trans h.list, fun u hu th hr => ?_⟩
  obtain ⟨th₁, hr₁, hb₁⟩ := h.record u hu th hr
  obtain ⟨th', hr', hb'⟩ := h'.record u hu th₁ hr₁
  refine ⟨th', hr', fun hb => ?_⟩
  rw [hb' (by rwa [hb₁ hb]), hb₁ hb]

/-- The steps that change the list or free something: a registration, the exit of a thread with
a record, and the frees at the end of `thread_key_destructor`. -/
def Disturbs (s : ThreadState) : ThreadOp → Prop
  | .register _ => True
  | .exit t => s.record t ≠ none
  | .freeStack t => ∃ th, s.record t = some th ∧ th.nbStack ≠ none
  | .freeRecord _ => True
  | _ => False

/-- INTERNAL: a step that stores to the record of its own thread only, or to none. -/
theorem recordsKept_of_local (hlist : s'.threadList = s.threadList)
    (hr : ∀ u, u ≠ t → s'.record u = s.record u)
    (ht : t ≠ c → ∀ th, s.record t = some th → ∃ th', s'.record t = some th' ∧
      (th.nbStack ≠ none → th'.nbStack = th.nbStack)) : RecordsKept c s s' := by
  refine ⟨hlist, fun u hu th h => ?_⟩
  rcases eq_or_ne u t with rfl | hne
  · exact ht hu th h
  · exact ⟨th, (hr u hne).trans h, fun _ => rfl⟩

/-- INTERNAL: **a step that does not disturb keeps the records.** -/
theorem recordsKept_of_section (hI : PauseInv s) (hS : Stopped s) (h : Section limit s op s')
    (hc : s.place c = .collect) (hc' : s'.place c = .collect) (hop : ¬ Disturbs s op) :
    RecordsKept c s s' := by
  have hgc := (hI.branch c).mpr (by rw [hc]; rfl)
  cases h with
  | move _ _ | stay _ _ => exact recordsKept_same rfl rfl
  | @signal _ w _ _ => cases w <;> exact recordsKept_same rfl rfl
  | grow _ hp _ =>
    refine recordsKept_of_local (t := op.thread) rfl (fun _ h => Function.update_of_ne h ..)
      fun hne => ?_
    rcases hp with hp | hp
    · exact absurd hp (hS.not_entered hI hc)
    · exact absurd (collect_unique hI hc hp) hne
  | leave _ hp _ | check _ hp _ _ _ | pauseAll _ hp _ _ =>
    exact absurd hp (hS.not_entered hI hc)
  | resume _ _ _ _ hflag =>
    rw [hI.pauseFlag, hgc] at hflag
    exact nomatch hflag
  | finish hp _ =>
    obtain rfl := collect_unique hI hc hp
    exact nomatch goto_place_self.symm.trans hc'
  | register _ | freeRecord _ => exact absurd trivial hop
  | @exit t _ _ hf =>
    refine absurd (fun hr => ?_) hop
    rw [pausedFlag_eq_none.mpr hr] at hf
    exact nomatch hf
  | @freeStack t _ =>
    refine recordsKept_of_local (t := t) rfl (fun _ h => Function.update_of_ne h ..)
      fun _ th hr => ⟨{ th with nbStack := none }, ?_, fun hb => ?_⟩
    · change Function.update s.record t _ t = _
      rw [Function.update_self, hr]
      rfl
    · exact absurd ⟨th, hr, hb⟩ hop

/-- INTERNAL: a disturbing step changes the list or the records. -/
theorem not_recordsKept (hI : PauseInv s) (h : ThreadStep limit s op s')
    (hc : s.place c = .collect) (hop : Disturbs s op) :
    s'.place c = .collect ∧ ¬ RecordsKept c s s' := by
  have hne : ∀ {t : Tid}, s.place t ≠ .collect → c ≠ t := by
    rintro t hp rfl
    exact hp hc
  cases h with
  | @register t hp =>
    have hct : c ≠ t := hne (by simp [hp])
    refine ⟨(goto_place_ne hct).trans hc, fun hk => ?_⟩
    have hlen := congrArg List.length (show s.threadList ++ [t] = s.threadList from hk.list)
    rw [List.length_append, List.length_singleton] at hlen
    omega
  | @exit t hp =>
    have hct : c ≠ t := hne (by rcases hp with hp | hp | hp <;> simp [hp])
    have hmem : t ∈ s.threadList := listed_of_flag hI
      (by rcases hp with hp | hp | hp <;> simp [hp])
      (by rcases hp with hp | hp | hp <;> simp [hp])
      fun hf => hop (pausedFlag_eq_none.mp hf)
    obtain ⟨th, hr⟩ := Option.ne_none_iff_exists'.mp hop
    rw [threadKeyDestructor_eq hr]
    refine ⟨(goto_place_ne hct).trans hc, fun hk => ?_⟩
    have hlen := congrArg List.length (show s.threadList.erase t = s.threadList from hk.list)
    rw [length_erase_add_one hmem] at hlen
    omega
  | @freeStack t hp =>
    have hct : c ≠ t := hne (by simp [hp])
    refine ⟨(goto_place_ne hct).trans hc, fun hk => ?_⟩
    obtain ⟨th, hr, hb⟩ := hop
    obtain ⟨th', hr', hb'⟩ := hk.record t hct.symm th hr
    have hrec : (s.freeNbStack t).record t = some { th with nbStack := none } := by
      change Function.update s.record t _ t = _
      rw [Function.update_self, hr]
      rfl
    rw [hrec] at hr'
    obtain rfl := Option.some.inj hr'
    exact hb (hb' hb).symm
  | @freeRecord t hp =>
    have hct : c ≠ t := hne (by simp [hp])
    refine ⟨(goto_place_ne hct).trans hc, fun hk => ?_⟩
    have hok := hI.placeOk hp
    obtain ⟨th, hr⟩ := Option.ne_none_iff_exists'.mp fun hr => hok.2 (pausedFlag_eq_none.mpr hr)
    obtain ⟨th', hr', -⟩ := hk.record t hct.symm th hr
    have hrec : (s.freeThread t).record t = none := Function.update_self ..
    rw [hrec] at hr'
    exact nomatch hr'
  | _ => exact hop.elim

/-- The records are kept from any state of a collection to any later state of it. -/
def RecordsStable (ops : List ThreadOp) (s : ℕ → ThreadState) : Prop :=
  ∀ i j c, i ≤ j → j ≤ ops.length → (∀ k, i ≤ k → k ≤ j → (s k).place c = .collect) →
    RecordsKept c (s i) (s j)

/-- **The thread records are stable exactly when nothing disturbs a collection.** From the
return of `m_thread_pause_all` to the call of `m_thread_resume_all` the list and the records and
new-born stacks of the other threads stay what they are, if and only if meanwhile no thread
registers, no thread with a record exits and no exited thread frees its stack or its record.
SOURCE: m_thread.c:50-110, m_gc_obj.c:231-255, 524-568 -/
theorem records_stable_iff (hlimit : limit < 2 ^ 32) {ops : List ThreadOp} {s : ℕ → ThreadState}
    (h : ThreadRun limit ops s) :
    RecordsStable ops s ↔ ∀ (i : ℕ) (hi : i < ops.length), Disturbs (s i) ops[i] →
      ∀ c, (s i).place c ≠ .collect := by
  constructor
  · intro hstable i hi hop c hc
    obtain ⟨hc', hbad⟩ :=
      not_recordsKept (pauseInv_run h i (Nat.le_of_lt hi)) (h.step i hi) hc hop
    refine hbad (hstable i (i + 1) c (Nat.le_succ i) hi fun k hik hki => ?_)
    rcases Nat.le_and_le_add_one_iff.mp ⟨hik, hki⟩ with rfl | rfl
    · exact hc
    · exact hc'
  · intro hcond i j c hij hj hcollect
    have hreg : ∀ k (hk : k < ops.length), RegistersFree (s k) ops[k] := fun k hk t hop =>
      hcond k hk (by rw [hop]; trivial)
    induction j, hij using Nat.le_induction with
    | base => exact recordsKept_same rfl rfl
    | succ j hij ih =>
      have hI := stopInv_run hlimit h hreg j (Nat.le_of_succ_le hj)
      have hc := hcollect j hij (Nat.le_succ j)
      refine (ih (Nat.le_of_succ_le hj) fun k hik hkj => hcollect k hik (Nat.le_succ_of_le hkj)
        ).trans ?_
      exact recordsKept_of_section hI.pause hI.stopped (section_of_step hI.pause (h.step j hj)) hc
        (hcollect (j + 1) (Nat.le_succ_of_le hij) le_rfl) fun hop => hcond j hj hop c hc

/-- The collector may grow its own stack while the others are stopped. -/
theorem records_stable_alloc : ∃ s, ThreadRun 2 (leftOps ++ [.alloc 0 none true (some 8) false]) s ∧
    (s 6).place 0 = .collect ∧ RecordsKept 0 (s 6) (s 7) := by
  obtain ⟨s, hr, h2, hc, -⟩ := run_left
  have hI := pauseInv_run hr 6 le_rfl
  obtain ⟨th, hrec, -⟩ := record_of_inside hI (.inr hc)
  have hw : (s 6).PauseSignal none := by
    intro c hp
    obtain rfl : c = 0 := inBranch_unique hI (by rw [hp]; rfl) (by rw [hc]; rfl)
    exact nomatch hp.symm.trans hc
  have hs : ThreadStep 2 (s 6) (.alloc 0 none true (some 8) false)
      ((s 6).setRecord 0 (some { th with nbStack := some 8 })) := by
    apply ThreadStep.alloc (.inr hc) hw
    unfold ThreadState.mGCAllocObj
    rw [if_pos rfl, self_eq_ok.mpr hrec]
    rfl
  refine ⟨_, hr.snoc hs, hc, (records_stable_iff (by decide) (hr.snoc hs)).mpr (fun i hi hop => ?_)
    6 7 0 (by decide) le_rfl fun k h6 h7 => ?_⟩
  · match i, hi with
    | 2, _ => exact not_collect (pauseInv_run hr 2 (by decide)) (by rw [h2]; rfl)
    | 0, _ | 1, _ | 3, _ | 4, _ | 5, _ | 6, _ => exact hop.elim
  · rcases Nat.le_and_le_add_one_iff.mp ⟨h6, h7⟩ with rfl | rfl
    · exact hc
    · exact hc

/-- A thread that has left exits while another one collects. -/
theorem records_stable_counterexample :
    ¬ ∀ (limit : ℕ) (ops : List ThreadOp) (s : ℕ → ThreadState), limit < 2 ^ 32 →
      ThreadRun limit ops s → RecordsStable ops s := by
  intro hall
  obtain ⟨s, hr, -, hc, -, hp, hrec⟩ := run_left
  have hs : ThreadStep 2 (s 6) (.exit 1) ((s 6).threadKeyDestructor 1) := .exit (.inr (.inr hp))
  have hop : Disturbs (s 6) (.exit 1) := Option.isSome_iff_ne_none.mp hrec
  obtain ⟨hc', hbad⟩ := not_recordsKept (pauseInv_run hr 6 le_rfl) hs hc hop
  refine hbad (hall 2 _ _ (by decide) (hr.snoc hs) 6 7 0 (by decide) le_rfl fun k h6 h7 => ?_)
  rcases Nat.le_and_le_add_one_iff.mp ⟨h6, h7⟩ with rfl | rfl
  · exact hc
  · exact hc'

end Ming.Analysis
