import Ming.Interface.ThreadPause

/-!
# The sections of the pause protocol

Every step of a thread, taken in a state that satisfies the invariant, is one of the sections
of `Section`. The functions are unfolded here and nowhere else.
-/

set_option autoImplicit false

namespace Ming.Analysis

open Ming.Foundation Ming.Model Ming.Interface

variable {limit : ℕ} {s s' : ThreadState} {op : ThreadOp} {t : Tid} {w : Option Tid}
  {th : ThreadRecord}

/-- INTERNAL: a thread finds the record that it has. -/
theorem self_eq_ok : s.self t = .ok th ↔ s.record t = some th := by
  unfold ThreadState.self
  cases h : s.record t <;> simp

/-- INTERNAL: the flag of a record. -/
theorem pausedFlag_of_record {b : Bool} (h : s.record t = some th) (hb : th.isPaused = b) :
    pausedFlag s t = some b := by
  unfold pausedFlag
  rw [h, Option.map_some, hb]

/-- INTERNAL: a thread without a flag has no record. -/
theorem pausedFlag_eq_none : pausedFlag s t = none ↔ s.record t = none :=
  Option.map_eq_none_iff

/-- INTERNAL: a thread with a record that comes back has left or has waited, which sets its
flag. -/
theorem returning_flag (hI : PauseInv s)
    (hp : s.place t = .outside ∨ s.place t = .left ∨ s.place t = .enterWait true)
    (hr : s.record t = some th) :
    (s.place t = .left ∨ s.place t = .enterWait true) ∧ th.isPaused = true := by
  have hf : pausedFlag s t = some th.isPaused := pausedFlag_of_record hr rfl
  rcases hp with hp | hp | hp
  · have hok := hI.placeOk hp
    rw [hf] at hok
    exact nomatch hok.2
  · have hok := hI.placeOk hp
    rw [hf] at hok
    exact ⟨.inl hp, Option.some.inj hok.2⟩
  · have hok := hI.placeOk hp
    rw [hf] at hok
    exact ⟨.inr hp, hok.elim (fun h => nomatch h.2) fun h => Option.some.inj h.2⟩

/-- INTERNAL: the sections of `m_thread_enter`. -/
theorem section_enter (hop : op.thread = t)
    (hp : s.place t = .outside ∨ s.place t = .left ∨ s.place t = .enterWait true)
    (hI : PauseInv s) (h : s.mThreadEnter t = .ok s') : Section limit s op s' := by
  subst hop
  unfold ThreadState.mThreadEnter at h
  split at h
  · obtain rfl := Except.ok.inj h
    exact .move op (.enterWait hp)
  · rename_i hflag
    have hflag : s.threadPauseFlag = false := by simpa using hflag
    split at h
    · rename_i hr
      obtain rfl := Except.ok.inj h
      refine .move op (.register ?_ hr hflag)
      rcases hp with hp | hp | hp
      · exact .inl hp
      · have hok := hI.placeOk hp
        rw [pausedFlag_eq_none.mpr hr] at hok
        exact nomatch hok.2
      · exact .inr hp
    · rename_i th hr
      split at h
      · rename_i hpaused
        obtain rfl := Except.ok.inj h
        refine .resume op ?_ (pausedFlag_of_record hr hpaused) (isPaused_clear th) hflag
        exact (returning_flag hI hp hr).1.elim .inl fun hp => .inr (.inl hp)
      · exact nomatch h

/-- INTERNAL: the sections of `m_thread_check_nl` and of the loop at its end. -/
theorem section_checkLoop (hop : op.thread = t) (hp : s.place t = .checkWait true)
    (hI : PauseInv s) (h : s.checkLoop t = .ok s') : Section limit s op s' := by
  subst hop
  unfold ThreadState.checkLoop at h
  split at h
  · obtain rfl := Except.ok.inj h
    exact .move op (.checkWait hp)
  · rename_i hflag
    obtain ⟨th, -, h⟩ := Outcome.bind_eq_ok.mp h
    obtain rfl := Except.ok.inj h
    have hok := hI.placeOk hp
    exact .resume op (.inr (.inr hp)) hok.2 (isPaused_clear th) (by simpa using hflag)

/-- INTERNAL: the section of `m_thread_check_nl` when a collection is under way. -/
theorem checkNl_paused (hflag : s.threadPauseFlag = true) (hr : s.record t = some th)
    (h : s.mThreadCheckNl t w = .ok s') :
    ∃ th' : ThreadRecord, th'.isPaused = true ∧
      s' = ((pausedAs s t th').signalPause w).goto t (.checkWait false) := by
  unfold ThreadState.mThreadCheckNl at h
  rw [self_eq_ok.mpr hr, Outcome.ok_bind] at h
  split at h
  · exact nomatch h
  have hflag' : ((s.markPaused t th).signalPause w).threadPauseFlag = true := by
    cases w <;> exact hflag
  unfold ThreadState.checkLoop at h
  rw [if_pos hflag'] at h
  exact ⟨_, isPaused_set th, (Except.ok.inj h).symm⟩

/-- INTERNAL: without a collection `m_thread_check_nl` returns at once. -/
theorem checkNl_free (hflag : s.threadPauseFlag = false) (hr : s.record t = some th)
    (h : s.mThreadCheckNl t w = .ok s') : s' = s := by
  unfold ThreadState.mThreadCheckNl at h
  rw [self_eq_ok.mpr hr, Outcome.ok_bind] at h
  split at h
  · exact nomatch h
  · rw [if_neg (by rw [hflag]; exact Bool.false_ne_true)] at h
    exact (Except.ok.inj h).symm

/-- INTERNAL: the section of `m_thread_pause_all`. -/
theorem pauseAll_paused (hr : s.record t = some th) (h : s.mThreadPauseAll t = .ok s') :
    ∃ th' : ThreadRecord, th'.isPaused = true ∧
      s' = (pausedAs { s with threadPauseFlag := true } t th').pauseAllLoop t := by
  unfold ThreadState.mThreadPauseAll at h
  rw [self_eq_ok.mpr hr, Outcome.ok_bind] at h
  split at h
  · exact nomatch h
  · exact ⟨_, isPaused_set th, (Except.ok.inj h).symm⟩

/-- INTERNAL: what `gc_collect_objs` does, by who collects. -/
theorem gcCollectObjs_cases (hr : s.record t = some th)
    (hflag : s.threadPauseFlag = s.gcThread.isSome) (h : s.gcCollectObjs t w = .ok s') :
    (s.gcThread = none ∧ ∃ th' : ThreadRecord, th'.isPaused = true ∧
      s' = (pausedAs { s with
        gcThread := some t
        threadPauseFlag := true } t th').pauseAllLoop t) ∨
    (s.gcThread ≠ some t ∧ s.threadPauseFlag = true ∧ ∃ th' : ThreadRecord,
      th'.isPaused = true ∧ s' = ((pausedAs s t th').signalPause w).goto t (.checkWait false)) ∨
    (s.gcThread = some t ∧ s' = s) := by
  unfold ThreadState.gcCollectObjs at h
  rw [self_eq_ok.mpr hr, Outcome.ok_bind] at h
  cases hgc : s.gcThread with
  | none =>
    simp only [hgc] at h
    exact .inl ⟨rfl, pauseAll_paused (s := { s with gcThread := some t }) hr h⟩
  | some c =>
    have hflag : s.threadPauseFlag = true := by rw [hflag, hgc]; rfl
    simp only [hgc] at h
    split at h
    · rename_i hc
      refine .inr (.inl ⟨?_, hflag, checkNl_paused hflag hr h⟩)
      rintro e
      exact hc (Option.some.inj e).symm
    · rename_i hc
      exact .inr (.inr ⟨by rw [not_not.mp hc], (Except.ok.inj h).symm⟩)

/-- INTERNAL: a thread that may call the collector has a record. -/
theorem record_of_inside (hI : PauseInv s) (hp : s.place t = .entered ∨ s.place t = .collect) :
    ∃ th, s.record t = some th ∧ pausedFlag s t = some th.isPaused := by
  have hok := hI.place t
  rcases hp with hp | hp
  all_goals
    rw [hp] at hok
    obtain ⟨th, hr, -⟩ := record_of_pausedFlag hok.2
    exact ⟨th, hr, pausedFlag_of_record hr rfl⟩

/-- INTERNAL: a record that is stored again. -/
theorem setRecord_self (hr : s.record t = some th) : s.setRecord t (some th) = s := by
  unfold ThreadState.setRecord
  rw [← hr, Function.update_eq_self]

/-- INTERNAL: a record that is stored twice. -/
theorem pausedAs_setRecord (s : ThreadState) (t : Tid) (r : Option ThreadRecord)
    (th : ThreadRecord) : pausedAs (s.setRecord t r) t th = pausedAs s t th := by
  unfold pausedAs ThreadState.setRecord
  rw [Function.update_idem]

/-- INTERNAL: the sections of `gc_collect_objs`, also after the growth of the new-born stack:
`s₁` is the state in which the function is called. -/
theorem section_collect {s₁ : ThreadState} (op : ThreadOp) (hop : op.thread = t)
    (hp : s.place t = .entered ∨ s.place t = .collect) (hI : PauseInv s) (hw : s.PauseSignal w)
    (hr : s.record t = some th) {b : Option Ptr}
    (hs₁ : s₁ = s.setRecord t (some { th with nbStack := b }))
    (h : s₁.gcCollectObjs t w = .ok s') : Section limit s op s' := by
  subst hop hs₁
  have hr₁ : (s.setRecord op.thread (some { th with nbStack := b })).record op.thread =
      some { th with nbStack := b } := Function.update_self ..
  rcases gcCollectObjs_cases hr₁ hI.pauseFlag h with ⟨hgc, th', hth', rfl⟩ |
    ⟨hne, hflag, th', hth', rfl⟩ | ⟨-, rfl⟩
  · have hp : s.place op.thread = .entered := by
      refine hp.resolve_right fun hc => ?_
      have hbr := (hI.branch op.thread).mpr (by rw [hc]; rfl)
      rw [show s.gcThread = none from hgc] at hbr
      exact nomatch hbr
    have he := pausedAs_setRecord { s with
      gcThread := some op.thread
      threadPauseFlag := true } op.thread (some { th with nbStack := b }) th'
    exact he ▸ .pauseAll op hp hth' hgc
  · have hp : s.place op.thread = .entered := by
      refine hp.resolve_right fun hc => ?_
      exact hne ((hI.branch op.thread).mpr (by rw [hc]; rfl))
    have hw' := pausedAs_setRecord s op.thread (some { th with nbStack := b }) th'
    exact hw' ▸ .check op hp hth' hflag hw
  · exact .grow op hp (pausedFlag_of_record hr rfl)

/-- INTERNAL: the sections of `m_thread_check`. -/
theorem section_check (hp : s.place t = .entered) (hI : PauseInv s) (hw : s.PauseSignal w)
    (h : s.mThreadCheckNl t w = .ok s') : Section limit s (.check t w) s' := by
  obtain ⟨th, hr, -⟩ := record_of_inside hI (.inl hp)
  cases hflag : s.threadPauseFlag with
  | true =>
    obtain ⟨th', hth', rfl⟩ := checkNl_paused hflag hr h
    exact .check (.check t w) hp hth' hflag hw
  | false =>
    obtain rfl := checkNl_free hflag hr h
    exact .stay (.check t w) (.inl hp)

/-- INTERNAL: the sections of `m_gc_alloc_obj`: without a pool nothing happens, else the new-born
stack may grow and the collector may be called. -/
theorem section_alloc {pool need : Bool} {grow : Option Ptr}
    (hp : s.place t = .entered ∨ s.place t = .collect) (hI : PauseInv s) (hw : s.PauseSignal w)
    (h : s.mGCAllocObj t w pool grow need = .ok s') :
    Section limit s (.alloc t w pool grow need) s' := by
  unfold ThreadState.mGCAllocObj at h
  cases pool with
  | false =>
    obtain rfl := Except.ok.inj h
    exact .stay (.alloc t w false grow need) hp
  | true =>
    obtain ⟨th, hr, h⟩ := Outcome.bind_eq_ok.mp h
    have hr := self_eq_ok.mp hr
    cases need with
    | false =>
      obtain rfl := Except.ok.inj h
      exact .grow (.alloc t w true grow false) hp (pausedFlag_of_record hr rfl)
    | true => exact section_collect (.alloc t w true grow true) rfl hp hI hw hr rfl h

/-- INTERNAL: the end of a collection. -/
theorem section_finish (hp : s.place t = .collect) (h : s.gcCollectFinish t = .ok s') :
    Section limit s (.finish t) s' := by
  obtain ⟨s₁, h₁, h⟩ := Outcome.bind_eq_ok.mp h
  obtain ⟨th, hr, h₁⟩ := Outcome.bind_eq_ok.mp h₁
  split at h₁
  · obtain rfl := Except.ok.inj h₁
    obtain rfl := Except.ok.inj h
    exact .finish hp (isPaused_clear th)
  · exact nomatch h₁

/-- INTERNAL: a thread that exits is outside, or it has a record. -/
theorem section_exit (hI : PauseInv s)
    (hp : s.place t = .outside ∨ s.place t = .entered ∨ s.place t = .left) :
    Section limit s (.exit t) (s.threadKeyDestructor t) := by
  cases hf : pausedFlag s t with
  | none =>
    have hr := pausedFlag_eq_none.mp hf
    unfold ThreadState.threadKeyDestructor
    rw [hr]
    refine .move (.exit t) (.exit (hp.resolve_right fun hp => ?_))
    have hok := hI.place t
    rcases hp with hp | hp
    all_goals
      rw [hp, hf] at hok
      exact nomatch hok.2
  | some b =>
    refine .exit (hp.resolve_left fun hp => ?_) hf
    have hok := hI.placeOk hp
    rw [hf] at hok
    exact nomatch hok.2

/-- INTERNAL: **a step is one of the sections.**
SOURCE: m_thread.c:50-295, m_gc_obj.c:524-568, 756-780 -/
theorem section_of_step (hI : PauseInv s) (h : ThreadStep limit s op s') :
    Section limit s op s' := by
  cases h with
  | @create t hp hc => exact .move (.create t) (.create hp hc)
  | enter hp h => exact section_enter rfl (hp.elim .inl fun hp => .inr (.inl hp)) hI h
  | register hp => exact .register hp
  | @leave _ t hp h =>
    obtain ⟨th, hr, h⟩ := Outcome.bind_eq_ok.mp h
    split at h
    · exact nomatch h
    · obtain rfl := Except.ok.inj h
      exact .leave (.leave t) hp (isPaused_set th)
  | @signal t w hp hw => exact .signal (.signal t w) hp hw
  | check hp hw h => exact section_check hp hI hw h
  | alloc hp hw h => exact section_alloc hp hI hw h
  | @run _ t w hp hw h =>
    obtain ⟨th, hr, -⟩ := record_of_inside hI hp
    have hs : s = s.setRecord t (some { th with nbStack := th.nbStack }) := (setRecord_self hr).symm
    exact section_collect (.run t w) rfl hp hI hw hr hs h
  | @wakeEnter t hp => exact .move (.wake t) (.enterWoken hp)
  | @wakeCheck t hp => exact .move (.wake t) (.checkWoken hp)
  | @wakePause t hp => exact .move (.wake t) (.pauseWoken hp)
  | enterAgain hp h => exact section_enter rfl (.inr (.inr hp)) hI h
  | checkAgain hp h => exact section_checkLoop rfl hp hI h
  | @pauseAgain t hp =>
    unfold ThreadState.pauseAllLoop
    split
    · rename_i hne
      exact .move (.pauseAgain t) (.pauseWait hp hne)
    · rename_i heq
      exact .move (.pauseAgain t) (.collect hp (not_not.mp heq))
  | finish hp h => exact section_finish hp h
  | exit hp => exact section_exit hI hp
  | freeStack hp => exact .freeStack hp
  | freeRecord hp => exact .freeRecord hp

/-! ## No assertion fails -/

/-- INTERNAL: an entered thread has a record with a clear flag. -/
theorem record_of_entered (hI : PauseInv s) (hp : s.place t = .entered) :
    ∃ th, s.record t = some th ∧ th.isPaused = false := by
  have hok := hI.placeOk hp
  exact record_of_pausedFlag hok.2

/-- INTERNAL: the loop of `m_thread_check_nl` returns. -/
theorem checkLoop_returns (hr : s.record t = some th) : ∃ s', s.checkLoop t = .ok s' := by
  unfold ThreadState.checkLoop
  rw [self_eq_ok.mpr hr]
  split
  · exact ⟨_, rfl⟩
  · exact ⟨_, rfl⟩

/-- INTERNAL: `m_thread_check_nl` returns. -/
theorem checkNl_returns (hr : s.record t = some th) (hth : th.isPaused = false)
    (w : Option Tid) : ∃ s', s.mThreadCheckNl t w = .ok s' := by
  unfold ThreadState.mThreadCheckNl
  rw [self_eq_ok.mpr hr, Outcome.ok_bind, if_neg (by rw [hth]; exact Bool.false_ne_true)]
  split
  · have hmark : ((s.markPaused t th).signalPause w).record t =
        some { th with flags := th.flags ||| M_THREAD_FL_PAUSED } := by
      cases w with
      | none => exact Function.update_self ..
      | some c => exact Function.update_self ..
    exact checkLoop_returns hmark
  · exact ⟨_, rfl⟩

/-- INTERNAL: `m_thread_enter` and its loop return. -/
theorem enter_returns (hI : PauseInv s)
    (hp : s.place t = .outside ∨ s.place t = .left ∨ s.place t = .enterWait true) :
    ∃ s', s.mThreadEnter t = .ok s' := by
  unfold ThreadState.mThreadEnter
  split
  · exact ⟨_, rfl⟩
  · cases hr : s.record t with
    | none => exact ⟨_, rfl⟩
    | some th => exact ⟨_, if_pos (returning_flag hI hp hr).2⟩

/-- INTERNAL: `m_thread_pause_all` returns. -/
theorem pauseAll_returns (hr : s.record t = some th) (hth : th.isPaused = false) :
    ∃ s', s.mThreadPauseAll t = .ok s' := by
  unfold ThreadState.mThreadPauseAll
  rw [self_eq_ok.mpr hr, Outcome.ok_bind, if_neg (by rw [hth]; exact Bool.false_ne_true)]
  exact ⟨_, rfl⟩

/-- INTERNAL: `gc_collect_objs` returns for the collecting thread and for an unflagged one. -/
theorem gcCollectObjs_returns (hr : s.record t = some th)
    (hth : s.gcThread ≠ some t → th.isPaused = false) (w : Option Tid) :
    ∃ s', s.gcCollectObjs t w = .ok s' := by
  unfold ThreadState.gcCollectObjs
  rw [self_eq_ok.mpr hr, Outcome.ok_bind]
  cases hgc : s.gcThread with
  | none =>
    have hth := hth (by rw [hgc]; exact (Option.some_ne_none t).symm)
    exact pauseAll_returns (s := { s with gcThread := some t }) hr hth
  | some c =>
    by_cases hc : t = c
    · exact ⟨_, if_neg (not_not.mpr hc)⟩
    · have hth := hth (by rw [hgc]; exact fun e => hc (Option.some.inj e).symm)
      obtain ⟨s', h⟩ := checkNl_returns hr hth w
      exact ⟨s', (if_pos hc).trans h⟩

/-- INTERNAL: `gc_collect_objs` returns after the growth of the new-born stack. -/
theorem collect_returns (hI : PauseInv s) (hp : s.place t = .entered ∨ s.place t = .collect)
    (hr : s.record t = some th) (b : Option Ptr) (w : Option Tid) :
    ∃ s', (s.setRecord t (some { th with nbStack := b })).gcCollectObjs t w = .ok s' := by
  have hr₁ : (s.setRecord t (some { th with nbStack := b })).record t =
      some { th with nbStack := b } := Function.update_self ..
  apply gcCollectObjs_returns hr₁
  intro hne
  have hp : s.place t = .entered := hp.resolve_right fun hc =>
    hne ((hI.branch t).mpr (by rw [hc]; rfl))
  obtain ⟨th', hr', hth'⟩ := record_of_entered hI hp
  rw [hr] at hr'
  rw [isPaused_nbStack, Option.some.inj hr']
  exact hth'

/-- **No assertion of a section fails.** In a state that satisfies the invariant every section
that the place of a thread allows returns; the sections that are left out have no assertion.
SOURCE: m_thread.c:50-295, m_gc_obj.c:524-568, 756-780 -/
theorem sections_return (hI : PauseInv s) (t : Tid) :
    (s.place t = .outside ∨ s.place t = .left ∨ s.place t = .enterWait true →
      ∃ s', s.mThreadEnter t = .ok s') ∧
    (s.place t = .entered → ∃ s', s.mThreadLeave t = .ok s') ∧
    (s.place t = .entered → ∀ w, ∃ s', s.mThreadCheckNl t w = .ok s') ∧
    (s.place t = .checkWait true → ∃ s', s.checkLoop t = .ok s') ∧
    (s.place t = .entered ∨ s.place t = .collect →
      (∀ w, ∃ s', s.gcCollectObjs t w = .ok s') ∧
      ∀ w pool grow need, ∃ s', s.mGCAllocObj t w pool grow need = .ok s') ∧
    (s.place t = .collect → ∃ s', s.gcCollectFinish t = .ok s') := by
  refine ⟨enter_returns hI, fun hp => ?_, fun hp w => ?_, fun hp => ?_, fun hp => ⟨?_, ?_⟩,
    fun hp => ?_⟩
  · obtain ⟨th, hr, hth⟩ := record_of_entered hI hp
    unfold ThreadState.mThreadLeave
    rw [self_eq_ok.mpr hr, Outcome.ok_bind, if_neg (by rw [hth]; exact Bool.false_ne_true)]
    exact ⟨_, rfl⟩
  · obtain ⟨th, hr, hth⟩ := record_of_entered hI hp
    exact checkNl_returns hr hth w
  · have hok := hI.placeOk hp
    obtain ⟨th, hr, -⟩ := record_of_pausedFlag hok.2
    exact checkLoop_returns hr
  · intro w
    obtain ⟨th, hr, -⟩ := record_of_inside hI hp
    have h := collect_returns hI hp hr th.nbStack w
    rwa [setRecord_self hr] at h
  · intro w pool grow need
    obtain ⟨th, hr, -⟩ := record_of_inside hI hp
    unfold ThreadState.mGCAllocObj
    rw [self_eq_ok.mpr hr, Outcome.ok_bind]
    split
    · split
      · exact collect_returns hI hp hr _ w
      · exact ⟨_, rfl⟩
    · exact ⟨_, rfl⟩
  · have hok := hI.placeOk hp
    obtain ⟨th, hr, hth⟩ := record_of_pausedFlag hok.2
    unfold ThreadState.gcCollectFinish ThreadState.mThreadResumeAll
    rw [self_eq_ok.mpr hr, Outcome.ok_bind, if_pos hth]
    exact ⟨_, rfl⟩

end Ming.Analysis
