import Ming.Analysis.ThreadInvariant

/-!
# Runs of the pause protocol

The invariant holds in every state of a run from `m_thread_startup`. From it follow the
agreement of the counters with the list, and that one thread collects at a time: whoever calls
the collector while another thread collects waits until that collection has resumed all
threads, however often it is woken before.
-/

set_option autoImplicit false

namespace Ming.Analysis

open Ming.Foundation Ming.Model Ming.Interface

variable {limit : ℕ} {s s' : ThreadState} {op : ThreadOp} {t u c : Tid}

/-- The runs from `m_thread_startup` on a system with at most `limit` threads at a time. -/
def ThreadRun (limit : ℕ) : List ThreadOp → (ℕ → ThreadState) → Prop :=
  Run (fun s => ∃ t, s = ThreadState.mThreadStartup t) (ThreadStep limit)

/-- The state of `m_thread_startup` before the main thread is registered. -/
def beforeStartup (t : Tid) : ThreadState :=
  ThreadState.goto ⟨[], 0, 0, false, none, fun _ => none, fun _ => .absent⟩ t .register

/-- INTERNAL: the state before the startup. -/
theorem pauseInv_beforeStartup (t : Tid) : PauseInv (beforeStartup t) := by
  have hpl : ∀ u, u ≠ t → (beforeStartup t).place u = .absent := fun u h => goto_place_ne h
  have hself : (beforeStartup t).place t = .register := goto_place_self
  refine ⟨fun u => ?_, List.nodup_nil, rfl, rfl, fun c => ?_, rfl⟩
  · rcases eq_or_ne u t with rfl | hne
    · rw [hself]
      exact ⟨List.not_mem_nil, rfl⟩
    · rw [hpl u hne]
      exact ⟨List.not_mem_nil, rfl⟩
  · refine iff_of_false (fun e => nomatch e) ?_
    rcases eq_or_ne c t with rfl | hne
    · rw [hself]
      exact Bool.false_ne_true
    · rw [hpl c hne]
      exact Bool.false_ne_true

/-- INTERNAL: the startup establishes the invariant.
SOURCE: m_thread.c:124-149 -/
theorem pauseInv_startup (t : Tid) : PauseInv (ThreadState.mThreadStartup t) := by
  have h := pauseInv_register (pauseInv_beforeStartup t) goto_place_self
  have he : (beforeStartup t).threadRegister t = ThreadState.mThreadStartup t := by
    unfold ThreadState.mThreadStartup ThreadState.threadRegister ThreadState.goto
    simp only [ThreadState.setRecord, beforeStartup, ThreadState.goto, Function.update_idem]
  rwa [he] at h

/-- INTERNAL: **the invariant holds in every state of a run.** -/
theorem pauseInv_run {ops : List ThreadOp} {s : ℕ → ThreadState} (h : ThreadRun limit ops s)
    (n : ℕ) (hn : n ≤ ops.length) : PauseInv (s n) := by
  apply Run.inv (fun _ s => PauseInv s) _ _ h n hn
  · rintro _ ⟨t, rfl⟩
    exact pauseInv_startup t
  · intro _ s op s' hI hs
    exact pauseInv_section hI (section_of_step hI hs)

/-! ## What a step leaves to the other threads -/

/-- The other threads keep their record and their list entry, and may have been woken. -/
structure Others (t : Tid) (s s' : ThreadState) : Prop where
  place : ∀ u, u ≠ t → asleep (s'.place u) = asleep (s.place u)
  blocked : ∀ u, u ≠ t → s'.place u = .pauseWait false → s.place u = .pauseWait false
  record : ∀ u, u ≠ t → s'.record u = s.record u
  listed : ∀ u, u ≠ t → (u ∈ s'.threadList ↔ u ∈ s.threadList)

/-- INTERNAL: a step of one thread leaves the others alone. -/
theorem Local.others (h : Local t s s') : Others t s s' where
  place u hu := by rw [h.place u hu]
  blocked u hu hb := by rwa [h.place u hu] at hb
  record := h.record
  listed := h.listed

/-- INTERNAL: one step after the other. -/
theorem Others.trans {s₁ : ThreadState} (h : Others t s s₁) (h' : Others t s₁ s') :
    Others t s s' where
  place u hu := (h'.place u hu).trans (h.place u hu)
  blocked u hu hb := h.blocked u hu (h'.blocked u hu hb)
  record u hu := (h'.record u hu).trans (h.record u hu)
  listed u hu := (h'.listed u hu).trans (h.listed u hu)

/-- INTERNAL: a move leaves the others alone. -/
theorem others_goto {p : ThreadPlace} : Others t s (s.goto t p) :=
  Local.others ⟨fun _ => goto_place_ne, fun _ _ => rfl, fun _ _ => Iff.rfl⟩

/-- INTERNAL: a signal leaves the running threads alone. -/
theorem others_signalPause {w : Option Tid} (hw : s.PauseSignal w) :
    Others t s (s.signalPause w) := by
  cases w with
  | none => exact Local.others ⟨fun _ _ => rfl, fun _ _ => rfl, fun _ _ => Iff.rfl⟩
  | some c =>
    refine ⟨fun u _ => ?_, fun u _ hb => ?_, fun _ _ => rfl, fun _ _ => Iff.rfl⟩
    · rcases eq_or_ne u c with rfl | hne
      · rw [show s.place u = .pauseWait false from hw]
        change asleep ((s.goto u (.pauseWait true)).place u) = _
        rw [goto_place_self]
        rfl
      · exact congrArg asleep (goto_place_ne hne)
    · rcases eq_or_ne u c with rfl | hne
      · exact hw
      · exact (goto_place_ne hne).symm.trans hb

/-- INTERNAL: a wait for the others leaves them alone. -/
theorem others_pauseAllLoop : Others t s (s.pauseAllLoop t) := by
  unfold ThreadState.pauseAllLoop
  split
  · exact others_goto
  · exact others_goto

/-- INTERNAL: **what a step leaves to the other threads.** -/
theorem others_of_section (h : Section limit s op s') : Others op.thread s s' := by
  cases h with
  | move _ _ => exact others_goto
  | stay _ _ => exact Local.others ⟨fun _ _ => rfl, fun _ _ => rfl, fun _ _ => Iff.rfl⟩
  | grow _ _ _ =>
    exact Local.others ⟨fun _ _ => rfl, fun _ h => Function.update_of_ne h .., fun _ _ => Iff.rfl⟩
  | leave _ _ _ => exact Local.others (local_pausedAs _ (g := s.gcThread) (f := s.threadPauseFlag))
  | signal _ _ hw => exact (others_signalPause hw).trans others_goto
  | @check _ th w _ _ _ hw =>
    refine (others_signalPause hw).trans ?_
    have h := Local.others (local_pausedAs th (s := s.signalPause w) (t := op.thread) 
      (p := .checkWait false) (g := (s.signalPause w).gcThread)
      (f := (s.signalPause w).threadPauseFlag))
    cases w <;> exact h
  | pauseAll _ _ _ _ =>
    refine Others.trans (Local.others ?_) others_pauseAllLoop
    exact ⟨fun _ _ => rfl, fun _ h => Function.update_of_ne h .., fun _ _ => Iff.rfl⟩
  | resume _ _ _ _ _ =>
    exact Local.others (local_resumedAs _ (g := s.gcThread) (f := s.threadPauseFlag))
  | finish _ _ =>
    refine ⟨fun u hu => ?_, fun u hu hb => ?_, fun _ h => Function.update_of_ne h ..,
      fun _ _ => Iff.rfl⟩
    · refine (congrArg asleep (goto_place_ne hu)).trans ?_
      change asleep (s.place u).resumed = _
      cases s.place u <;> rfl
    · replace hb := (goto_place_ne hu).symm.trans hb
      change (s.place u).resumed = _ at hb
      cases hp : s.place u <;> rw [hp] at hb <;> first | exact hb | exact nomatch hb
  | register _ =>
    refine Local.others ⟨fun _ => goto_place_ne, fun _ h => Function.update_of_ne h ..,
      fun u h => ?_⟩
    change u ∈ s.threadList ++ _ ↔ _
    rw [List.mem_append, List.mem_singleton]
    exact or_iff_left h
  | exit _ hpf =>
    obtain ⟨th, hr, -⟩ := record_of_pausedFlag hpf
    rw [threadKeyDestructor_eq hr]
    exact Local.others ⟨fun _ => goto_place_ne, fun _ _ => rfl, fun _ h => List.mem_erase_of_ne h⟩
  | freeStack _ | freeRecord _ =>
    exact Local.others ⟨fun _ => goto_place_ne, fun _ h => Function.update_of_ne h ..,
      fun _ _ => Iff.rfl⟩

/-! ## The counters -/

/-- INTERNAL: a step of a thread that exists, or the creation of one. -/
theorem exists_or_create (h : Section limit s op s') :
    s.place op.thread ≠ .absent ∨ s.CanCreate limit := by
  cases h with
  | move _ hm =>
    cases hm with
    | create _ hc => exact .inr hc
    | enterWait hp => exact .inl (by rcases hp with hp | hp | hp <;> simp [hp])
    | register hp _ _ => exact .inl (by rcases hp with hp | hp <;> simp [hp])
    | enterWoken hp | checkWait hp | checkWoken hp | pauseWait hp _ | pauseWoken hp
    | collect hp _ | exit hp => exact .inl (by simp [hp])
  | stay _ hp | grow _ hp _ => exact .inl (by rcases hp with hp | hp <;> simp [hp])
  | resume _ hp _ _ _ => exact .inl (by rcases hp with hp | hp | hp <;> simp [hp])
  | @exit t _ hp _ =>
    have hne : s.place t ≠ .absent := by rcases hp with hp | hp <;> simp [hp]
    exact .inl hne
  | leave _ hp _ | signal _ hp _ | check _ hp _ _ _ | pauseAll _ hp _ _ =>
    exact .inl (by simp [hp])
  | finish hp _ | register hp | freeStack hp | freeRecord hp =>
    exact .inl fun h => nomatch hp.symm.trans h

/-- INTERNAL: the threads stay few. -/
theorem few_of_section (hlimit : limit < 2 ^ 32) (hF : FewThreads s)
    (h : Section limit s op s') : FewThreads s' := by
  intro l hl
  have hold : ∀ u, u ≠ op.thread → u ∈ l → s.place u ≠ .absent := by
    intro u hu hmem
    rw [Ne, ← asleep_eq_absent, ← (others_of_section h).place u hu, asleep_eq_absent]
    exact hl u hmem
  rcases exists_or_create h with hp | hc
  · apply hF
    intro u hu
    rcases eq_or_ne u op.thread with rfl | hne
    · exact hp
    · exact hold u hne hu
  · have hcard := hc (l.erase op.thread) fun u hu =>
      hold u (Finset.ne_of_mem_erase hu) (Finset.mem_of_mem_erase hu)
    have := Finset.pred_card_le_card_erase (s := l) (a := op.thread)
    omega

/-- INTERNAL: there is one thread at the startup. -/
theorem card_startup (t : Tid) (l : Finset Tid)
    (hl : ∀ u ∈ l, (ThreadState.mThreadStartup t).place u ≠ .absent) : l.card ≤ 1 := by
  rw [← Finset.card_singleton t]
  apply Finset.card_le_card
  intro u hu
  rw [Finset.mem_singleton]
  by_contra hne
  exact hl u hu (goto_place_ne hne)

/-- INTERNAL: the startup has one thread. -/
theorem few_startup (t : Tid) : FewThreads (ThreadState.mThreadStartup t) :=
  fun l hl => lt_of_le_of_lt (card_startup t l hl) (by decide)

/-- INTERNAL: `pthread_create` keeps the number of threads in a run below its limit. -/
theorem few_run (hlimit : limit < 2 ^ 32) {ops : List ThreadOp} {s : ℕ → ThreadState}
    (h : ThreadRun limit ops s) (n : ℕ) (hn : n ≤ ops.length) :
    PauseInv (s n) ∧ FewThreads (s n) := by
  apply Run.inv (fun _ s => PauseInv s ∧ FewThreads s) _ _ h n hn
  · rintro _ ⟨t, rfl⟩
    exact ⟨pauseInv_startup t, few_startup t⟩
  · rintro _ s op s' ⟨hI, hF⟩ hs
    have hsec := section_of_step hI hs
    exact ⟨pauseInv_section hI hsec, few_of_section hlimit hF hsec⟩

/-- INTERNAL: the list is shorter than the counters' range. -/
theorem length_lt (hI : PauseInv s) (hF : FewThreads s) : s.threadList.length < 2 ^ 32 := by
  rw [← List.toFinset_card_of_nodup hI.nodup]
  apply hF
  intro u hu hp
  have hok := hI.placeOk hp
  exact hok.1 (List.mem_toFinset.mp hu)

/-- INTERNAL: the counter of the threads.
SOURCE: m_thread.c:62, 100 -/
theorem threadNum_toNat (hI : PauseInv s) (hF : FewThreads s) :
    s.threadNum.toNat = s.threadList.length := by
  rw [hI.num, BitVec.toNat_ofNat]
  exact Nat.mod_eq_of_lt (length_lt hI hF)

/-- INTERNAL: the counter of the stopped threads. -/
theorem pausedThreadNum_toNat (hI : PauseInv s) (hF : FewThreads s) :
    s.pausedThreadNum.toNat = s.threadList.countP (flagged s) := by
  rw [hI.pausedNum, BitVec.toNat_ofNat]
  exact Nat.mod_eq_of_lt (lt_of_le_of_lt List.countP_le_length (length_lt hI hF))

/-- INTERNAL: the counters are equal when every thread has stopped. -/
theorem counters_eq_iff (hI : PauseInv s) (hF : FewThreads s) :
    s.threadNum = s.pausedThreadNum ↔ ∀ t ∈ s.threadList, flagged s t = true := by
  rw [← BitVec.toNat_inj, threadNum_toNat hI hF, pausedThreadNum_toNat hI hF, eq_comm]
  exact List.countP_eq_length

/-- A counter is changed by one at most, and not decremented at zero. -/
def CounterStep (x y : BitVec 32) : Prop := y = x ∨ y = x + 1 ∨ (y = x - 1 ∧ x ≠ 0)

/-- INTERNAL: the counter of the threads does not underflow. -/
theorem threadNum_ne_zero (hI : PauseInv s) (hF : FewThreads s) (h : t ∈ s.threadList) :
    s.threadNum ≠ 0 := by
  intro h0
  have hlen := threadNum_toNat hI hF
  rw [h0] at hlen
  exact absurd (List.length_pos_of_mem h) (by rw [← hlen]; exact lt_irrefl 0)

/-- INTERNAL: the counter of the stopped threads does not underflow. -/
theorem pausedThreadNum_ne_zero (hI : PauseInv s) (hF : FewThreads s) (h : t ∈ s.threadList)
    (hf : pausedFlag s t = some true) : s.pausedThreadNum ≠ 0 := by
  intro h0
  have hlen := pausedThreadNum_toNat hI hF
  rw [h0] at hlen
  exact absurd (countP_pos h (flagged_iff.mpr hf)) (by rw [← hlen]; exact lt_irrefl 0)

/-- INTERNAL: where a paused thread stands it is listed. -/
theorem listed_of_flag (hI : PauseInv s) (hp : s.place t ≠ .freeStack)
    (hp' : s.place t ≠ .freeRecord) (hf : pausedFlag s t ≠ none) : t ∈ s.threadList := by
  have hok := hI.place t
  cases hq : s.place t
  all_goals rw [hq] at hok
  case absent => exact absurd hok.2 hf
  case outside => exact absurd hok.2 hf
  case register => exact absurd hok.2 hf
  case enterWait =>
    rcases hok with hok | hok
    · exact absurd hok.2 hf
    · exact hok.1
  case freeStack => exact absurd hq hp
  case freeRecord => exact absurd hq hp'
  all_goals exact hok.1

/-- INTERNAL: an entered thread is listed and not flagged. -/
theorem entered_unflagged (hI : PauseInv s) (hp : s.place t = .entered) :
    t ∈ s.threadList ∧ flagged s t = false := by
  have hok := hI.placeOk hp
  refine ⟨hok.1, ?_⟩
  unfold flagged
  rw [hok.2]
  rfl

/-- INTERNAL: a listed thread that is not entered is flagged. -/
theorem flagged_of_listed (hI : PauseInv s) (hm : t ∈ s.threadList) (hp : s.place t ≠ .entered) :
    flagged s t = true := by
  apply flagged_iff.mpr
  have hok := hI.place t
  cases hq : s.place t
  all_goals rw [hq] at hok
  case entered => exact absurd hq hp
  case enterWait => exact (hok.resolve_left fun h => h.1 hm).2
  case absent | outside | register | freeStack | freeRecord => exact absurd hm hok.1
  all_goals exact hok.2

/-- INTERNAL: **how a step moves the counters.** -/
theorem counters_of_section (hI : PauseInv s) (hF : FewThreads s) (h : Section limit s op s') :
    CounterStep s.threadNum s'.threadNum ∧ CounterStep s.pausedThreadNum s'.pausedThreadNum := by
  cases h with
  | move _ _ | stay _ _ | grow _ _ _ => exact ⟨.inl rfl, .inl rfl⟩
  | leave _ _ _ => exact ⟨.inl rfl, .inr (.inl rfl)⟩
  | @signal _ w _ _ => cases w <;> exact ⟨.inl rfl, .inl rfl⟩
  | @check _ _ w _ _ _ _ => cases w <;> exact ⟨.inl rfl, .inr (.inl rfl)⟩
  | pauseAll _ _ _ _ =>
    unfold ThreadState.pauseAllLoop
    split <;> exact ⟨.inl rfl, .inr (.inl rfl)⟩
  | resume _ hp hf _ _ =>
    have hmem : op.thread ∈ s.threadList := listed_of_flag hI
      (by rcases hp with hp | hp | hp <;> simp [hp])
      (by rcases hp with hp | hp | hp <;> simp [hp]) (by rw [hf]; exact Option.some_ne_none _)
    exact ⟨.inl rfl, .inr (.inr ⟨rfl, pausedThreadNum_ne_zero hI hF hmem hf⟩)⟩
  | @finish t _ hp _ =>
    have hok := hI.placeOk hp
    exact ⟨.inl rfl, .inr (.inr ⟨rfl, pausedThreadNum_ne_zero hI hF hok.1 hok.2⟩)⟩
  | register _ => exact ⟨.inr (.inl rfl), .inl rfl⟩
  | @exit t b hp hf =>
    have hmem : t ∈ s.threadList := listed_of_flag hI (by rcases hp with hp | hp <;> simp [hp])
      (by rcases hp with hp | hp <;> simp [hp]) (by rw [hf]; exact Option.some_ne_none _)
    obtain ⟨th, hr, hb⟩ := record_of_pausedFlag hf
    rw [threadKeyDestructor_eq hr, hb]
    refine ⟨.inr (.inr ⟨rfl, threadNum_ne_zero hI hF hmem⟩), ?_⟩
    cases b with
    | true => exact .inr (.inr ⟨rfl, pausedThreadNum_ne_zero hI hF hmem hf⟩)
    | false => exact .inl rfl
  | freeStack _ | freeRecord _ => exact ⟨.inl rfl, .inl rfl⟩

/-- **The pause counters agree with the list and its flags.** In every state of a run
`m_thread_num` is the length of `m_thread_list` and `m_paused_thread_num` the number of listed
threads whose flag is set; no step decrements a counter that is zero.
SOURCE: m_thread.c:50-295, m_gc_obj.c:524-568 -/
theorem counters_agree (hlimit : limit < 2 ^ 32) {ops : List ThreadOp} {s : ℕ → ThreadState}
    (h : ThreadRun limit ops s) :
    (∀ n, n ≤ ops.length → (s n).threadNum.toNat = (s n).threadList.length ∧
      (s n).pausedThreadNum.toNat = ((s n).threadList.filter (flagged (s n))).length) ∧
    ∀ i, i < ops.length → CounterStep (s i).threadNum (s (i + 1)).threadNum ∧
      CounterStep (s i).pausedThreadNum (s (i + 1)).pausedThreadNum := by
  refine ⟨fun n hn => ?_, fun i hi => ?_⟩
  · obtain ⟨hI, hF⟩ := few_run hlimit h n hn
    rw [← List.countP_eq_length_filter]
    exact ⟨threadNum_toNat hI hF, pausedThreadNum_toNat hI hF⟩
  · obtain ⟨hI, hF⟩ := few_run hlimit h i (Nat.le_of_lt hi)
    exact counters_of_section hI hF (section_of_step hI (h.step i hi))

/-! ## Two threads -/

/-- INTERNAL: no one has to be woken while no collector waits. -/
theorem pauseSignal_none (hI : PauseInv s) (hgc : s.gcThread = none) : s.PauseSignal none := by
  intro c hc
  have h := (hI.branch c).mpr (by rw [hc]; rfl)
  rw [hgc] at h
  exact nomatch h

/-- Thread 1 has passed the test of the pause flag in its first `m_thread_enter`. -/
def enteringState : ThreadState :=
  ((ThreadState.mThreadStartup 0).goto 1 .outside).goto 1 .register

/-- The states in which thread 1 enters for the first time. -/
def joiningStates : ℕ → ThreadState
  | 0 => ThreadState.mThreadStartup 0
  | 1 => (ThreadState.mThreadStartup 0).goto 1 .outside
  | 2 => enteringState
  | _ => enteringState.threadRegister 1

/-- INTERNAL: the run in which thread 1 finds that it has no record. -/
theorem run_entering : ThreadRun 2 [.create 1, .enter 1] joiningStates := by
  refine ⟨⟨0, rfl⟩, fun i hi => ?_⟩
  match i, hi with
  | 0, _ => exact .create rfl fun l hl => Nat.lt_succ_of_le (card_startup 0 l hl)
  | 1, _ => exact .enter (.inl rfl) rfl

/-- INTERNAL: the run in which thread 1 is registered. -/
theorem run_joining : ThreadRun 2 [.create 1, .enter 1, .register 1] joiningStates := by
  refine ⟨⟨0, rfl⟩, fun i hi => ?_⟩
  match i, hi with
  | 0, _ => exact run_entering.step 0 (by decide)
  | 1, _ => exact run_entering.step 1 (by decide)
  | 2, _ => exact .register rfl

/-- Two threads in the environment, counted. -/
theorem counters_agree_joined : (joiningStates 3).threadNum.toNat = [0, 1].length :=
  ((counters_agree (by decide) run_joining).1 3 le_rfl).1

end Ming.Analysis
