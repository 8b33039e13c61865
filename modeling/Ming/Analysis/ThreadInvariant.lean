import Ming.Analysis.ThreadSections
import Ming.Foundation.Runs

/-!
# The invariant of the pause protocol

Every section keeps `PauseInv`: the counters agree with the list and its flags, at most one
thread is in the collecting branch, and the pause flag is set exactly while one is.
-/

set_option autoImplicit false

namespace Ming.Analysis

open Ming.Foundation Ming.Model Ming.Interface

variable {limit : ℕ} {s s' : ThreadState} {op : ThreadOp} {t u : Tid} {w : Option Tid}
  {th : ThreadRecord} {p : ThreadPlace}

/-! ## Small facts about the updates -/

/-- INTERNAL: the thread that has moved. -/
@[simp] theorem goto_place_self : (s.goto t p).place t = p := Function.update_self ..

/-- INTERNAL: the other threads have not moved. -/
theorem goto_place_ne (h : u ≠ t) : (s.goto t p).place u = s.place u := Function.update_of_ne h ..

/-- INTERNAL: equal records have equal flags. -/
theorem pausedFlag_congr (h : s'.record u = s.record u) : pausedFlag s' u = pausedFlag s u := by
  unfold pausedFlag
  rw [h]

/-- INTERNAL: equal records are flagged alike. -/
theorem flagged_congr (h : s'.record u = s.record u) : flagged s' u = flagged s u := by
  unfold flagged
  rw [pausedFlag_congr h]

/-- INTERNAL: the flag of a record that was stored. -/
theorem pausedFlag_update (hs : s'.record = Function.update s.record t (some th)) :
    pausedFlag s' t = some th.isPaused := by
  apply pausedFlag_of_record _ rfl
  rw [hs, Function.update_self]

/-! ## Waking threads -/

/-- The place without the mark that the thread has been woken. -/
def asleep : ThreadPlace → ThreadPlace
  | .enterWait _ => .enterWait false
  | .checkWait _ => .checkWait false
  | .pauseWait _ => .pauseWait false
  | q => q

/-- INTERNAL: what is required of a place is required of its wait. -/
theorem placeOk_asleep {listed : Prop} {f : Option Bool} :
    PlaceOk (asleep p) listed f ↔ PlaceOk p listed f := by
  cases p <;> exact Iff.rfl

/-- INTERNAL: a waiting thread is where it waits. -/
theorem inBranch_asleep : inBranch (asleep p) = inBranch p := by
  cases p <;> rfl

/-- INTERNAL: no thread waits before it is there. -/
theorem asleep_eq_absent : asleep p = .absent ↔ p = .absent := by
  cases p <;> simp [asleep]

/-- INTERNAL: waking threads keeps the invariant. -/
theorem pauseInv_of_asleep (hI : PauseInv s) {pl : Tid → ThreadPlace}
    (h : ∀ u, asleep (pl u) = asleep (s.place u)) : PauseInv { s with place := pl } where
  place u := by
    have hok := hI.place u
    rw [← placeOk_asleep, ← h u, placeOk_asleep] at hok
    exact hok
  nodup := hI.nodup
  num := hI.num
  pausedNum := hI.pausedNum
  branch c := by
    rw [hI.branch c, ← inBranch_asleep, ← h c, inBranch_asleep]
  pauseFlag := hI.pauseFlag

/-- INTERNAL: a signal keeps the invariant. -/
theorem pauseInv_signalPause (hI : PauseInv s) (hw : s.PauseSignal w) :
    PauseInv (s.signalPause w) := by
  cases w with
  | none => exact hI
  | some c =>
    apply pauseInv_of_asleep hI
    intro u
    rcases eq_or_ne u c with rfl | hne
    · rw [Function.update_self, show s.place u = .pauseWait false from hw]
      rfl
    · rw [Function.update_of_ne hne]

/-- INTERNAL: a broadcast keeps the invariant. -/
theorem pauseInv_broadcastResume (hI : PauseInv s) : PauseInv s.broadcastResume := by
  apply pauseInv_of_asleep hI
  intro u
  cases s.place u <;> rfl

/-- INTERNAL: a thread that is not waiting for the others is not woken by their signal. -/
theorem signalPause_place (hw : s.PauseSignal w) (ht : s.place t ≠ .pauseWait false) :
    (s.signalPause w).place t = s.place t := by
  cases w with
  | none => rfl
  | some c =>
    apply goto_place_ne
    rintro rfl
    exact ht hw

/-! ## One section -/

/-- INTERNAL: a step that changes the place of its thread only. -/
theorem pauseInv_goto (hI : PauseInv s) (hok : PlaceOk p (t ∈ s.threadList) (pausedFlag s t))
    (hb : inBranch p = inBranch (s.place t)) : PauseInv (s.goto t p) where
  place u := by
    rcases eq_or_ne u t with rfl | hne
    · rw [goto_place_self]
      exact hok
    · rw [goto_place_ne hne]
      exact hI.place u
  nodup := hI.nodup
  num := hI.num
  pausedNum := hI.pausedNum
  branch c := by
    rcases eq_or_ne c t with rfl | hne
    · rw [goto_place_self, hb]
      exact hI.branch c
    · rw [goto_place_ne hne]
      exact hI.branch c
  pauseFlag := hI.pauseFlag

/-- INTERNAL: a move keeps the invariant. -/
theorem pauseInv_move (hI : PauseInv s) (h : Move limit s t p) :
    PauseInv (s.goto t p) := by
  have hok := hI.place t
  cases h with
  | create hp hc =>
    rw [hp] at hok
    exact pauseInv_goto hI hok (by rw [hp]; rfl)
  | enterWait hp =>
    rcases hp with hp | hp | hp
    · rw [hp] at hok
      exact pauseInv_goto hI (.inl hok) (by rw [hp]; rfl)
    · rw [hp] at hok
      exact pauseInv_goto hI (.inr hok) (by rw [hp]; rfl)
    · rw [hp] at hok
      exact pauseInv_goto hI hok (by rw [hp]; rfl)
  | register hp hr hflag =>
    have hnone : pausedFlag s t = none := pausedFlag_eq_none.mpr hr
    rcases hp with hp | hp
    · rw [hp] at hok
      exact pauseInv_goto hI hok (by rw [hp]; rfl)
    · rw [hp] at hok
      refine pauseInv_goto hI (hok.resolve_right fun h => ?_) (by rw [hp]; rfl)
       
      rw [hnone] at h
      exact nomatch h.2
  | exit hp =>
    rw [hp] at hok
    exact pauseInv_goto hI hok (by rw [hp]; rfl)
  | enterWoken hp | checkWait hp | checkWoken hp | pauseWait hp _ | pauseWoken hp | collect hp _ =>
    rw [hp] at hok
    exact pauseInv_goto hI hok (by rw [hp]; rfl)

/-- INTERNAL: the step concerns the record, the place and the list entry of one thread. -/
structure Local (t : Tid) (s s' : ThreadState) : Prop where
  place : ∀ u, u ≠ t → s'.place u = s.place u
  record : ∀ u, u ≠ t → s'.record u = s.record u
  listed : ∀ u, u ≠ t → (u ∈ s'.threadList ↔ u ∈ s.threadList)

/-- INTERNAL: a step of one thread leaves the others where they may be. -/
theorem Local.placeOk (hL : Local t s s') (hI : PauseInv s)
    (ht : PlaceOk (s'.place t) (t ∈ s'.threadList) (pausedFlag s' t)) (u : Tid) :
    PlaceOk (s'.place u) (u ∈ s'.threadList) (pausedFlag s' u) := by
  rcases eq_or_ne u t with rfl | hne
  · exact ht
  · rw [hL.place u hne, pausedFlag_congr (hL.record u hne), propext (hL.listed u hne)]
    exact hI.place u

/-- INTERNAL: a thread outside the collecting branch that stays outside of it. -/
theorem Local.branch (hL : Local t s s') (hI : PauseInv s) (hg : s'.gcThread = s.gcThread)
    (ht : inBranch (s.place t) = false) (ht' : inBranch (s'.place t) = false) (c : Tid) :
    s'.gcThread = some c ↔ inBranch (s'.place c) = true := by
  rw [hg, hI.branch c]
  rcases eq_or_ne c t with rfl | hne
  · rw [ht, ht']
  · rw [hL.place c hne]

/-- INTERNAL: a thread that stops changes its own record. -/
theorem local_pausedAs (th : ThreadRecord) {g : Option Tid} {f : Bool} :
    Local t s ((pausedAs { s with
      gcThread := g
      threadPauseFlag := f } t th).goto t p) :=
  ⟨fun _ => goto_place_ne, fun _ h => Function.update_of_ne h .., fun _ _ => Iff.rfl⟩

/-- INTERNAL: a thread that goes on changes its own record. -/
theorem local_resumedAs (th : ThreadRecord) {g : Option Tid} {f : Bool} :
    Local t s ((resumedAs { s with
      gcThread := g
      threadPauseFlag := f } t th).goto t p) :=
  ⟨fun _ => goto_place_ne, fun _ h => Function.update_of_ne h .., fun _ _ => Iff.rfl⟩

/-- INTERNAL: an entered thread pauses. -/
theorem pauseInv_pausedAs (hI : PauseInv s) (hp : s.place t = .entered)
    (hth : th.isPaused = true) (hok : PlaceOk p True (some true)) {g : Option Tid} {f : Bool}
    (hg : ∀ c, g = some c ↔ inBranch (Function.update s.place t p c) = true)
    (hf : f = g.isSome) : PauseInv ((pausedAs { s with
      gcThread := g
      threadPauseFlag := f } t th).goto t p) := by
  have hL := local_pausedAs th (s := s) (t := t) (p := p) (g := g) (f := f)
  have hold := hI.placeOk hp
  have hflag : pausedFlag ((pausedAs { s with
      gcThread := g
      threadPauseFlag := f } t th).goto t p) t = some true := by
    rw [← hth]
    exact pausedFlag_update rfl
  refine ⟨hL.placeOk hI ?_, hI.nodup, hI.num, ?_, hg, hf⟩
  · rw [goto_place_self, hflag]
    change PlaceOk p (t ∈ s.threadList) (some true)
    rwa [eq_true hold.1]
  · have hcount := countP_raise (p := flagged s) hI.nodup hold.1
      (by unfold flagged; rw [hold.2]; rfl) (flagged_iff.mpr hflag)
      fun b hb => (flagged_congr (hL.record b hb)).symm
    change s.pausedThreadNum + 1 = BitVec.ofNat 32 (List.countP _ s.threadList)
    rw [hcount, BitVec.ofNat_add, hI.pausedNum]
    rfl

/-- INTERNAL: a paused thread is entered again. -/
theorem pauseInv_resumedAs (hI : PauseInv s)
    (hmem : t ∈ s.threadList) (hpf : pausedFlag s t = some true) (hth : th.isPaused = false)
    {g : Option Tid} {f : Bool}
    (hg : ∀ c, g = some c ↔ inBranch (Function.update s.place t .entered c) = true)
    (hf : f = g.isSome) : PauseInv ((resumedAs { s with
      gcThread := g
      threadPauseFlag := f } t th).goto t .entered) := by
  have hL := local_resumedAs th (s := s) (t := t) (p := .entered) (g := g) (f := f)
  have hflag : pausedFlag ((resumedAs { s with
      gcThread := g
      threadPauseFlag := f } t th).goto t .entered) t = some false := by
    rw [← hth]
    exact pausedFlag_update rfl
  refine ⟨hL.placeOk hI ?_, hI.nodup, hI.num, ?_, hg, hf⟩
  · rw [goto_place_self, hflag]
    exact ⟨hmem, rfl⟩
  · have hcount := countP_raise (q := flagged s) hI.nodup hmem
      (by unfold flagged; rw [hflag]; rfl) (flagged_iff.mpr hpf)
      fun b hb => flagged_congr (hL.record b hb)
    change s.pausedThreadNum - 1 = BitVec.ofNat 32 (List.countP _ s.threadList)
    rw [hI.pausedNum, hcount, BitVec.ofNat_add]
    exact BitVec.add_sub_cancel _ _

/-- INTERNAL: the branch is entered by nobody else, and `p` is a place inside it. -/
theorem branch_pauseAll (hI : PauseInv s) (hgc : s.gcThread = none) (hb : inBranch p = true)
    (c : Tid) : some t = some c ↔ inBranch (Function.update s.place t p c) = true := by
  rcases eq_or_ne c t with rfl | hne
  · rw [Function.update_self, hb]
    exact iff_of_true rfl rfl
  · rw [Function.update_of_ne hne]
    refine iff_of_false (fun e => hne (Option.some.inj e).symm) fun h => ?_
    have hc := (hI.branch c).mpr h
    rw [hgc] at hc
    exact nomatch hc

/-- INTERNAL: a thread becomes the collector.
SOURCE: m_thread.c:185-202 -/
theorem pauseInv_pauseAll (hI : PauseInv s) (hp : s.place t = .entered)
    (hth : th.isPaused = true) (hgc : s.gcThread = none) : PauseInv ((pausedAs { s with
      gcThread := some t
      threadPauseFlag := true } t th).pauseAllLoop t) := by
  unfold ThreadState.pauseAllLoop
  split
  · have hok : PlaceOk (.pauseWait false) True (some true) := ⟨trivial, rfl⟩
    exact pauseInv_pausedAs hI hp hth hok (branch_pauseAll hI hgc rfl) rfl
  · have hok : PlaceOk .collect True (some true) := ⟨trivial, rfl⟩
    exact pauseInv_pausedAs hI hp hth hok (branch_pauseAll hI hgc rfl) rfl

/-- INTERNAL: a place outside the branch is exchanged for another one. -/
theorem branch_outside (hI : PauseInv s) (ht : inBranch (s.place t) = false)
    (hb : inBranch p = false) (c : Tid) :
    s.gcThread = some c ↔ inBranch (Function.update s.place t p c) = true := by
  rw [hI.branch c]
  rcases eq_or_ne c t with rfl | hne
  · rw [Function.update_self, hb, ht]
  · rw [Function.update_of_ne hne]

/-- INTERNAL: the collector lets the others go on.
SOURCE: m_thread.c:205-220 -/
theorem pauseInv_finish (hI : PauseInv s) (hp : s.place t = .collect)
    (hth : th.isPaused = false) :
    PauseInv ({ (resumedAs { s with threadPauseFlag := false } t th
      ).broadcastResume with gcThread := none }.goto t .entered) := by
  have hok := hI.placeOk hp
  have hgc : s.gcThread = some t := (hI.branch t).mpr (by rw [hp]; rfl)
  refine pauseInv_resumedAs (pauseInv_broadcastResume hI) hok.1 hok.2 hth (fun c => ?_) rfl
  refine iff_of_false (fun e => nomatch e) fun h => ?_
  rcases eq_or_ne c t with rfl | hne
  · rw [Function.update_self] at h
    exact nomatch h
  · rw [Function.update_of_ne hne] at h
    have hc := ((pauseInv_broadcastResume hI).branch c).mpr h
    exact hne (Option.some.inj (hc.symm.trans hgc))

/-- INTERNAL: a thread is registered.
SOURCE: m_thread.c:80-110 -/
theorem pauseInv_register (hI : PauseInv s) (hp : s.place t = .register) :
    PauseInv (s.threadRegister t) := by
  have hok := hI.placeOk hp
  have hmem : ∀ u, u ∈ (s.threadRegister t).threadList ↔ u ∈ s.threadList ∨ u = t := by
    intro u
    change u ∈ s.threadList ++ [t] ↔ _
    rw [List.mem_append, List.mem_singleton]
  have hL : Local t s (s.threadRegister t) :=
    ⟨fun _ => goto_place_ne, fun _ h => Function.update_of_ne h .., fun u h => by
      rw [hmem u]
      exact or_iff_left h⟩
  have hflag : pausedFlag (s.threadRegister t) t = some false :=
    pausedFlag_of_record (show _ = some ⟨0, none⟩ from Function.update_self ..) rfl
  refine ⟨hL.placeOk hI ?_, ?_, ?_, ?_,
    hL.branch hI rfl (by rw [hp]; rfl) (congrArg inBranch goto_place_self), hI.pauseFlag⟩
  · rw [hflag, show (s.threadRegister t).place t = .entered from goto_place_self]
    exact ⟨(hmem t).mpr (.inr rfl), rfl⟩
  · exact List.nodup_append.mpr ⟨hI.nodup, List.nodup_singleton t, fun a ha b hb e => by
      rw [List.mem_singleton.mp hb] at e
      exact hok.1 (e ▸ ha)⟩
  · change s.threadNum + 1 = BitVec.ofNat 32 (s.threadList ++ [t]).length
    rw [List.length_append, List.length_singleton, BitVec.ofNat_add, hI.num]
    rfl
  · change s.pausedThreadNum = BitVec.ofNat 32 (List.countP _ (s.threadList ++ [t]))
    have ht : flagged (s.threadRegister t) t = false := by
      unfold flagged
      rw [hflag]
      rfl
    rw [List.countP_append, List.countP_singleton, ht, hI.pausedNum]
    congr 1
    apply countP_agree
    intro u hu
    refine (flagged_congr (hL.record u ?_)).symm
    rintro rfl
    exact hok.1 hu

/-- INTERNAL: the destructor of a thread that has a record. -/
theorem threadKeyDestructor_eq (hr : s.record t = some th) :
    s.threadKeyDestructor t = { s with
      threadList := s.threadList.erase t
      threadNum := s.threadNum - 1
      pausedThreadNum := if th.isPaused then s.pausedThreadNum - 1 else s.pausedThreadNum
      }.goto t .freeStack := by
  unfold ThreadState.threadKeyDestructor
  rw [hr]

/-- INTERNAL: a thread exits.
SOURCE: m_thread.c:50-68 -/
theorem pauseInv_exit {b : Bool} (hI : PauseInv s) (hp : s.place t = .entered ∨ s.place t = .left)
    (hpf : pausedFlag s t = some b) : PauseInv (s.threadKeyDestructor t) := by
  have hok := hI.place t
  have hmem : t ∈ s.threadList := by
    rcases hp with hp | hp
    all_goals
      rw [hp] at hok
      exact hok.1
  obtain ⟨th, hr, hb⟩ := record_of_pausedFlag hpf
  rw [threadKeyDestructor_eq hr, hb]
  have hL : Local t s ({ s with
      threadList := s.threadList.erase t
      threadNum := s.threadNum - 1
      pausedThreadNum := if b then s.pausedThreadNum - 1 else s.pausedThreadNum
      }.goto t .freeStack) :=
    ⟨fun _ => goto_place_ne, fun _ _ => rfl, fun u h => List.mem_erase_of_ne h⟩
  have hbranch : inBranch (s.place t) = false := by
    rcases hp with hp | hp
    all_goals
      rw [hp]
      rfl
  refine ⟨hL.placeOk hI ?_, hI.nodup.erase t, ?_, ?_,
    hL.branch hI rfl hbranch (congrArg inBranch goto_place_self), hI.pauseFlag⟩
  · rw [goto_place_self]
    refine ⟨hI.nodup.not_mem_erase, fun h => ?_⟩
    exact nomatch hpf.symm.trans h
  · change s.threadNum - 1 = BitVec.ofNat 32 (s.threadList.erase t).length
    rw [hI.num, length_erase_add_one hmem, BitVec.ofNat_add]
    exact BitVec.add_sub_cancel _ _
  · change (if b then s.pausedThreadNum - 1 else s.pausedThreadNum) =
      BitVec.ofNat 32 ((s.threadList.erase t).countP (flagged s))
    rw [hI.pausedNum, countP_erase (p := flagged s) hmem]
    cases b with
    | true =>
      rw [if_pos rfl, if_pos (flagged_iff.mpr hpf), BitVec.ofNat_add]
      exact BitVec.add_sub_cancel _ _
    | false =>
      have hf : ¬ flagged s t = true := by
        rw [flagged_iff, hpf]
        exact fun e => nomatch e
      rw [if_neg Bool.false_ne_true, if_neg hf, Nat.add_zero]

/-- INTERNAL: a store to a record that keeps the flag of a listed thread. -/
theorem pauseInv_store {r : Option ThreadRecord} (hI : PauseInv s)
    (hb : inBranch p = inBranch (s.place t))
    (hok : PlaceOk p (t ∈ s.threadList) (r.map ThreadRecord.isPaused))
    (hf : t ∈ s.threadList → r.map ThreadRecord.isPaused = pausedFlag s t) :
    PauseInv ((s.setRecord t r).goto t p) := by
  have hL : Local t s ((s.setRecord t r).goto t p) :=
    ⟨fun _ => goto_place_ne, fun _ h => Function.update_of_ne h .., fun _ _ => Iff.rfl⟩
  have hflag : pausedFlag ((s.setRecord t r).goto t p) t = r.map ThreadRecord.isPaused :=
    congrArg (Option.map _) (show (s.setRecord t r).record t = r from Function.update_self ..)
  refine ⟨hL.placeOk hI ?_, hI.nodup, hI.num, ?_, fun c => ?_, hI.pauseFlag⟩
  · rw [goto_place_self, hflag]
    exact hok
  · refine hI.pausedNum.trans (congrArg _ (countP_agree fun u hu => ?_))
    unfold flagged
    rcases eq_or_ne u t with rfl | hne
    · rw [hflag, hf hu]
    · rw [pausedFlag_congr (hL.record u hne)]
  · refine (hI.branch c).trans ?_
    rcases eq_or_ne c t with rfl | hne
    · rw [goto_place_self, hb]
    · rw [hL.place c hne]

/-- INTERNAL: **every section keeps the invariant.**
SOURCE: m_thread.c:50-295, m_gc_obj.c:524-568 -/
theorem pauseInv_section (hI : PauseInv s) (h : Section limit s op s') : PauseInv s' := by
  cases h with
  | move _ hm => exact pauseInv_move hI hm
  | stay _ _ => exact hI
  | @grow _ th hp hf =>
    have hgoto : s.setRecord op.thread (some th) =
        (s.setRecord op.thread (some th)).goto op.thread (s.place op.thread) := by
      unfold ThreadState.goto ThreadState.setRecord
      rw [Function.update_eq_self]
    have hok := hI.place op.thread
    rw [hf] at hok
    rw [hgoto]
    exact pauseInv_store hI rfl hok fun _ => hf.symm
  | leave _ hp hth =>
    have hok : PlaceOk .leaveSignal True (some true) := ⟨trivial, rfl⟩
    exact pauseInv_pausedAs hI hp hth hok (branch_outside hI (by rw [hp]; rfl) rfl) hI.pauseFlag
  | @signal _ w hp hw =>
    have hpl := signalPause_place (t := op.thread) hw (by simp [hp])
    rw [hp] at hpl
    have hI' := pauseInv_signalPause hI hw
    have hok := hI'.placeOk hpl
    exact pauseInv_goto hI' hok (by rw [hpl]; rfl)
  | @check _ th w hp hth hflag hw =>
    have hpl := signalPause_place (t := op.thread) hw (by simp [hp])
    rw [hp] at hpl
    have hI' := pauseInv_signalPause hI hw
    have hok : PlaceOk (.checkWait false) True (some true) := ⟨trivial, rfl⟩
    have h := pauseInv_pausedAs hI' hpl hth hok (branch_outside hI' (by rw [hpl]; rfl) rfl)
      hI'.pauseFlag
    cases w <;> exact h
  | pauseAll _ hp hth hgc => exact pauseInv_pauseAll hI hp hth hgc
  | resume _ hp hpf hth hflag =>
    have hok := hI.place op.thread
    have hmem : op.thread ∈ s.threadList := by
      rcases hp with hp | hp | hp
      all_goals rw [hp, hpf] at hok
      · exact hok.1
      · exact (hok.resolve_left fun h => nomatch h.2).1
      · exact hok.1
    exact pauseInv_resumedAs hI hmem hpf hth
      (branch_outside hI (by rcases hp with hp | hp | hp <;> rw [hp] <;> rfl) rfl) hI.pauseFlag
  | finish hp hth => exact pauseInv_finish hI hp hth
  | register hp => exact pauseInv_register hI hp
  | exit hp hpf => exact pauseInv_exit hI hp hpf
  | @freeStack t hp =>
    have hok := hI.placeOk hp
    refine pauseInv_store hI (by rw [hp]; rfl) ⟨hok.1, fun h => hok.2 ?_⟩
      fun hmem => absurd hmem hok.1
    rw [Option.map_eq_none_iff, Option.map_eq_none_iff] at h
    exact pausedFlag_eq_none.mpr h
  | @freeRecord t hp =>
    have hok := hI.placeOk hp
    exact pauseInv_store hI (by rw [hp]; rfl) ⟨hok.1, rfl⟩
      fun hmem => absurd hmem hok.1

end Ming.Analysis
