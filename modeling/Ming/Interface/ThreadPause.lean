import Ming.Foundation.FlagCount
import Ming.Model.Thread

/-!
# What one critical section does

`PlaceOk` says what the list and the paused flag must be for a thread at a given place, and
`PauseInv` adds the counters, the collecting thread and the pause flag. `Section` lists what a
step can do to a state that satisfies the invariant. The later modules look at a step through
`Section` only.
-/

set_option autoImplicit false

namespace Ming.Interface

open Ming.Foundation Ming.Model

/-! ## The paused flag -/

/-- INTERNAL: setting the flag. -/
@[simp] theorem isPaused_set (th : ThreadRecord) :
    ThreadRecord.isPaused { th with flags := th.flags ||| M_THREAD_FL_PAUSED } = true := by
  have h : (th.flags ||| M_THREAD_FL_PAUSED) &&& M_THREAD_FL_PAUSED = 1 := by
    ext i hi
    simp [BitVec.getElem_one]
    grind
  unfold ThreadRecord.isPaused
  rw [h]
  rfl

/-- INTERNAL: clearing the flag. -/
@[simp] theorem isPaused_clear (th : ThreadRecord) :
    ThreadRecord.isPaused { th with flags := th.flags &&& ~~~M_THREAD_FL_PAUSED } = false := by
  have h : (th.flags &&& ~~~M_THREAD_FL_PAUSED) &&& M_THREAD_FL_PAUSED = 0 := by
    rw [BitVec.and_assoc]
    simp
  unfold ThreadRecord.isPaused
  rw [h]
  rfl

/-- INTERNAL: the flag does not depend on the new-born stack. -/
@[simp] theorem isPaused_nbStack (th : ThreadRecord) (b : Option Ptr) :
    ThreadRecord.isPaused { th with nbStack := b } = th.isPaused := rfl

/-- The paused flag of a thread, if it has a record. -/
def pausedFlag (s : ThreadState) (t : Tid) : Option Bool :=
  (s.record t).map ThreadRecord.isPaused

/-- The flag is set. -/
def flagged (s : ThreadState) (t : Tid) : Bool := pausedFlag s t == some true

/-- INTERNAL: a thread is flagged exactly when its record says so. -/
theorem flagged_iff {s : ThreadState} {t : Tid} :
    flagged s t = true ↔ pausedFlag s t = some true := by
  unfold flagged
  exact beq_iff_eq

/-- INTERNAL: a thread with a flag has a record. -/
theorem record_of_pausedFlag {s : ThreadState} {t : Tid} {b : Bool}
    (h : pausedFlag s t = some b) : ∃ th, s.record t = some th ∧ th.isPaused = b :=
  Option.map_eq_some_iff.mp h

/-! ## The invariant -/

/-- The thread is inside the branch of `gc_collect_objs` that pauses, collects and resumes. -/
def inBranch : ThreadPlace → Bool
  | .pauseWait _ | .collect => true
  | _ => false

/-- What the list and the paused flag are for a thread at a place. -/
def PlaceOk : ThreadPlace → Prop → Option Bool → Prop
  | .absent, listed, flag | .outside, listed, flag | .register, listed, flag =>
    ¬ listed ∧ flag = none
  | .enterWait _, listed, flag => (¬ listed ∧ flag = none) ∨ (listed ∧ flag = some true)
  | .entered, listed, flag => listed ∧ flag = some false
  | .leaveSignal, listed, flag | .left, listed, flag | .checkWait _, listed, flag
  | .pauseWait _, listed, flag | .collect, listed, flag => listed ∧ flag = some true
  | .freeStack, listed, flag | .freeRecord, listed, flag => ¬ listed ∧ flag ≠ none

/-- The invariant of the pause protocol while the lock is free. -/
structure PauseInv (s : ThreadState) : Prop where
  place : ∀ t, PlaceOk (s.place t) (t ∈ s.threadList) (pausedFlag s t)
  nodup : s.threadList.Nodup
  num : s.threadNum = BitVec.ofNat 32 s.threadList.length
  pausedNum : s.pausedThreadNum = BitVec.ofNat 32 (s.threadList.countP (flagged s))
  branch : ∀ c, s.gcThread = some c ↔ inBranch (s.place c) = true
  pauseFlag : s.threadPauseFlag = s.gcThread.isSome

/-- INTERNAL: the list and the flag at a known place. -/
theorem PauseInv.placeOk {s : ThreadState} {t : Tid} {p : ThreadPlace} (hI : PauseInv s)
    (hp : s.place t = p) : PlaceOk p (t ∈ s.threadList) (pausedFlag s t) :=
  hp ▸ hI.place t

/-- The existing threads can be counted in 32 bits. -/
def FewThreads (s : ThreadState) : Prop :=
  ∀ l : Finset Tid, (∀ u ∈ l, s.place u ≠ .absent) → l.card < 2 ^ 32

/-! ## The sections -/

/-- `m_paused_thread_num ++` and a record whose flag is set. -/
def pausedAs (s : ThreadState) (t : Tid) (th : ThreadRecord) : ThreadState :=
  { s with pausedThreadNum := s.pausedThreadNum + 1 }.setRecord t (some th)

/-- `m_paused_thread_num --` and a record whose flag is clear. -/
def resumedAs (s : ThreadState) (t : Tid) (th : ThreadRecord) : ThreadState :=
  { s with pausedThreadNum := s.pausedThreadNum - 1 }.setRecord t (some th)

/-- The steps that change the place of their thread only. -/
inductive Move (limit : ℕ) (s : ThreadState) (t : Tid) : ThreadPlace → Prop
  | create : s.place t = .absent → s.CanCreate limit → Move limit s t .outside
  | enterWait : s.place t = .outside ∨ s.place t = .left ∨ s.place t = .enterWait true →
      Move limit s t (.enterWait false)
  | register : s.place t = .outside ∨ s.place t = .enterWait true → s.record t = none →
      s.threadPauseFlag = false → Move limit s t .register
  | enterWoken : s.place t = .enterWait false → Move limit s t (.enterWait true)
  | checkWait : s.place t = .checkWait true → Move limit s t (.checkWait false)
  | checkWoken : s.place t = .checkWait false → Move limit s t (.checkWait true)
  | pauseWait : s.place t = .pauseWait true → s.threadNum ≠ s.pausedThreadNum →
      Move limit s t (.pauseWait false)
  | pauseWoken : s.place t = .pauseWait false → Move limit s t (.pauseWait true)
  | collect : s.place t = .pauseWait true → s.threadNum = s.pausedThreadNum →
      Move limit s t .collect
  | exit : s.place t = .outside → Move limit s t .absent

/-- What a step does to a state that satisfies the invariant. -/
inductive Section (limit : ℕ) (s : ThreadState) : ThreadOp → ThreadState → Prop
  | move (op : ThreadOp) {p : ThreadPlace} : Move limit s op.thread p →
      Section limit s op (s.goto op.thread p)
  | stay (op : ThreadOp) : s.place op.thread = .entered ∨ s.place op.thread = .collect →
      Section limit s op s
  | grow (op : ThreadOp) {th : ThreadRecord} :
      s.place op.thread = .entered ∨ s.place op.thread = .collect →
      pausedFlag s op.thread = some th.isPaused →
      Section limit s op (s.setRecord op.thread (some th))
  | leave (op : ThreadOp) {th : ThreadRecord} : s.place op.thread = .entered →
      th.isPaused = true →
      Section limit s op ((pausedAs s op.thread th).goto op.thread .leaveSignal)
  | signal (op : ThreadOp) {w : Option Tid} : s.place op.thread = .leaveSignal →
      s.PauseSignal w → Section limit s op ((s.signalPause w).goto op.thread .left)
  | check (op : ThreadOp) {th : ThreadRecord} {w : Option Tid} : s.place op.thread = .entered →
      th.isPaused = true → s.threadPauseFlag = true → s.PauseSignal w →
      Section limit s op
        (((pausedAs s op.thread th).signalPause w).goto op.thread (.checkWait false))
  | pauseAll (op : ThreadOp) {th : ThreadRecord} : s.place op.thread = .entered →
      th.isPaused = true → s.gcThread = none →
      Section limit s op ((pausedAs { s with
        gcThread := some op.thread
        threadPauseFlag := true } op.thread th).pauseAllLoop op.thread)
  | resume (op : ThreadOp) {th : ThreadRecord} :
      s.place op.thread = .left ∨ s.place op.thread = .enterWait true ∨
        s.place op.thread = .checkWait true →
      pausedFlag s op.thread = some true → th.isPaused = false → s.threadPauseFlag = false →
      Section limit s op ((resumedAs s op.thread th).goto op.thread .entered)
  | finish {t : Tid} {th : ThreadRecord} : s.place t = .collect → th.isPaused = false →
      Section limit s (.finish t) ({ (resumedAs { s with threadPauseFlag := false } t th
        ).broadcastResume with gcThread := none }.goto t .entered)
  | register {t : Tid} : s.place t = .register →
      Section limit s (.register t) (s.threadRegister t)
  | exit {t : Tid} {b : Bool} : s.place t = .entered ∨ s.place t = .left →
      pausedFlag s t = some b → Section limit s (.exit t) (s.threadKeyDestructor t)
  | freeStack {t : Tid} : s.place t = .freeStack →
      Section limit s (.freeStack t) (s.freeNbStack t)
  | freeRecord {t : Tid} : s.place t = .freeRecord →
      Section limit s (.freeRecord t) (s.freeThread t)

end Ming.Interface
