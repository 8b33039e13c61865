import Ming.Foundation.Outcome
import Ming.Model.CommonTypes
import Mathlib.Data.Finset.Card
import Mathlib.Logic.Function.Basic

/-!
# Threads and the pause protocol (m_thread.c, gc_collect_objs)

The shared state is guarded by `m_gc_lock`. A thread runs as a sequence of critical sections,
each of which begins when the lock is taken (or taken again after a condition wait) and ends
when the lock is released (by an unlock or by the start of a wait). One section is one
function below, and a step of the system is one section of one thread; between two steps the
lock is free. The place of a thread tells which section comes next. The list
`m_thread_list` names each record by the thread whose key holds it.
-/

set_option autoImplicit false

namespace Ming.Model

open Ming.Foundation

/-- A thread of the operating system. -/
abbrev Tid := ℕ

/-- The thread has stopped for a collection. SOURCE: m_thread.h:31 -/
abbrev M_THREAD_FL_PAUSED : BitVec 32 := 1

/-- The fields of `M_Thread` that the protocol uses; `nbStack` is the allocated buffer of the
new-born stack, if there is one.
SOURCE: m_thread.h:33-41 -/
structure ThreadRecord where
  flags : BitVec 32
  nbStack : Option Ptr
  deriving DecidableEq, Repr

/-- `th->flags & M_THREAD_FL_PAUSED` -/
def ThreadRecord.isPaused (th : ThreadRecord) : Bool := th.flags &&& M_THREAD_FL_PAUSED ≠ 0

/-- Where a thread stands while it does not hold the lock. In the waits the argument tells
whether the thread has been woken and waits for the lock. -/
inductive ThreadPlace where
  /-- There is no such thread. -/
  | absent
  /-- `m_thread_enter` has not been called yet. -/
  | outside
  /-- In the wait of `m_thread_enter`. -/
  | enterWait (woken : Bool)
  /-- After the unlock of `m_thread_enter`, before the lock of `thread_register`. -/
  | register
  /-- Running in the ming environment. -/
  | entered
  /-- After the unlock of `m_thread_leave`, before its signal. -/
  | leaveSignal
  /-- After `m_thread_leave`. -/
  | left
  /-- In the wait of `m_thread_check_nl`. -/
  | checkWait (woken : Bool)
  /-- In the wait of `m_thread_pause_all`. -/
  | pauseWait (woken : Bool)
  /-- In `gc_collect_objs`, between `m_thread_pause_all` and `m_thread_resume_all`. -/
  | collect
  /-- After the unlock of `thread_key_destructor`. -/
  | freeStack
  /-- In `thread_key_destructor`, before the record is freed. -/
  | freeRecord
  deriving DecidableEq, Repr

/-- The state that `m_gc_lock` guards, and the place of every thread. `record` is the record
that `m_thread_key` holds for a thread, as long as it is allocated. -/
structure ThreadState where
  threadList : List Tid
  threadNum : BitVec 32
  pausedThreadNum : BitVec 32
  threadPauseFlag : Bool
  gcThread : Option Tid
  record : Tid → Option ThreadRecord
  place : Tid → ThreadPlace

namespace ThreadState

/-- The thread leaves the lock at a new place. -/
def goto (s : ThreadState) (t : Tid) (p : ThreadPlace) : ThreadState :=
  { s with place := Function.update s.place t p }

/-- A store to the fields of a record. -/
def setRecord (s : ThreadState) (t : Tid) (th : Option ThreadRecord) : ThreadState :=
  { s with record := Function.update s.record t th }

/-- `m_thread_self`: the assertion that the key holds a record. -/
def self (s : ThreadState) (t : Tid) : Outcome ThreadRecord :=
  match s.record t with
  | none => .error .assertFailed
  | some th => pure th

/-- `m_paused_thread_num ++; th->flags |= M_THREAD_FL_PAUSED` -/
def markPaused (s : ThreadState) (t : Tid) (th : ThreadRecord) : ThreadState :=
  { s with pausedThreadNum := s.pausedThreadNum + 1 }.setRecord t
    (some { th with flags := th.flags ||| M_THREAD_FL_PAUSED })

/-- `m_paused_thread_num --; th->flags &= ~M_THREAD_FL_PAUSED` -/
def markResumed (s : ThreadState) (t : Tid) (th : ThreadRecord) : ThreadState :=
  { s with pausedThreadNum := s.pausedThreadNum - 1 }.setRecord t
    (some { th with flags := th.flags &&& ~~~M_THREAD_FL_PAUSED })

/-- `pthread_cond_signal (&thread_pause_cond)`, when `w` is the waiter that it wakes. -/
def signalPause (s : ThreadState) : Option Tid → ThreadState
  | none => s
  | some c => s.goto c (.pauseWait true)

/-- The signal wakes a blocked waiter if there is one. -/
def PauseSignal (s : ThreadState) : Option Tid → Prop
  | none => ∀ c, s.place c ≠ .pauseWait false
  | some c => s.place c = .pauseWait false

end ThreadState

/-- What `pthread_cond_broadcast (&thread_resume_cond)` does to a waiter. -/
def ThreadPlace.resumed : ThreadPlace → ThreadPlace
  | .enterWait _ => .enterWait true
  | .checkWait _ => .checkWait true
  | p => p

namespace ThreadState

/-- `pthread_cond_broadcast (&thread_resume_cond)` -/
def broadcastResume (s : ThreadState) : ThreadState :=
  { s with place := fun u => (s.place u).resumed }

/-- `m_thread_pause_all` from the test of its loop on. -/
def pauseAllLoop (s : ThreadState) (t : Tid) : ThreadState :=
  if s.threadNum ≠ s.pausedThreadNum then s.goto t (.pauseWait false) else s.goto t .collect

/-- `m_thread_pause_all`, up to its return or its first wait. -/
def mThreadPauseAll (s : ThreadState) (t : Tid) : Outcome ThreadState := do
  let th ← s.self t
  if th.isPaused then .error .assertFailed
  else pure (pauseAllLoop ({ s with threadPauseFlag := true }.markPaused t th) t)

/-- `m_thread_resume_all` -/
def mThreadResumeAll (s : ThreadState) (t : Tid) : Outcome ThreadState := do
  let th ← s.self t
  if th.isPaused then
    pure ({ s with threadPauseFlag := false }.markResumed t th).broadcastResume
  else .error .assertFailed

/-- `m_thread_leave`, up to its unlock. -/
def mThreadLeave (s : ThreadState) (t : Tid) : Outcome ThreadState := do
  let th ← s.self t
  if th.isPaused then .error .assertFailed
  else pure ((s.markPaused t th).goto t .leaveSignal)

/-- `m_thread_enter` from the test of its loop on, up to its unlock or the next wait. -/
def mThreadEnter (s : ThreadState) (t : Tid) : Outcome ThreadState :=
  if s.threadPauseFlag then pure (s.goto t (.enterWait false))
  else
    match s.record t with
    | none => pure (s.goto t .register)
    | some th =>
      if th.isPaused then pure ((s.markResumed t th).goto t .entered)
      else .error .assertFailed

/-- `thread_register`. The record becomes visible to others in the critical section only. -/
def threadRegister (s : ThreadState) (t : Tid) : ThreadState :=
  let s := s.setRecord t (some ⟨0, none⟩)
  { s with
    threadNum := s.threadNum + 1
    threadList := s.threadList ++ [t] }.goto t .entered

/-- `m_thread_startup`: the registered thread `t` and no other. -/
def mThreadStartup (t : Tid) : ThreadState :=
  threadRegister ⟨[], 0, 0, false, none, fun _ => none, fun _ => .absent⟩ t

/-- `m_thread_check_nl` from the test of its loop on. -/
def checkLoop (s : ThreadState) (t : Tid) : Outcome ThreadState :=
  if s.threadPauseFlag then pure (s.goto t (.checkWait false))
  else do
    let th ← s.self t
    pure ((s.markResumed t th).goto t .entered)

/-- `m_thread_check_nl`, up to its return or its first wait; `w` is the waiter that its signal
wakes. -/
def mThreadCheckNl (s : ThreadState) (t : Tid) (w : Option Tid) : Outcome ThreadState := do
  let th ← s.self t
  if th.isPaused then .error .assertFailed
  else if s.threadPauseFlag then checkLoop ((s.markPaused t th).signalPause w) t
  else pure s

/-- `gc_collect_objs`, up to its return, its unlock or its first wait.
SOURCE: m_gc_obj.c:524-568 -/
def gcCollectObjs (s : ThreadState) (t : Tid) (w : Option Tid) : Outcome ThreadState := do
  let _ ← s.self t
  match s.gcThread with
  | none => mThreadPauseAll { s with gcThread := some t } t
  | some c => if t ≠ c then mThreadCheckNl s t w else pure s

/-- `gc_collect_objs` from the relock after the collection on. -/
def gcCollectFinish (s : ThreadState) (t : Tid) : Outcome ThreadState := do
  let s ← mThreadResumeAll s t
  pure ({ s with gcThread := none }.goto t .entered)

/-- `m_gc_alloc_obj`: `pool` tells whether a cell pool is found or mapped, `grow` is the buffer
that the realloc of a full new-born stack returns, `need` tells whether the allocated sizes ask
for a collection.
SOURCE: m_gc_obj.c:570-645, 756-770 -/
def mGCAllocObj (s : ThreadState) (t : Tid) (w : Option Tid) (pool : Bool) (grow : Option Ptr)
    (need : Bool) : Outcome ThreadState :=
  if pool then do
    let th ← s.self t
    let s := s.setRecord t (some { th with nbStack := grow.or th.nbStack })
    if need then gcCollectObjs s t w else pure s
  else pure s

/-- `thread_key_destructor`, up to its unlock; without a record it is not called and the
thread ends. -/
def threadKeyDestructor (s : ThreadState) (t : Tid) : ThreadState :=
  match s.record t with
  | none => s.goto t .absent
  | some th =>
    { s with
      threadList := s.threadList.erase t
      threadNum := s.threadNum - 1
      pausedThreadNum := if th.isPaused then s.pausedThreadNum - 1 else s.pausedThreadNum
      }.goto t .freeStack

/-- `m_gc_free_buf (th->nb_stack, …)` in `thread_key_destructor`. -/
def freeNbStack (s : ThreadState) (t : Tid) : ThreadState :=
  (s.setRecord t ((s.record t).map fun th => { th with nbStack := none })).goto t .freeRecord

/-- `m_gc_free_buf (th, …)` in `thread_key_destructor`. -/
def freeThread (s : ThreadState) (t : Tid) : ThreadState :=
  (s.setRecord t none).goto t .absent

/-- `pthread_create` can succeed: fewer than `limit` threads exist. -/
def CanCreate (s : ThreadState) (limit : ℕ) : Prop :=
  ∀ l : Finset Tid, (∀ u ∈ l, s.place u ≠ .absent) → l.card < limit

end ThreadState

/-- The critical sections, and what happens to a thread between them. -/
inductive ThreadOp where
  | create (t : Tid)
  | enter (t : Tid)
  | register (t : Tid)
  | leave (t : Tid)
  | signal (t : Tid) (w : Option Tid)
  | check (t : Tid) (w : Option Tid)
  | alloc (t : Tid) (w : Option Tid) (pool : Bool) (grow : Option Ptr) (need : Bool)
  | run (t : Tid) (w : Option Tid)
  | wake (t : Tid)
  | enterAgain (t : Tid)
  | checkAgain (t : Tid)
  | pauseAgain (t : Tid)
  | finish (t : Tid)
  | exit (t : Tid)
  | freeStack (t : Tid)
  | freeRecord (t : Tid)

/-- The thread that takes the step. -/
def ThreadOp.thread : ThreadOp → Tid
  | .create t | .enter t | .register t | .leave t | .signal t _ | .check t _ | .alloc t _ _ _ _
  | .run t _ | .wake t | .enterAgain t | .checkAgain t | .pauseAgain t | .finish t | .exit t
  | .freeStack t | .freeRecord t => t

/-- The operating system lets a thread take the lock for its next section. A wait may end at
any time; a thread may exit outside, inside and after leaving the environment. -/
inductive ThreadStep (limit : ℕ) : ThreadState → ThreadOp → ThreadState → Prop
  | create {s : ThreadState} {t : Tid} : s.place t = .absent → s.CanCreate limit →
      ThreadStep limit s (.create t) (s.goto t .outside)
  | enter {s s' : ThreadState} {t : Tid} : s.place t = .outside ∨ s.place t = .left →
      s.mThreadEnter t = .ok s' → ThreadStep limit s (.enter t) s'
  | register {s : ThreadState} {t : Tid} : s.place t = .register →
      ThreadStep limit s (.register t) (s.threadRegister t)
  | leave {s s' : ThreadState} {t : Tid} : s.place t = .entered → s.mThreadLeave t = .ok s' →
      ThreadStep limit s (.leave t) s'
  | signal {s : ThreadState} {t : Tid} {w : Option Tid} : s.place t = .leaveSignal →
      s.PauseSignal w → ThreadStep limit s (.signal t w) ((s.signalPause w).goto t .left)
  | check {s s' : ThreadState} {t : Tid} {w : Option Tid} : s.place t = .entered →
      s.PauseSignal w → s.mThreadCheckNl t w = .ok s' → ThreadStep limit s (.check t w) s'
  | alloc {s s' : ThreadState} {t : Tid} {w : Option Tid} {pool need : Bool}
      {grow : Option Ptr} : s.place t = .entered ∨ s.place t = .collect → s.PauseSignal w →
      s.mGCAllocObj t w pool grow need = .ok s' →
      ThreadStep limit s (.alloc t w pool grow need) s'
  | run {s s' : ThreadState} {t : Tid} {w : Option Tid} :
      s.place t = .entered ∨ s.place t = .collect → s.PauseSignal w →
      s.gcCollectObjs t w = .ok s' → ThreadStep limit s (.run t w) s'
  | wakeEnter {s : ThreadState} {t : Tid} : s.place t = .enterWait false →
      ThreadStep limit s (.wake t) (s.goto t (.enterWait true))
  | wakeCheck {s : ThreadState} {t : Tid} : s.place t = .checkWait false →
      ThreadStep limit s (.wake t) (s.goto t (.checkWait true))
  | wakePause {s : ThreadState} {t : Tid} : s.place t = .pauseWait false →
      ThreadStep limit s (.wake t) (s.goto t (.pauseWait true))
  | enterAgain {s s' : ThreadState} {t : Tid} : s.place t = .enterWait true →
      s.mThreadEnter t = .ok s' → ThreadStep limit s (.enterAgain t) s'
  | checkAgain {s s' : ThreadState} {t : Tid} : s.place t = .checkWait true →
      s.checkLoop t = .ok s' → ThreadStep limit s (.checkAgain t) s'
  | pauseAgain {s : ThreadState} {t : Tid} : s.place t = .pauseWait true →
      ThreadStep limit s (.pauseAgain t) (s.pauseAllLoop t)
  | finish {s s' : ThreadState} {t : Tid} : s.place t = .collect →
      s.gcCollectFinish t = .ok s' → ThreadStep limit s (.finish t) s'
  | exit {s : ThreadState} {t : Tid} :
      s.place t = .outside ∨ s.place t = .entered ∨ s.place t = .left →
      ThreadStep limit s (.exit t) (s.threadKeyDestructor t)
  | freeStack {s : ThreadState} {t : Tid} : s.place t = .freeStack →
      ThreadStep limit s (.freeStack t) (s.freeNbStack t)
  | freeRecord {s : ThreadState} {t : Tid} : s.place t = .freeRecord →
      ThreadStep limit s (.freeRecord t) (s.freeThread t)

end Ming.Model
