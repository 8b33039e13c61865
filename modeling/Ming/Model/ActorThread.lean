import Ming.Model.SList
import Ming.Model.Thread

/-!
# Actor threads (m_thread.c)

The threads that `m_thread_create` starts wait in `thread_entry` until `m_thread_shutdown` sets
`thread_exit_flag` and wakes them; the shutdown then joins them one by one and frees their
records. The flag is guarded by `m_thread_lock`, and a step is a critical section of an actor
thread, or one action of a thread that creates or shuts down. The creation tests the flag and
changes the list without a lock: calls of it follow one another here, and each may overlap the
shutdown. The records are linked through their first field, so a record and its node have one
address.
-/

set_option autoImplicit false

namespace Ming.Model

open Ming.Foundation

/-- Where an actor thread stands. -/
inductive ActorPlace where
  /-- There is no such thread. -/
  | absent
  /-- Before the lock of `thread_entry`. -/
  | ready
  /-- In the wait of `thread_entry`; the argument tells whether the thread has been woken. -/
  | waiting (woken : Bool)
  /-- `thread_entry` has returned. -/
  | ended
  /-- `pthread_join` has returned. -/
  | joined
  deriving DecidableEq, Repr

/-- What `pthread_cond_broadcast (&thread_active_cond)` does to a waiter. -/
def ActorPlace.woken : ActorPlace → ActorPlace
  | .waiting _ => .waiting true
  | p => p

/-- Where the call of `m_thread_create` stands that is under way. -/
inductive CreatorPlace where
  /-- There is no such call. -/
  | outside
  /-- Behind the test of `thread_exit_flag`. -/
  | entered
  /-- After the `pthread_create`. -/
  | creating (node : ℕ)
  deriving DecidableEq, Repr

/-- Where the thread stands that shuts down. -/
inductive MainPlace where
  /-- Before `m_thread_shutdown`. -/
  | running
  /-- After the unlock of `m_thread_shutdown`. -/
  | stopping
  /-- At the body of the loop, with the saved next record. -/
  | joining (node nnode : ℕ)
  /-- After the `pthread_join` of the body. -/
  | freeing (node nnode : ℕ)
  /-- Behind the loop. -/
  | done
  deriving DecidableEq, Repr

/-- `actor_thread_list` with the fields of the allocated records, `thread_exit_flag`, and the
place of every thread.
SOURCE: m_thread.c:31-47 -/
structure ActorState where
  links : MSListMem Unit
  thread : ℕ → Option Tid
  threadExitFlag : Bool
  place : Tid → ActorPlace
  creator : CreatorPlace
  main : MainPlace

namespace ActorState

/-- The record at `p` is allocated. -/
def live (s : ActorState) (p : ℕ) : Bool := (s.thread p).isSome

/-- `actor_thread_list` -/
def head : MSListRef Unit := .var ()

/-- The actor thread goes to a new place. -/
def goto (s : ActorState) (t : Tid) (p : ActorPlace) : ActorState :=
  { s with place := Function.update s.place t p }

/-- What `m_thread_startup` leaves of it. SOURCE: m_thread.c:142-145 -/
def startup (next : ℕ → ℕ) : ActorState :=
  ⟨⟨fun _ => 0, next⟩, fun _ => none, false, fun _ => .absent, .outside, .running⟩

/-! ## The actor threads -/

/-- `thread_entry` from the test of its loop on, up to its return or the next wait.
SOURCE: m_thread.c:112-123 -/
def threadEntry (s : ActorState) (t : Tid) : ActorState :=
  if s.threadExitFlag then s.goto t .ended else s.goto t (.waiting false)

/-! ## Creation -/

/-- `m_thread_create` up to its test of the flag, which takes no lock. SOURCE: m_thread.c:303-304 -/
def mThreadCreate (s : ActorState) : ActorState :=
  if s.threadExitFlag then s else { s with creator := .entered }

/-- `m_thread_create` up to the test of `r`: `buf` is the result of `m_gc_alloc_buf`, and `t` the
thread that `pthread_create` starts, if it does.
SOURCE: m_thread.c:306-315 -/
def startThread (s : ActorState) (buf : Option ℕ) (t : Option Tid) : ActorState :=
  match buf, t with
  | some node, some t =>
    { s with thread := Function.update s.thread node (some t), creator := .creating node }.goto t
      .ready
  -- the record is not allocated, or freed again
  | _, _ => { s with creator := .outside }

/-- `m_slist_push` at the end of `m_thread_create`. SOURCE: m_thread.c:317-318 -/
def pushThread (s : ActorState) (node : ℕ) : Outcome ActorState := do
  let links ← mSListPush s.live s.links head node
  pure { s with links := links, creator := .outside }

/-! ## Shutdown -/

/-- `m_thread_shutdown` up to its unlock. SOURCE: m_thread.c:150-161 -/
def mThreadShutdown (s : ActorState) : ActorState :=
  { s with threadExitFlag := true, main := .stopping }

/-- The test of the loop over `actor_thread_list`. -/
def joinTest (s : ActorState) (node : ℕ) : Outcome ActorState :=
  if node = 0 then .ok { s with main := .done }
  else do
    let nnode ← s.links.load s.live (.addr node)
    pure { s with main := .joining node nnode }

/-- The broadcast, and the loop up to its first body. SOURCE: m_thread.c:163-165 -/
def broadcastActive (s : ActorState) : Outcome ActorState := do
  let s := { s with place := fun t => (s.place t).woken }
  let node ← s.links.load s.live head
  s.joinTest node

/-- `pthread_join (node->thread, NULL)`, when the thread has ended. A thread that does not exist
or was joined before cannot be joined. SOURCE: m_thread.c:166 -/
def joinThread (s : ActorState) (node nnode : ℕ) : Outcome ActorState :=
  match s.thread node with
  | none => .error .unmapped
  | some t =>
    match s.place t with
    | .absent => .error .assertFailed
    | .joined => .error .assertFailed
    | _ => .ok { s.goto t .joined with main := .freeing node nnode }

/-- `m_gc_free_buf (node, …)`, and the loop up to its next body. A record that is not allocated
cannot be freed. SOURCE: m_thread.c:167 -/
def freeThread (s : ActorState) (node nnode : ℕ) : Outcome ActorState :=
  match s.thread node with
  | none => .error .unmapped
  | some _ => { s with thread := Function.update s.thread node none }.joinTest nnode

end ActorState

/-! ## Steps -/

/-- A critical section of an actor thread, an action of the call of `m_thread_create`, or one of
`m_thread_shutdown`. -/
inductive ActorOp where
  | create
  | start (buf : Option ℕ) (t : Option Tid)
  | push
  | lock (t : Tid)
  | wake (t : Tid)
  | again (t : Tid)
  | shutdown
  | broadcast
  | join
  | free
  deriving DecidableEq, Repr

/-- A wait may end at any time. A buffer is not allocated yet, and a new thread does not exist
yet. `pthread_join` returns when the thread has ended. -/
inductive ActorStep : ActorState → ActorOp → ActorState → Prop
  | create {s : ActorState} : s.creator = .outside → ActorStep s .create s.mThreadCreate
  | start {s : ActorState} {buf : Option ℕ} {t : Option Tid} : s.creator = .entered →
      (∀ node, buf = some node → node ≠ 0 ∧ s.thread node = none) →
      (∀ u, t = some u → s.place u = .absent) →
      ActorStep s (.start buf t) (s.startThread buf t)
  | push {s s' : ActorState} {node : ℕ} : s.creator = .creating node →
      s.pushThread node = .ok s' → ActorStep s .push s'
  | lock {s : ActorState} {t : Tid} : s.place t = .ready → ActorStep s (.lock t) (s.threadEntry t)
  | wake {s : ActorState} {t : Tid} : s.place t = .waiting false →
      ActorStep s (.wake t) (s.goto t (.waiting true))
  | again {s : ActorState} {t : Tid} : s.place t = .waiting true →
      ActorStep s (.again t) (s.threadEntry t)
  | shutdown {s : ActorState} : s.main = .running → ActorStep s .shutdown s.mThreadShutdown
  | broadcast {s s' : ActorState} : s.main = .stopping → s.broadcastActive = .ok s' →
      ActorStep s .broadcast s'
  | join {s s' : ActorState} {node nnode : ℕ} : s.main = .joining node nnode →
      (∀ t, s.thread node = some t → s.place t = .ended ∨ s.place t = .joined) →
      s.joinThread node nnode = .ok s' → ActorStep s .join s'
  | free {s s' : ActorState} {node nnode : ℕ} : s.main = .freeing node nnode →
      s.freeThread node nnode = .ok s' → ActorStep s .free s'

end Ming.Model
