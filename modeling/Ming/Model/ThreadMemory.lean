import Ming.Model.GCObj
import Ming.Model.HashTraverse
import Ming.Model.List
import Ming.Model.Thread

/-!
# The thread list in memory (m_thread.c, gc_mark_nb_stacks)

Every thread has its `M_Thread` in a block of `m_gc_alloc_buf`, and the blocks of the registered
threads are linked into `m_thread_list`. The list functions stand here with a test of the blocks
that they access; the list node is the first member of the record. A section of a thread does
to the memory what follows, and to the rest of the state what the pause protocol says.
-/

set_option autoImplicit false

namespace Ming.Model

open Ming.Foundation

/-! ## The list -/

section ThreadList

variable (ok : Ptr → Bool) (m : MListMem)

/-- `p->prev` or `p->next`, where `p` can be accessed. -/
def loadIf (d : MLink) (p : Ptr) : Outcome Ptr :=
  if ok p then m.load d p else .error .unmapped

/-- `p->prev = v` or `p->next = v` -/
def storeIf (d : MLink) (p v : Ptr) : Outcome MListMem :=
  if ok p then m.store d p v else .error .unmapped

/-- SOURCE: m_list.h:143-152 -/
def threadListAppend (head node : Ptr) : Outcome MListMem :=
  if head = NULL ∨ node = NULL then .error .assertFailed
  else do
    let m ← storeIf ok m .prev node (← loadIf ok m .prev head)
    let m ← storeIf ok m .next node head
    let m ← storeIf ok m .next (← loadIf ok m .prev head) node
    storeIf ok m .prev head node

/-- SOURCE: m_list.h:174-179 -/
def threadListRemove (node : Ptr) : Outcome MListMem := do
  let m ← storeIf ok m .next (← loadIf ok m .prev node) (← loadIf ok m .next node)
  storeIf ok m .prev (← loadIf ok m .next node) (← loadIf ok m .prev node)

end ThreadList

/-! ## The records -/

/-- The state of the threads, the links of the records, the record that `m_thread_key` holds for
every thread, and the blocks that are allocated. -/
structure ThreadMemory where
  state : ThreadState
  list : MListMem
  self : Tid → Ptr
  live : Ptr → Bool

namespace ThreadMemory

/-- The head of the list, or a record that is allocated. -/
def reach (live : Ptr → Bool) (head p : Ptr) : Bool := decide (p = head) || live p

variable (x : ThreadMemory) (head : Ptr)

/-- `thread_register`; `answer` is the address that `m_gc_alloc_buf` returns.
SOURCE: m_thread.c:80-110 -/
def register (t : Tid) (answer : Ptr) (s' : ThreadState) : Outcome ThreadMemory :=
  -- `m_assert_alloc`
  if answer = NULL then .error .assertFailed
  else do
    let live := Function.update x.live answer true
    let list ← threadListAppend (reach live head) x.list head answer
    pure ⟨s', list, Function.update x.self t answer, live⟩

/-- `thread_key_destructor`, up to its unlock. SOURCE: m_thread.c:50-68 -/
def exit (t : Tid) (s' : ThreadState) : Outcome ThreadMemory :=
  if x.state.record t = none then pure { x with state := s' }
  else do
    let list ← threadListRemove (reach x.live head) x.list (x.self t)
    pure { x with state := s', list := list }

/-- `m_gc_free_buf (th, …)` in `thread_key_destructor`. SOURCE: m_thread.c:75 -/
def freeRecord (t : Tid) (s' : ThreadState) : Outcome ThreadMemory :=
  if x.live (x.self t) then
    pure { x with state := s', live := Function.update x.live (x.self t) false }
  else .error .unmapped

/-- What a section does, when the pause protocol goes to `s'`. -/
def exec (answer : Ptr) (s' : ThreadState) : ThreadOp → Outcome ThreadMemory
  | .register t => x.register head t answer s'
  | .exit t => x.exit head t s'
  | .freeRecord t => x.freeRecord t s'
  | _ => pure { x with state := s' }

/-- `m_thread_startup` in memory that holds anything. SOURCE: m_thread.c:124-147 -/
def mThreadStartup (t : Tid) (answer : Ptr) (m : MListMem) (self : Tid → Ptr) :
    Outcome ThreadMemory := do
  let list ← mListInit m head
  let before := ⟨[], 0, 0, false, none, fun _ => none, fun _ => .absent⟩
  ThreadMemory.register ⟨before, list, self, fun _ => false⟩ head t answer
    (ThreadState.mThreadStartup t)

/-- `gc_mark_nb_stacks` over the list in memory; `th` has the fields of the records.
SOURCE: m_gc_obj.c:232-255 -/
def gcMarkThreadList (th : Ptr → MThread) (D : GCConfig) (fuel : ℕ) (s : GCState) :
    Outcome GCState := do
  let node ← loadIf (reach x.live head) x.list .next head
  let r ← forLoop (fun _ val => .ok (if val = mNodeValue 0 head then none else some val))
    (fun s val => if x.live val then gcMarkNbStack D s (th val) else .error .unmapped)
    (fun _ val => do
      let next ← loadIf (reach x.live head) x.list .next (memberOf 0 val)
      pure (mNodeValue 0 next)) fuel s (mNodeValue 0 node)
  pure r.1

end ThreadMemory

end Ming.Model
