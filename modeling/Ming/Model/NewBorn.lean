import Ming.Model.GCObj

/-!
# The new-born stack of one thread

What `m_gc_alloc_obj`, `m_gc_add_obj` and `m_gc_set_nb_level` do to the record of the calling
thread. A label has what the call returned, so that a list of labels tells which object an index
stands for.
-/

set_option autoImplicit false

namespace Ming.Model

open Ming.Foundation

/-- A call on the new-born stack of the thread that makes it. -/
inductive NbCall where
  | alloc (cell : Addr) (oid : ℕ)
  | addObj (oid : ℕ)
  | setNbLevel (level : ℕ)
  deriving DecidableEq

/-- The record after the cell was handed out, and `*oid`.
SOURCE: m_gc_obj.c:596-613, 625-629 -/
def nbAlloc (self : MThread) (cell : Addr) : Outcome (MThread × ℕ) := do
  let self := nbReserve self
  let oid := self.nbTop
  let self ← nbPush self (cell ||| GC_NB_FL_NO_PTR)
  pure (self, oid)

/-- SOURCE: m_gc.h:125-134 -/
def nbAddObj (self : MThread) (oid : ℕ) : Outcome MThread :=
  if oid < self.nbTop then
    if oid < self.nbStack.length then
      .ok { self with nbStack := self.nbStack.modify oid fun w => w / 4 * 4 }
    else .error .outOfBounds
  else .error .assertFailed

/-- SOURCE: m_gc.h:96-106 -/
def nbSetLevel (self : MThread) (level : ℕ) : Outcome MThread :=
  if level ≤ self.nbTop then .ok { self with nbTop := level } else .error .assertFailed

/-- The record after a call. -/
def NbCall.exec (self : MThread) : NbCall → Outcome MThread
  | .alloc cell _ => do
    let (self, _) ← nbAlloc self cell
    pure self
  | .addObj oid => nbAddObj self oid
  | .setNbLevel level => nbSetLevel self level

/-- The caller keeps to the assertions, cells are aligned, and the label has the index that an
allocation returned. -/
def NbCall.Allowed (self : MThread) : NbCall → Prop
  | .alloc cell oid => 8 ∣ cell ∧ ∀ r, nbAlloc self cell = .ok r → r.2 = oid
  | .addObj oid => oid < self.nbTop
  | .setNbLevel level => level ≤ self.nbTop

/-- A call on a record; behind a fault there is no further call. -/
def NbStep (r : Outcome MThread) (call : NbCall) (r' : Outcome MThread) : Prop :=
  ∃ self, r = .ok self ∧ call.Allowed self ∧ r' = call.exec self

end Ming.Model
