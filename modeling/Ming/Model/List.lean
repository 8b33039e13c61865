import Mathlib.Logic.Function.Basic
import Ming.Foundation.ForLoop
import Ming.Model.CommonTypes

/-!
# The intrusive doubly linked list (m_list.h)

The functions and loops of m_list.h over the memory of the `M_List` records. A list is a ring:
its head is a record like those of its nodes. A load or store through `NULL` is a fault. The
loops in the two directions are one definition with the link they follow.
-/

set_option autoImplicit false

namespace Ming.Model

open Ming.Foundation

/-- `M_List`: previous and next node. -/
structure MList where
  prev : Ptr
  next : Ptr
  deriving DecidableEq, Repr

/-- The `M_List` records by address, heads and nodes. -/
structure MListMem where
  node : Ptr → MList

/-- One of the two links of a node. -/
inductive MLink where
  | prev
  | next
  deriving DecidableEq, Repr

/-- The other link. -/
def MLink.flip : MLink → MLink
  | .prev => .next
  | .next => .prev

/-- INTERNAL: what is opposite to `prev`. -/
@[simp] theorem MLink.flip_prev : MLink.prev.flip = .next := rfl

/-- INTERNAL: what is opposite to `next`. -/
@[simp] theorem MLink.flip_next : MLink.next.flip = .prev := rfl

/-- INTERNAL: the opposite of the opposite. -/
@[simp] theorem MLink.flip_flip (d : MLink) : d.flip.flip = d := by
  cases d
  · rfl
  · rfl

namespace MListMem

/-- The value of a link of a record. -/
def link (m : MListMem) (d : MLink) (p : Ptr) : Ptr :=
  match d with
  | .prev => (m.node p).prev
  | .next => (m.node p).next

/-- The memory after one link of a record was set. -/
def setLink (m : MListMem) (d : MLink) (p v : Ptr) : MListMem :=
  match d with
  | .prev => { node := Function.update m.node p { m.node p with prev := v } }
  | .next => { node := Function.update m.node p { m.node p with next := v } }

/-- `p->prev` or `p->next`. -/
def load (m : MListMem) (d : MLink) (p : Ptr) : Outcome Ptr :=
  if p = NULL then .error .nullDeref else .ok (m.link d p)

/-- `p->prev = v` or `p->next = v`. -/
def store (m : MListMem) (d : MLink) (p v : Ptr) : Outcome MListMem :=
  if p = NULL then .error .nullDeref else .ok (m.setLink d p v)

variable {m : MListMem} {d : MLink} {p q v : Ptr}

/-- INTERNAL: a link of a node is loaded. -/
theorem load_ok (hp : p ≠ NULL) : m.load d p = .ok (m.link d p) := if_neg hp

/-- INTERNAL: a link of a node is stored. -/
theorem store_ok (hp : p ≠ NULL) : m.store d p v = .ok (m.setLink d p v) := if_neg hp

/-- INTERNAL: a store changes one link of one record. -/
theorem link_setLink (m : MListMem) (d : MLink) (p v : Ptr) (e : MLink) (q : Ptr) :
    (m.setLink d p v).link e q = if e = d ∧ q = p then v else m.link e q := by
  by_cases hq : q = p
  · subst hq
    cases d <;> cases e <;> simp [setLink, link]
  · cases d <;> cases e <;> simp [setLink, link, hq]

end MListMem

/-! ## The functions -/

/-- `m_list_empty`. SOURCE: m_list.h:119-123 -/
def mListEmpty (m : MListMem) (head : Ptr) : Outcome Bool := do
  let next ← m.load .next head
  pure (next = head)

/-- `m_list_init`. SOURCE: m_list.h:129-136 -/
def mListInit (m : MListMem) (head : Ptr) : Outcome MListMem :=
  if head = NULL then .error .assertFailed
  else do
    let m ← m.store .prev head head
    m.store .next head head

/-- `m_list_append`. SOURCE: m_list.h:143-152 -/
def mListAppend (m : MListMem) (head node : Ptr) : Outcome MListMem :=
  if head = NULL ∨ node = NULL then .error .assertFailed
  else do
    let m ← m.store .prev node (← m.load .prev head)
    let m ← m.store .next node head
    let m ← m.store .next (← m.load .prev head) node
    m.store .prev head node

/-- `m_list_prepend`. SOURCE: m_list.h:159-168 -/
def mListPrepend (m : MListMem) (head node : Ptr) : Outcome MListMem :=
  if head = NULL ∨ node = NULL then .error .assertFailed
  else do
    let m ← m.store .prev node head
    let m ← m.store .next node (← m.load .next head)
    let m ← m.store .prev (← m.load .next head) node
    m.store .next head node

/-- `m_list_remove`: the second statement reads the links again. SOURCE: m_list.h:174-179 -/
def mListRemove (m : MListMem) (node : Ptr) : Outcome MListMem := do
  let m ← m.store .next (← m.load .prev node) (← m.load .next node)
  m.store .prev (← m.load .next node) (← m.load .prev node)

/-! ## The loops -/

/-- `for (node = head->next; node != head; node = node->next) body`, or with `prev`. -/
def mListForeachFrom (d : MLink) (fuel : ℕ) (m : MListMem) (head : Ptr)
    (body : MListMem → Ptr → Outcome MListMem) : Outcome (MListMem × List Ptr) := do
  let node ← m.load d head
  forLoop (fun _ node => .ok (if node = head then none else some node)) body
    (fun m node => m.load d node) fuel m node

/-- `m_list_foreach`. SOURCE: m_list.h:46-47 -/
def mListForeach : ℕ → MListMem → Ptr → (MListMem → Ptr → Outcome MListMem) →
    Outcome (MListMem × List Ptr) := mListForeachFrom .next

/-- `m_list_foreach_r`. SOURCE: m_list.h:52-53 -/
def mListForeachR : ℕ → MListMem → Ptr → (MListMem → Ptr → Outcome MListMem) →
    Outcome (MListMem × List Ptr) := mListForeachFrom .prev

/-- `for (node = head->next; nnext = node->next, node != head; node = nnext) body`, or with
`prev`. -/
def mListForeachSafeFrom (d : MLink) (fuel : ℕ) (m : MListMem) (head : Ptr)
    (body : MListMem → Ptr → Outcome MListMem) : Outcome (MListMem × List Ptr) := do
  let node ← m.load d head
  let (m, rounds) ← forLoop
    (fun m node => do
      let nnext ← m.load d node
      pure (if node = head then none else some (node, nnext)))
    (fun m i => body m i.1) (fun _ i => .ok i.2) fuel m node
  pure (m, rounds.map Prod.fst)

/-- `m_list_foreach_safe`. SOURCE: m_list.h:60-63 -/
def mListForeachSafe : ℕ → MListMem → Ptr → (MListMem → Ptr → Outcome MListMem) →
    Outcome (MListMem × List Ptr) := mListForeachSafeFrom .next

/-- `m_list_foreach_safe_r`. SOURCE: m_list.h:70-73 -/
def mListForeachSafeR : ℕ → MListMem → Ptr → (MListMem → Ptr → Outcome MListMem) →
    Outcome (MListMem × List Ptr) := mListForeachSafeFrom .prev

end Ming.Model
