import Mathlib.Logic.Function.Basic
import Ming.Foundation.ForLoop

/-!
# The intrusive singly linked list (m_list.h)

The functions and loops of m_list.h on `M_SList` over the words that hold the fields `next`. A
head is a variable of the program, which is always there, or the field of a record; a node lies
in memory that may be gone. `live` tells which addresses hold a word that can be accessed.
-/

set_option autoImplicit false

namespace Ming.Model

open Ming.Foundation

/-- A place that holds an `M_SList`: a variable, or an address. -/
inductive MSListRef (η : Type) where
  | var (head : η)
  | addr (p : ℕ)
  deriving DecidableEq, Repr

/-- The fields `next`, of variables and of memory. The null address is 0. -/
structure MSListMem (η : Type) where
  head : η → ℕ
  next : ℕ → ℕ

namespace MSListMem

variable {η : Type} (live : ℕ → Bool) (m : MSListMem η)

/-- `ref->next` -/
def load : MSListRef η → Outcome ℕ
  | .var h => .ok (m.head h)
  | .addr p =>
    if p = 0 then .error .nullDeref
    else if live p then .ok (m.next p) else .error .unmapped

variable [DecidableEq η]

/-- `ref->next = v` -/
def store (ref : MSListRef η) (v : ℕ) : Outcome (MSListMem η) :=
  match ref with
  | .var h => .ok { m with head := Function.update m.head h v }
  | .addr p =>
    if p = 0 then .error .nullDeref
    else if live p then .ok { m with next := Function.update m.next p v } else .error .unmapped

end MSListMem

section Functions

variable {η : Type} (live : ℕ → Bool) (m : MSListMem η)

/-- `m_slist_empty`. SOURCE: m_list.h:243-247 -/
def mSListEmpty (head : MSListRef η) : Outcome Bool := do
  let next ← m.load live head
  pure (next = 0)

variable [DecidableEq η]

/-- `m_slist_init`. SOURCE: m_list.h:229-235 -/
def mSListInit (head : MSListRef η) : Outcome (MSListMem η) :=
  if head = .addr 0 then .error .assertFailed
  else m.store live head 0

/-- `m_slist_push`. SOURCE: m_list.h:254-261 -/
def mSListPush (head : MSListRef η) (node : ℕ) : Outcome (MSListMem η) :=
  if head = .addr 0 ∨ node = 0 then .error .assertFailed
  else do
    let m ← m.store live (.addr node) (← m.load live head)
    m.store live head node

/-- `m_slist_pop`: the node, or `NULL`. SOURCE: m_list.h:268-280 -/
def mSListPop (head : MSListRef η) : Outcome (ℕ × MSListMem η) :=
  if head = .addr 0 then .error .assertFailed
  else do
    let node ← m.load live head
    if node ≠ 0 then do
      let m ← m.store live head (← m.load live (.addr node))
      pure (node, m)
    else pure (node, m)

end Functions

/-! ## The loops

The body works on a state `σ` in which the links can be read at any time. -/

section Loops

variable {η σ : Type} (mem : σ → MSListMem η) (live : σ → ℕ → Bool)

/-- `m_node_value` for a member `off` bytes behind the start of its value. -/
def sNodeValue (off node : ℕ) : ℕ := if node = 0 then 0 else node - off

/-- `m_slist_foreach` from the first node on. SOURCE: m_list.h:192-193 -/
def mSListForeach (fuel : ℕ) (body : σ → ℕ → Outcome σ) (s : σ) (first : ℕ) :
    Outcome (σ × List ℕ) :=
  forLoop (fun _ node => .ok (if node = 0 then none else some node)) body
    (fun s node => (mem s).load (live s) (.addr node)) fuel s first

/-- `m_slist_foreach_safe` from the first node on. SOURCE: m_list.h:200-203 -/
def mSListForeachSafe (fuel : ℕ) (body : σ → ℕ → Outcome σ) (s : σ) (first : ℕ) :
    Outcome (σ × List ℕ) := do
  let (s, rounds) ← forLoop
    (fun s node => do
      let nnext ← (if node ≠ 0 then (mem s).load (live s) (.addr node) else pure 0)
      pure (if node = 0 then none else some (node, nnext)))
    (fun s i => body s i.1) (fun _ i => .ok i.2) fuel s first
  pure (s, rounds.map Prod.fst)

/-- `m_slist_foreach_value` from the first node on. SOURCE: m_list.h:208-212 -/
def mSListForeachValue (off fuel : ℕ) (body : σ → ℕ → Outcome σ) (s : σ) (first : ℕ) :
    Outcome (σ × List ℕ) :=
  forLoop (fun _ val => .ok (if val = 0 then none else some val)) body
    (fun s val => do
      let next ← (mem s).load (live s) (.addr (val + off))
      pure (sNodeValue off next)) fuel s (sNodeValue off first)

/-- `m_slist_foreach_value_safe` from the first node on. SOURCE: m_list.h:219-223 -/
def mSListForeachValueSafe (off fuel : ℕ) (body : σ → ℕ → Outcome σ) (s : σ) (first : ℕ) :
    Outcome (σ × List ℕ) := do
  let (s, rounds) ← forLoop
    (fun s val => do
      let nval ← (if val ≠ 0 then do
          let next ← (mem s).load (live s) (.addr (val + off))
          pure (sNodeValue off next)
        else pure 0)
      pure (if val = 0 then none else some (val, nval)))
    (fun s i => body s i.1) (fun _ i => .ok i.2) fuel s (sNodeValue off first)
  pure (s, rounds.map Prod.fst)

end Loops

/-! ## A program with several lists -/

/-- The lists of a program, and the memory that it has for nodes. -/
structure SListState (η : Type) where
  links : MSListMem η
  mapped : ℕ → Bool

/-- An operation on the lists, a store into a node, or a node that comes or goes. -/
inductive SListOp (η : Type) where
  | init (head : η)
  | empty (head : η)
  | push (head : η) (node : ℕ)
  | pop (head : η)
  | write (node v : ℕ)
  | map (node : ℕ)
  | unmap (node : ℕ)

variable {η : Type} [DecidableEq η]

/-- The effect of an operation, and the value that it returns. -/
def SListOp.exec (s : SListState η) : SListOp η → Outcome (ℕ × SListState η)
  | .init head => do
    let links ← mSListInit s.mapped s.links (.var head)
    pure (0, { s with links := links })
  | .empty head => do
    let b ← mSListEmpty s.mapped s.links (.var head)
    pure (b.toNat, s)
  | .push head node => do
    let links ← mSListPush s.mapped s.links (.var head) node
    pure (0, { s with links := links })
  | .pop head => do
    let (node, links) ← mSListPop s.mapped s.links (.var head)
    pure (node, { s with links := links })
  | .write node v => do
    let links ← s.links.store s.mapped (.addr node) v
    pure (0, { s with links := links })
  | .map node => .ok (0, { s with mapped := Function.update s.mapped node true })
  | .unmap node => .ok (0, { s with mapped := Function.update s.mapped node false })

/-- The body that moves the node of a value to the list that is chosen for it, or gives its
memory back. -/
def placeNode (choose : ℕ → Option η) (off : ℕ) (s : SListState η) (val : ℕ) :
    Outcome (SListState η) :=
  match choose (val + off) with
  | some head => do
    let links ← mSListPush s.mapped s.links (.var head) (val + off)
    pure { s with links := links }
  | none => .ok { s with mapped := Function.update s.mapped (val + off) false }

/-- Copy the first node, empty the list, and place every value of it. -/
def placeList (choose : ℕ → Option η) (off fuel : ℕ) (s : SListState η) (head : η) :
    Outcome (SListState η × List ℕ) := do
  let first := s.links.head head
  let links ← mSListInit s.mapped s.links (.var head)
  mSListForeachValueSafe SListState.links SListState.mapped off fuel (placeNode choose off)
    { s with links := links } first

end Ming.Model
