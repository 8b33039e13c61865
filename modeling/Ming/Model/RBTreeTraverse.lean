import Ming.Foundation.ForLoop
import Ming.Model.RBTree

/-!
# Traversal of the red-black tree (m_rbtree.h)

First, last, next and previous node, and the four loops over the nodes. A function and its
mirror image are one definition with the side it starts from. The body of a loop is a function
of the memory and the node; a loop returns the memory and the nodes that its body ran on.
-/

set_option autoImplicit false

namespace Ming.Model

open Ming.Foundation

variable (m : MRBTree)

/-- `while (node->left) node = node->left`, or `right`. -/
def mRbtDescend (d : Side) : ℕ → Ptr → Outcome Ptr
  | 0, _ => .error .outOfFuel
  | fuel + 1, node =>
    if m.child d node ≠ NULL then mRbtDescend d fuel (m.child d node) else .ok node

/-- The climb of `m_rbt_next_node`: `next` is the parent of `node`. -/
def mRbtClimb (d : Side) : ℕ → Ptr → Ptr → Outcome Ptr
  | 0, _, _ => .error .outOfFuel
  | fuel + 1, node, next =>
    if next = NULL then .ok NULL
    else if m.child d next = node then .ok next
    else mRbtClimb d fuel next (mRbtParent m next)

/-- The outermost node on one side. -/
def mRbtEndNode (d : Side) (fuel : ℕ) : Outcome Ptr :=
  if m.tree = NULL then .ok NULL else mRbtDescend m d fuel m.tree

/-- `m_rbt_first_node`. SOURCE: m_rbtree.h:330-345 -/
def mRbtFirstNode (fuel : ℕ) : Outcome Ptr := mRbtEndNode m .left fuel

/-- `m_rbt_last_node`. SOURCE: m_rbtree.h:353-368 -/
def mRbtLastNode (fuel : ℕ) : Outcome Ptr := mRbtEndNode m .right fuel

/-- The neighbour of a node, away from side `d`. -/
def mRbtNeighbour (d : Side) (fuel : ℕ) (node : Ptr) : Outcome Ptr :=
  if node = NULL then .ok NULL
  else if m.child d.flip node ≠ NULL then mRbtDescend m d fuel (m.child d.flip node)
  else mRbtClimb m d fuel node (mRbtParent m node)

/-- `m_rbt_next_node`. SOURCE: m_rbtree.h:376-402 -/
def mRbtNextNode (fuel : ℕ) (node : Ptr) : Outcome Ptr := mRbtNeighbour m .left fuel node

/-- `m_rbt_prev_node`. SOURCE: m_rbtree.h:410-436 -/
def mRbtPrevNode (fuel : ℕ) (node : Ptr) : Outcome Ptr := mRbtNeighbour m .right fuel node

/-! ## The loops -/

/-- `for (node = first; node; node = next (node)) body`. -/
def mRbtForeachFrom (d : Side) (fuel : ℕ) (m : MRBTree) (body : MRBTree → Ptr → Outcome MRBTree) :
    Outcome (MRBTree × List Ptr) := do
  let node ← mRbtEndNode m d fuel
  forLoop (fun _ node => .ok (if node = NULL then none else some node)) body
    (fun m node => mRbtNeighbour m d fuel node) fuel m node

/-- `m_rbt_foreach`. SOURCE: m_rbtree.h:76-77 -/
def mRbtForeach : ℕ → MRBTree → (MRBTree → Ptr → Outcome MRBTree) →
    Outcome (MRBTree × List Ptr) := mRbtForeachFrom .left

/-- `m_rbt_foreach_r`. SOURCE: m_rbtree.h:177-178 -/
def mRbtForeachR : ℕ → MRBTree → (MRBTree → Ptr → Outcome MRBTree) →
    Outcome (MRBTree × List Ptr) := mRbtForeachFrom .right

/-- `for (node = first; nnext = next (node), node; node = nnext) body`. -/
def mRbtForeachSafeFrom (d : Side) (fuel : ℕ) (m : MRBTree)
    (body : MRBTree → Ptr → Outcome MRBTree) : Outcome (MRBTree × List Ptr) := do
  let node ← mRbtEndNode m d fuel
  let (m, rounds) ← forLoop
    (fun m node => do
      let nnext ← mRbtNeighbour m d fuel node
      pure (if node = NULL then none else some (node, nnext)))
    (fun m i => body m i.1) (fun _ i => .ok i.2) fuel m node
  pure (m, rounds.map Prod.fst)

/-- `m_rbt_foreach_safe`. SOURCE: m_rbtree.h:98-101 -/
def mRbtForeachSafe : ℕ → MRBTree → (MRBTree → Ptr → Outcome MRBTree) →
    Outcome (MRBTree × List Ptr) := mRbtForeachSafeFrom .left

/-- `m_rbt_foreach_safe_r`. SOURCE: m_rbtree.h:199-202 -/
def mRbtForeachSafeR : ℕ → MRBTree → (MRBTree → Ptr → Outcome MRBTree) →
    Outcome (MRBTree × List Ptr) := mRbtForeachSafeFrom .right

end Ming.Model
