import Ming.Model.RBTree

/-!
# Release of a red-black tree (m_rbtree.h)

`m_rbt_deinit` passes every node to `free_node`, which gives the memory of the node back: from
then on its record cannot be read, and it cannot be released again. The recursion of
`m_rbt_free_node` is unfolded along `depth`, the number of calls that may be nested.
-/

set_option autoImplicit false

namespace Ming.Model

open Ming.Foundation

/-- A tree in memory, with the nodes whose memory is allocated and the calls of `free_node`. -/
structure RBTreeMemory where
  mem : MRBTree
  live : Ptr → Bool
  freed : List Ptr

namespace RBTreeMemory

/-- `node->left`, `node->right` -/
def child (s : RBTreeMemory) (d : Side) (node : Ptr) : Outcome Ptr :=
  if s.live node then .ok (s.mem.child d node) else .error .unmapped

/-- `func(node)` -/
def freeNode (s : RBTreeMemory) (node : Ptr) : Outcome RBTreeMemory :=
  if s.live node then
    .ok { s with live := Function.update s.live node false, freed := s.freed ++ [node] }
  else .error .unmapped

end RBTreeMemory

/-- `if (node->left) m_rbt_free_node(node->left, func)`, and the same for `right`. -/
def freeChild (free : RBTreeMemory → Ptr → Outcome RBTreeMemory) (d : Side) (s : RBTreeMemory)
    (node : Ptr) : Outcome RBTreeMemory := do
  let child ← s.child d node
  if child ≠ NULL then free s child else pure s

/-- SOURCE: m_rbtree.h:311-320 -/
def mRbtFreeNode : ℕ → RBTreeMemory → Ptr → Outcome RBTreeMemory
  | 0, _, _ => .error .outOfFuel
  | depth + 1, s, node => do
    let s ← freeChild (mRbtFreeNode depth) .left s node
    let s ← freeChild (mRbtFreeNode depth) .right s node
    s.freeNode node

/-- `hasFree` tells whether `ops->free_node` is set. SOURCE: m_rbtree.h:455-463 -/
def mRbtDeinit (hasFree : Bool) (depth : ℕ) (s : RBTreeMemory) : Outcome RBTreeMemory :=
  if hasFree ∧ s.mem.tree ≠ NULL then mRbtFreeNode depth s s.mem.tree else .ok s

end Ming.Model
