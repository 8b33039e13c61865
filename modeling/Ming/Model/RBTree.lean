import Mathlib.Logic.Function.Basic
import Ming.Foundation.RedBlackTree
import Ming.Model.CommonTypes

/-!
# The intrusive red-black tree (m_rbtree.h)

The functions of m_rbtree.h over an explicit memory: the cell `*tree` and one `M_RBNode`
record per address. The colour is the lowest bit of the word `pcolor` that also holds the
parent pointer. A store through `NULL` and a failing assertion are faults; every loop is
unfolded along `fuel`.
-/

set_option autoImplicit false

namespace Ming.Model

open Ming.Foundation

/-- `M_RBNode`: parent pointer and colour bit, left child, right child. -/
structure MRBNode where
  pcolor : UIntPtr
  left : Ptr
  right : Ptr

/-- The memory a tree lives in: the cell `*tree` and the node records. -/
structure MRBTree where
  tree : Ptr
  node : Ptr → MRBNode

/-- `M_RBTreeOps`: the key of a node and the comparison of keys. -/
structure MRBTreeOps (K : Type) where
  getKey : Ptr → K
  cmp : K → K → ℤ

/-- `M_RB_FL_BLACK`. -/
abbrev M_RB_FL_BLACK : UIntPtr := 1

/-- `M_RB_BLACK`. -/
abbrev M_RB_BLACK : UIntPtr := 1

/-- `M_RB_RED`. -/
abbrev M_RB_RED : UIntPtr := 0

/-- A place that holds a node pointer, the target of `M_RBNode **pos`. -/
inductive RBPos where
  | tree
  | left (node : Ptr)
  | right (node : Ptr)
  deriving DecidableEq, Repr

namespace MRBTree

/-- The child of a node on one side. -/
def child (m : MRBTree) (d : Side) (p : Ptr) : Ptr :=
  match d with
  | .left => (m.node p).left
  | .right => (m.node p).right

/-- Store into the record of a node; `NULL` is not a node. -/
def store (m : MRBTree) (p : Ptr) (f : MRBNode → MRBNode) : Outcome MRBTree :=
  if p = NULL then .error .nullDeref
  else .ok { m with node := Function.update m.node p (f (m.node p)) }

/-- `p->left = v` or `p->right = v`. -/
def setChild (m : MRBTree) (d : Side) (p v : Ptr) : Outcome MRBTree :=
  m.store p fun n => match d with
    | .left => { n with left := v }
    | .right => { n with right := v }

/-- `*pos`. -/
def load (m : MRBTree) : RBPos → Ptr
  | .tree => m.tree
  | .left p => (m.node p).left
  | .right p => (m.node p).right

/-- `*pos = v`. -/
def storePos (m : MRBTree) (pos : RBPos) (v : Ptr) : Outcome MRBTree :=
  match pos with
  | .tree => .ok { m with tree := v }
  | .left p => m.setChild .left p v
  | .right p => m.setChild .right p v

end MRBTree

/-! ## Node accessors -/

/-- `m_rbt_parent`. -/
def mRbtParent (m : MRBTree) (node : Ptr) : Ptr :=
  (m.node node).pcolor &&& ~~~M_RB_FL_BLACK

/-- `m_rbt_sibling`. -/
def mRbtSibling (m : MRBTree) (node : Ptr) : Ptr :=
  let parent := mRbtParent m node
  if (m.node parent).left = node then (m.node parent).right else (m.node parent).left

/-- `m_rbt_color`: an absent node is black. -/
def mRbtColor (m : MRBTree) (node : Ptr) : UIntPtr :=
  if node ≠ NULL then (m.node node).pcolor &&& M_RB_FL_BLACK else M_RB_BLACK

/-- `m_rbt_set_color`. -/
def mRbtSetColor (m : MRBTree) (node : Ptr) (color : UIntPtr) : Outcome MRBTree :=
  m.store node fun n =>
    { n with pcolor := if color ≠ 0 then n.pcolor ||| M_RB_FL_BLACK
                       else n.pcolor &&& ~~~M_RB_FL_BLACK }

/-- `m_rbt_set_parent`. -/
def mRbtSetParent (m : MRBTree) (node parent : Ptr) : Outcome MRBTree :=
  m.store node fun n => { n with pcolor := (n.pcolor &&& M_RB_FL_BLACK) ||| parent }

/-- `m_rbt_set_parent_color`. -/
def mRbtSetParentColor (m : MRBTree) (node parent : Ptr) (color : UIntPtr) : Outcome MRBTree :=
  m.store node fun n => { n with pcolor := parent ||| color }

/-! ## Lookup -/

/-- `m_rbt_init`. -/
def mRbtInit (m : MRBTree) : MRBTree := { m with tree := NULL }

section Lookup

variable {K : Type} (m : MRBTree) (key : K) (ops : MRBTreeOps K)

/-- The loop of `m_rbt_lookup`. -/
def mRbtLookupLoop : ℕ → Ptr → Outcome Ptr
  | 0, _ => .error .outOfFuel
  | fuel + 1, node =>
    if node = NULL then .ok NULL
    else
      let v := ops.cmp key (ops.getKey node)
      if v = 0 then .ok node
      else if v < 0 then mRbtLookupLoop fuel (m.node node).left
      else mRbtLookupLoop fuel (m.node node).right

/-- `m_rbt_lookup`. -/
def mRbtLookup (fuel : ℕ) : Outcome Ptr := mRbtLookupLoop m key ops fuel m.tree

/-- What `m_rbt_lookup_insert` returns: the node, or `NULL` with the parent and the
position where the key belongs. -/
structure InsertPos where
  node : Ptr
  parent : Ptr
  pos : RBPos

/-- The loop of `m_rbt_lookup_insert`: `pn` is the place read last, `node` its owner. -/
def mRbtLookupInsertLoop : ℕ → RBPos → Ptr → Outcome InsertPos
  | 0, _, _ => .error .outOfFuel
  | fuel + 1, pn, node =>
    if m.load pn = NULL then .ok ⟨NULL, node, pn⟩
    else
      let node := m.load pn
      let v := ops.cmp key (ops.getKey node)
      if v = 0 then .ok ⟨node, node, pn⟩
      else if v < 0 then mRbtLookupInsertLoop fuel (.left node) node
      else mRbtLookupInsertLoop fuel (.right node) node

/-- `m_rbt_lookup_insert`. -/
def mRbtLookupInsert (fuel : ℕ) : Outcome InsertPos :=
  mRbtLookupInsertLoop m key ops fuel .tree NULL

end Lookup

/-! ## Rotations -/

/-- The block that hangs `y` where `x` was: below `parent`, or as the root. -/
def replaceChild (m : MRBTree) (parent x y : Ptr) : Outcome MRBTree :=
  if parent ≠ NULL then
    if (m.node parent).left = x then m.setChild .left parent y
    else m.setChild .right parent y
  else .ok { m with tree := y }

/-- Rotate `node` towards side `d`; its child on the other side moves up. -/
def rotate (d : Side) (m : MRBTree) (node : Ptr) : Outcome MRBTree := do
  let x := node
  let y := m.child d.flip x
  if y = NULL then .error .assertFailed
  else
    let child := m.child d y
    let parent := mRbtParent m x
    let m ← m.setChild d.flip x child
    let m ← m.setChild d y x
    let m ← replaceChild m parent x y
    let m ← (if child ≠ NULL then mRbtSetParent m child x else pure m)
    let m ← mRbtSetParent m x y
    mRbtSetParent m y parent

/-- `m_rbt_rotate_left`. -/
def mRbtRotateLeft (m : MRBTree) (node : Ptr) : Outcome MRBTree := rotate .left m node

/-- `m_rbt_rotate_right`. -/
def mRbtRotateRight (m : MRBTree) (node : Ptr) : Outcome MRBTree := rotate .right m node

/-! ## Insertion -/

/-- The rebalance loop of `m_rbt_insert`. -/
def mRbtInsertLoop : ℕ → MRBTree → Ptr → Outcome MRBTree
  | 0, _, _ => .error .outOfFuel
  | fuel + 1, m, node =>
    let parent := mRbtParent m node
    if parent = NULL then mRbtSetColor m node M_RB_BLACK
    else if mRbtColor m parent = M_RB_BLACK then .ok m
    else
      let gparent := mRbtParent m parent
      if gparent = NULL then .error .assertFailed
      else
        let uncle := mRbtSibling m parent
        if mRbtColor m uncle = M_RB_RED then do
          let m ← mRbtSetColor m parent M_RB_BLACK
          let m ← mRbtSetColor m uncle M_RB_BLACK
          let m ← mRbtSetColor m gparent M_RB_RED
          mRbtInsertLoop fuel m gparent
        else do
          -- the inner grandchild is first rotated to the outside; node and parent swap names
          let (m, parent) ←
            (if uncle = (m.node gparent).right ∧ node = (m.node parent).right then do
              let m ← mRbtRotateLeft m parent
              pure (m, node)
            else if uncle = (m.node gparent).left ∧ node = (m.node parent).left then do
              let m ← mRbtRotateRight m parent
              pure (m, node)
            else pure (m, parent))
          let m ← mRbtSetColor m parent M_RB_BLACK
          let m ← mRbtSetColor m gparent M_RB_RED
          if uncle = (m.node gparent).right then mRbtRotateRight m gparent
          else mRbtRotateLeft m gparent

/-- `m_rbt_insert`. -/
def mRbtInsert (fuel : ℕ) (m : MRBTree) (parent : Ptr) (pos : RBPos) (node : Ptr) :
    Outcome MRBTree :=
  if node = NULL then .error .assertFailed
  else do
    let m ← m.setChild .left node NULL
    let m ← m.setChild .right node NULL
    let m ← m.storePos pos node
    let m ← mRbtSetParentColor m node parent M_RB_RED
    mRbtInsertLoop fuel m node

/-! ## Removal -/

/-- `m_rbt_remove_rebalance`. -/
def mRbtRemoveRebalance : ℕ → MRBTree → Ptr → Outcome MRBTree
  | 0, _, _ => .error .outOfFuel
  | fuel + 1, m, node =>
    if mRbtColor m node = M_RB_RED then mRbtSetColor m node M_RB_BLACK
    else
      let parent := mRbtParent m node
      if parent = NULL then .ok m
      else
        let sibling := mRbtSibling m node
        if mRbtColor m sibling = M_RB_RED then do
          let m ← mRbtSetColor m parent M_RB_RED
          let m ← mRbtSetColor m sibling M_RB_BLACK
          let m ← (if node = (m.node parent).left then mRbtRotateLeft m parent
                   else mRbtRotateRight m parent)
          mRbtRemoveRebalance fuel m node
        else
          let sleft := if sibling ≠ NULL then (m.node sibling).left else NULL
          let sright := if sibling ≠ NULL then (m.node sibling).right else NULL
          let slcol := mRbtColor m sleft
          let srcol := mRbtColor m sright
          if slcol = M_RB_BLACK ∧ srcol = M_RB_BLACK then do
            let m ← (if sibling ≠ NULL then mRbtSetColor m sibling M_RB_RED else pure m)
            mRbtRemoveRebalance fuel m parent
          else do
            let (m, sibling, sleft, sright) ←
              (if node = (m.node parent).left ∧ slcol = M_RB_RED then do
                let m ← mRbtSetColor m sleft M_RB_BLACK
                let m ← mRbtSetColor m sibling M_RB_RED
                let m ← mRbtRotateRight m sibling
                pure (m, sleft, sleft, sibling)
              else if node = (m.node parent).right ∧ srcol = M_RB_RED then do
                let m ← mRbtSetColor m sright M_RB_BLACK
                let m ← mRbtSetColor m sibling M_RB_RED
                let m ← mRbtRotateLeft m sibling
                pure (m, sright, sibling, sright)
              else pure (m, sibling, sleft, sright))
            let pcol := mRbtColor m parent
            let m ← mRbtSetColor m parent M_RB_BLACK
            let m ← mRbtSetColor m sibling pcol
            if node = (m.node parent).left then do
              let m ← mRbtSetColor m sright M_RB_BLACK
              mRbtRotateLeft m parent
            else do
              let m ← mRbtSetColor m sleft M_RB_BLACK
              mRbtRotateRight m parent

/-- The loop `while (succ->right) succ = succ->right`. -/
def mRbtMaxLoop (m : MRBTree) : ℕ → Ptr → Outcome Ptr
  | 0, _ => .error .outOfFuel
  | fuel + 1, succ =>
    if (m.node succ).right ≠ NULL then mRbtMaxLoop m fuel (m.node succ).right else .ok succ

/-- The locals `succ`, `child`, `parent` and `is_left` of `m_rbt_remove`. -/
structure RemovePlan where
  succ : Ptr
  child : Ptr
  parent : Ptr
  isLeft : Bool

/-- The first part of `m_rbt_remove`: choose the node that is unlinked in fact. -/
def removePlan (fuel : ℕ) (m : MRBTree) (node : Ptr) : Outcome RemovePlan :=
  if (m.node node).left ≠ NULL ∧ (m.node node).right ≠ NULL then do
    let succ ← mRbtMaxLoop m fuel (m.node node).left
    let child := if (m.node succ).left ≠ NULL then (m.node succ).left else (m.node succ).right
    if succ = (m.node node).left then pure ⟨succ, child, succ, true⟩
    else
      let parent := mRbtParent m succ
      pure ⟨succ, child, parent, decide ((m.node parent).left = succ)⟩
  else
    let parent := mRbtParent m node
    let child := if (m.node node).left ≠ NULL then (m.node node).left else (m.node node).right
    -- without a parent `is_left` stays uninitialised and is not read again
    pure ⟨node, child, parent, decide (parent ≠ NULL ∧ (m.node parent).left = node)⟩

/-- The block of `m_rbt_remove` that puts `succ` in the place of `node`. -/
def swapSuccessor (m : MRBTree) (node succ : Ptr) : Outcome MRBTree := do
  let left := if succ = (m.node node).left then NULL else (m.node node).left
  let right := (m.node node).right
  let pcolor := (m.node node).pcolor
  let oparent := mRbtParent m node
  let m ← m.setChild .left succ left
  let m ← m.setChild .right succ right
  let m ← m.store succ fun n => { n with pcolor := pcolor }
  let m ← (if left ≠ NULL then mRbtSetParent m left succ else pure m)
  let m ← (if right ≠ NULL then mRbtSetParent m right succ else pure m)
  replaceChild m oparent node succ

/-- The last block of `m_rbt_remove`: link `child` where `succ` was. -/
def unlinkChild (m : MRBTree) (plan : RemovePlan) : Outcome MRBTree := do
  let m ←
    (if plan.parent ≠ NULL then
      if plan.isLeft then m.setChild .left plan.parent plan.child
      else m.setChild .right plan.parent plan.child
    else pure { m with tree := plan.child })
  if plan.child ≠ NULL then mRbtSetParentColor m plan.child plan.parent M_RB_BLACK else pure m

/-- The blocks of `m_rbt_remove` behind the rebalancing, with the values saved before it. -/
def unlinkVictim (m : MRBTree) (node : Ptr) (plan : RemovePlan) : Outcome MRBTree := do
  let m ← (if plan.succ ≠ node then swapSuccessor m node plan.succ else pure m)
  unlinkChild m plan

/-- `m_rbt_remove`. -/
def mRbtRemove (fuel : ℕ) (m : MRBTree) (node : Ptr) : Outcome MRBTree :=
  if node = NULL then .error .assertFailed
  else do
    let plan ← removePlan fuel m node
    let m ← (if plan.child = NULL then mRbtRemoveRebalance fuel m plan.succ else pure m)
    let m ← (if plan.succ ≠ node then swapSuccessor m node plan.succ else pure m)
    unlinkChild m plan

end Ming.Model
