import Ming.Foundation.ForLoop
import Ming.Model.Hash

/-!
# Traversal of the hash table (m_hash.h)

The loops over the nodes and over the values that contain them. A value is an address, and its
node lies `off` bytes behind it. `mapped` tells which addresses are those of nodes; the link of
any other address cannot be read. A loop returns the memory and what its body was given.
-/

set_option autoImplicit false

namespace Ming.Model

open Ming.Foundation

/-- `M_CONTAINER_OF`. SOURCE: m_macros.h:80-87 -/
def mContainerOf (off ptr : Ptr) : Ptr := ptr - off

/-- `m_node_value`. SOURCE: m_macros.h:106-112 -/
def mNodeValue (off node : Ptr) : Ptr := if node ≠ NULL then mContainerOf off node else NULL

/-- `&(val)->member` -/
def memberOf (off val : Ptr) : Ptr := val + off

section Traverse

variable {ι : Type} (mapped : Ptr → Bool) (off : Ptr) (fuel : ℕ)

/-- `node->next` -/
def readNext (m : HashMem) (node : Ptr) : Outcome Ptr :=
  if mapped node then .ok (m.next node) else .error .unmapped

/-- `*pnode` -/
def readSlot (m : HashMem) : HashSlot → Outcome Ptr
  | .list pos => m.load (.list pos)
  | .next node => readNext mapped m node

/-- `for (pos = 0; pos < (hash)->nlist; (pos) ++)`, with a loop over one list as its body. -/
def forLists (inner : HashMem → BitVec 32 → Outcome (HashMem × List ι)) (m : HashMem) :
    Outcome (HashMem × List ι) := do
  let (s, _) ← forLoop
    (fun (s : HashMem × List ι) pos => .ok (if pos < s.1.hash.nlist then some pos else none))
    (fun s pos => do
      let (m, rounds) ← inner s.1 pos
      pure (m, s.2 ++ rounds))
    (fun _ pos => .ok (pos + 1)) fuel (m, []) 0
  pure s

/-! ## Nodes -/

/-- The inner loop of `m_hash_foreach`. -/
def foreachList (body : HashMem → Ptr → Outcome HashMem) (m : HashMem) (pos : BitVec 32) :
    Outcome (HashMem × List Ptr) := do
  let node ← m.load (.list pos.toNat)
  forLoop (fun _ node => .ok (if node = NULL then none else some node)) body
    (readNext mapped) fuel m node

/-- `m_hash_foreach`. SOURCE: m_hash.h:83-85 -/
def mHashForeach (body : HashMem → Ptr → Outcome HashMem) (m : HashMem) :
    Outcome (HashMem × List Ptr) := forLists fuel (foreachList mapped fuel body) m

/-- The inner loop of `m_hash_foreach_safe`. -/
def foreachSafeList (body : HashMem → Ptr → Outcome HashMem) (m : HashMem) (pos : BitVec 32) :
    Outcome (HashMem × List Ptr) := do
  let node ← m.load (.list pos.toNat)
  let (m, rounds) ← forLoop
    (fun m node => do
      let nnext ← (if node ≠ NULL then readNext mapped m node else pure NULL)
      pure (if node = NULL then none else some (node, nnext)))
    (fun m i => body m i.1) (fun _ i => .ok i.2) fuel m node
  pure (m, rounds.map Prod.fst)

/-- `m_hash_foreach_safe`. SOURCE: m_hash.h:108-112 -/
def mHashForeachSafe (body : HashMem → Ptr → Outcome HashMem) (m : HashMem) :
    Outcome (HashMem × List Ptr) := forLists fuel (foreachSafeList mapped fuel body) m

/-- The inner loop of `m_hash_foreach_prev`; its body also gets `pnode`. -/
def foreachPrevList (body : HashMem → Ptr → HashSlot → Outcome HashMem) (m : HashMem)
    (pos : BitVec 32) : Outcome (HashMem × List Ptr) := do
  let (m, rounds) ← forLoop
    (fun m pnode => do
      let node ← readSlot mapped m pnode
      pure (if node = NULL then none else some (node, pnode)))
    (fun m i => body m i.1 i.2)
    (fun m i => do
      let head ← readSlot mapped m i.2
      pure (if head = i.1 then .next i.1 else i.2)) fuel m (.list pos.toNat)
  pure (m, rounds.map Prod.fst)

/-- `m_hash_foreach_prev`. SOURCE: m_hash.h:136-140 -/
def mHashForeachPrev (body : HashMem → Ptr → HashSlot → Outcome HashMem) (m : HashMem) :
    Outcome (HashMem × List Ptr) := forLists fuel (foreachPrevList mapped fuel body) m

/-! ## Values -/

/-- The inner loop of `m_hash_foreach_value`. -/
def foreachValueList (body : HashMem → Ptr → Outcome HashMem) (m : HashMem) (pos : BitVec 32) :
    Outcome (HashMem × List Ptr) := do
  let node ← m.load (.list pos.toNat)
  forLoop (fun _ val => .ok (if val = NULL then none else some val)) body
    (fun m val => do
      let next ← readNext mapped m (memberOf off val)
      pure (mNodeValue off next)) fuel m (mNodeValue off node)

/-- `m_hash_foreach_value`. SOURCE: m_hash.h:167-172 -/
def mHashForeachValue (body : HashMem → Ptr → Outcome HashMem) (m : HashMem) :
    Outcome (HashMem × List Ptr) := forLists fuel (foreachValueList mapped off fuel body) m

/-- The inner loop of `m_hash_foreach_value_safe`: the next node is converted without a test
for `NULL`. -/
def foreachValueSafeList (body : HashMem → Ptr → Outcome HashMem) (m : HashMem)
    (pos : BitVec 32) : Outcome (HashMem × List Ptr) := do
  let node ← m.load (.list pos.toNat)
  let (m, rounds) ← forLoop
    (fun m val => do
      let nval ← (if val ≠ NULL then do
          let next ← readNext mapped m (memberOf off val)
          pure (mContainerOf off next)
        else pure NULL)
      pure (if val = NULL then none else some (val, nval)))
    (fun m i => body m i.1) (fun _ i => .ok i.2) fuel m (mNodeValue off node)
  pure (m, rounds.map Prod.fst)

/-- `m_hash_foreach_value_safe`. SOURCE: m_hash.h:205-211 -/
def mHashForeachValueSafe (body : HashMem → Ptr → Outcome HashMem) (m : HashMem) :
    Outcome (HashMem × List Ptr) := forLists fuel (foreachValueSafeList mapped off fuel body) m

/-- The inner loop of `m_hash_foreach_value_prev`. -/
def foreachValuePrevList (body : HashMem → Ptr → HashSlot → Outcome HashMem) (m : HashMem)
    (pos : BitVec 32) : Outcome (HashMem × List Ptr) := do
  let (m, rounds) ← forLoop
    (fun m pnode => do
      let node ← readSlot mapped m pnode
      let val := if node ≠ NULL then mContainerOf off node else NULL
      pure (if val = NULL then none else some (val, pnode)))
    (fun m i => body m i.1 i.2)
    (fun m i => do
      let head ← readSlot mapped m i.2
      pure (if head = memberOf off i.1 then .next (memberOf off i.1) else i.2))
    fuel m (.list pos.toNat)
  pure (m, rounds.map Prod.fst)

/-- `m_hash_foreach_value_prev`. SOURCE: m_hash.h:245-250 -/
def mHashForeachValuePrev (body : HashMem → Ptr → HashSlot → Outcome HashMem) (m : HashMem) :
    Outcome (HashMem × List Ptr) := forLists fuel (foreachValuePrevList mapped off fuel body) m

end Traverse

end Ming.Model
