import Ming.Model.Hash

/-!
# The root hash table (m_gc_root.c)

`gc_root_hash` holds one `M_GCRootNode` for each root object. The hash table of the node
records is that of m_hash.h; the fields `ptr` and `ref` are added here. Allocation is a
parameter: the address that `m_gc_alloc_buf` returns for a node, and whether it returns a
buffer to the resize.
-/

set_option autoImplicit false

namespace Ming.Model

open Ming.Foundation

/-- `gc_root_hash` and the `M_GCRootNode` records. -/
structure GCRootMem where
  table : HashMem
  ptr : Ptr → Ptr
  ref : Ptr → BitVec 32

/-- `gc_root_get_key`: `m_node_value` of the first member, the address of the node. -/
def gcRootGetKey (node : Ptr) : Ptr := node

/-- `gc_root_hash_ops`. -/
def gcRootHashOps : MHashOps Ptr := ⟨gcRootGetKey, mPtrHashKvFunc, mPtrHashEqualFunc⟩

/-- `gc_root_hash_startup`. -/
def gcRootHashStartup (m : GCRootMem) : GCRootMem := { m with table := mHashInit m.table }

/-- `m_gc_add_root`: `buf` is the result of `m_gc_alloc_buf` for the node, `alloc` tells
whether the resize gets its buffer. -/
def mGCAddRoot (fuel : ℕ) (m : GCRootMem) (ptr buf : Ptr) (alloc : Bool) : Outcome GCRootMem :=
  if ptr = NULL then .error .assertFailed
  else do
    let (node, kv) ← mHashLookupWithKv fuel m.table ptr gcRootHashOps
    if node ≠ NULL then
      pure { m with ref := Function.update m.ref node (m.ref node + 1) }
    else
      let rn := buf
      -- `m_assert_alloc`
      if rn = NULL then .error .assertFailed
      else do
        let m := { m with ref := Function.update m.ref rn 1, ptr := Function.update m.ptr rn ptr }
        let (table, r) ← mHashResize fuel m.table gcRootHashOps alloc
        if r ≠ .ok then .error .assertFailed
        else do
          let table ← mHashInsertWithKv table rn kv
          pure { m with table := table }

/-- `m_gc_remove_root`. -/
def mGCRemoveRoot (fuel : ℕ) (m : GCRootMem) (ptr : Ptr) : Outcome GCRootMem :=
  if ptr = NULL then .error .assertFailed
  else do
    let (node, prev) ← mHashLookupWithPrev fuel m.table ptr gcRootHashOps
    if node ≠ NULL then
      if m.ref node = 1 then
        match prev with
        | none => .error .nullDeref
        | some prev => do
          let (table, _) ← mHashRemoveFromPrev m.table prev
          pure { m with table := table }
      else pure { m with ref := Function.update m.ref node (m.ref node - 1) }
    else pure m

end Ming.Model
