import Ming.Model.GCObj
import Ming.Model.GCRoot
import Ming.Model.HashTraverse

/-!
# Marking the root table (m_gc_obj.c, m_gc_root.c)

`gc_mark_root_hash` walks along the lists of `gc_root_hash` and marks the pointer of every
record on the way. The hash node is the first member of the record.
-/

set_option autoImplicit false

namespace Ming.Model

open Ming.Foundation

section RootTable

variable (mapped : Ptr → Bool) (fuel : ℕ) (r : GCRootMem)

/-- `rn->ptr` -/
def gcRootPtr (rn : Ptr) : Outcome Addr :=
  if mapped rn then .ok (r.ptr rn).toNat else .error .unmapped

/-- The body of the loop, for the records of one list. -/
def gcMarkRootList (D : GCConfig) (s : GCState) (pos : BitVec 32) : Outcome GCState := do
  let node ← r.table.load (.list pos.toNat)
  let r ← forLoop (fun _ val => .ok (if val = NULL then none else some val))
    (fun s rn => do
      let ptr ← gcRootPtr mapped r rn
      gcMark D s ptr)
    (fun _ rn => do
      let next ← readNext mapped r.table (memberOf 0 rn)
      pure (mNodeValue 0 next)) fuel s (mNodeValue 0 node)
  pure r.1

/-- `gc_mark_root_hash` over the memory of the table. SOURCE: m_gc_obj.c:258-267 -/
def gcMarkRootTable (D : GCConfig) (s : GCState) : Outcome GCState := do
  let r ← forLoop (fun _ pos => .ok (if pos < r.table.hash.nlist then some pos else none))
    (gcMarkRootList mapped fuel r D) (fun _ pos => .ok (pos + 1)) fuel s 0
  pure r.1

/-- The pointers in the order in which `m_hash_foreach_value` meets their records. -/
def gcRootPointers : Outcome (List Addr) := do
  let rns ← mHashForeachValue mapped 0 fuel (fun m _ => .ok m) r.table
  rns.2.mapM (gcRootPtr mapped r)

end RootTable

end Ming.Model
