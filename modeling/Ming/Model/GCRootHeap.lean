import Ming.Model.GCBuf
import Ming.Model.GCRoot
import Ming.Model.HashTraverse

/-!
# The memory of the root table (m_gc_root.c, m_hash.h)

The records of `gc_root_hash` and its list buffer are blocks of `m_gc_alloc_buf`. The functions
of m_hash.h stand here with `gc_root_hash_ops` in the place of their operations. A field of a
record and an entry of the buffer can be accessed as long as their block is there, and a block
that is not there cannot be given back. The size of an allocation is that of the source, the
address is the answer of `malloc`.
-/

set_option autoImplicit false

namespace Ming.Model

open Ming.Foundation

/-- `gc_root_hash` with its records; `lists` is the address of the buffer, and `block` has the
sizes of the blocks that were handed out and not given back. -/
structure GCRootHeap where
  mem : GCRootMem
  lists : Ptr
  block : Ptr → Option ℕ

/-- `sizeof(M_GCRootNode)` -/
abbrev GC_ROOT_NODE_SIZE : BitVec 64 := 24

/-- `sizeof(M_HashNode*) * nlist` -/
def hashListsSize (nlist : BitVec 32) : BitVec 64 := 8 * nlist.setWidth 64

namespace GCRootHeap

/-- An access to `len` bytes at `p + off`. -/
def access (h : GCRootHeap) (p : Ptr) (off len : ℕ) : Outcome Unit :=
  (h.block p).elim (.error .unmapped) fun size =>
    if off + len ≤ size then .ok () else .error .outOfBounds

/-- SOURCE: m_gc_buf.c:61-78 -/
def mGCAllocBuf (h : GCRootHeap) (size : BitVec 64) (answer : Ptr) : GCRootHeap :=
  if answer = NULL then h
  else { h with block := Function.update h.block answer (some (gcSizeAlign size).toNat) }

/-- The size is a `uint32_t`. SOURCE: m_gc_buf.c:110-127 -/
def mGCFreeBuf (h : GCRootHeap) (ptr : Ptr) (size : BitVec 32) : Outcome GCRootHeap :=
  if ptr = NULL ∨ size = 0 then .ok h
  else (h.block ptr).elim (.error .unmapped) fun _ =>
    .ok { h with block := Function.update h.block ptr none }

/-- The block of a slot, and where the slot lies in it. -/
def place (h : GCRootHeap) : HashSlot → Ptr × ℕ
  | .list pos => (h.lists, 8 * pos)
  | .next node => (node, 0)

/-- The heap with another table. -/
def setTable (h : GCRootHeap) (table : HashMem) : GCRootHeap :=
  { h with mem := { h.mem with table := table } }

/-- `*slot` -/
def load (h : GCRootHeap) (slot : HashSlot) : Outcome Ptr := do
  h.access (h.place slot).1 (h.place slot).2 8
  h.mem.table.load slot

/-- `*slot = v` -/
def store (h : GCRootHeap) (slot : HashSlot) (v : Ptr) : Outcome GCRootHeap := do
  h.access (h.place slot).1 (h.place slot).2 8
  let table ← h.mem.table.store slot v
  pure (h.setTable table)

/-! ## The functions of m_hash.h -/

/-- The loop of `m_hash_lookup_with_kv`. -/
def mHashLookupLoop (h : GCRootHeap) (key : Ptr) : ℕ → Ptr → Outcome Ptr
  | 0, _ => .error .outOfFuel
  | fuel + 1, node =>
    if node = NULL then .ok NULL
    else if mPtrHashEqualFunc key (gcRootGetKey node) then .ok node
    else do
      let node ← h.load (.next node)
      mHashLookupLoop h key fuel node

/-- SOURCE: m_hash.h:312-339 -/
def mHashLookupWithKv (fuel : ℕ) (h : GCRootHeap) (key : Ptr) : Outcome (Ptr × BitVec 32) :=
  let kv := mPtrHashKvFunc key
  if h.mem.table.hash.size ≠ 0 then do
    let pos ← umod kv h.mem.table.hash.nlist
    let node ← h.load (.list pos.toNat)
    let node ← h.mHashLookupLoop key fuel node
    pure (node, kv)
  else pure (NULL, kv)

/-- The loop of `m_hash_lookup_with_prev`. -/
def mHashLookupPrevLoop (h : GCRootHeap) (key : Ptr) :
    ℕ → HashSlot → Ptr → Outcome (Ptr × Option HashSlot)
  | 0, _, _ => .error .outOfFuel
  | fuel + 1, prev, node =>
    if node = NULL then .ok (NULL, none)
    else if mPtrHashEqualFunc key (gcRootGetKey node) then .ok (node, some prev)
    else do
      let prev := HashSlot.next node
      let node ← h.load prev
      mHashLookupPrevLoop h key fuel prev node

/-- SOURCE: m_hash.h:351-381 -/
def mHashLookupWithPrev (fuel : ℕ) (h : GCRootHeap) (key : Ptr) :
    Outcome (Ptr × Option HashSlot) :=
  let kv := mPtrHashKvFunc key
  if h.mem.table.hash.size ≠ 0 then do
    let pos ← umod kv h.mem.table.hash.nlist
    let prev := HashSlot.list pos.toNat
    let node ← h.load prev
    h.mHashLookupPrevLoop key fuel prev node
  else pure (NULL, none)

/-- SOURCE: m_hash.h:440-456 -/
def mHashRemoveFromPrev (h : GCRootHeap) (pnode : HashSlot) : Outcome GCRootHeap := do
  let node ← h.load pnode
  if node = NULL then .error .assertFailed
  else do
    let next ← h.load (.next node)
    let h ← h.store pnode next
    pure (h.setTable (h.mem.table.setSize (h.mem.table.hash.size - 1)))

/-- SOURCE: m_hash.h:480-496 -/
def mHashInsertWithKv (h : GCRootHeap) (node : Ptr) (kv : BitVec 32) : Outcome GCRootHeap :=
  if node = NULL then .error .assertFailed
  else if h.mem.table.hash.nlist = 0 then .error .assertFailed
  else do
    let pos ← umod kv h.mem.table.hash.nlist
    let head ← h.load (.list pos.toNat)
    let h ← h.store (.next node) head
    let h ← h.store (.list pos.toNat) node
    pure (h.setTable (h.mem.table.setSize (h.mem.table.hash.size + 1)))

/-- The inner loop of `m_hash_foreach_safe` in `m_hash_resize`; the new buffer lies at `nbuf`. -/
def mHashResizeChain (h : GCRootHeap) (nbuf : Ptr) (nsize : BitVec 32) :
    ℕ → Ptr → List Ptr × (Ptr → Ptr) → Outcome (List Ptr × (Ptr → Ptr))
  | 0, _, _ => .error .outOfFuel
  | fuel + 1, node, (heads, next) =>
    if node = NULL then .ok (heads, next)
    else do
      h.access node 0 8
      let nnext := next node
      let i ← umod (mPtrHashKvFunc (gcRootGetKey node)) nsize
      h.access nbuf (8 * i.toNat) 8
      match heads[i.toNat]? with
      | none => .error .outOfBounds
      | some head =>
        mHashResizeChain h nbuf nsize fuel nnext
          (heads.set i.toNat node, Function.update next node head)

/-- `m_hash_resize`; `answer` is the address of the new buffer. SOURCE: m_hash.h:537-570 -/
def mHashResize (fuel : ℕ) (h : GCRootHeap) (answer : Ptr) : Outcome (GCRootHeap × MResult) :=
  let hash := h.mem.table.hash
  if hash.nlist * 3 ≤ hash.size then
    let nsize := if hash.size > 9 then hash.size else 9
    let h := h.mGCAllocBuf (hashListsSize nsize) answer
    if answer = NULL then pure (h, .errNoMem)
    else do
      -- `memset`
      h.access answer 0 (hashListsSize nsize).toNat
      let heads := List.replicate nsize.toNat NULL
      let st ← (List.range hash.nlist.toNat).foldlM (fun st pos => do
        let node ← h.load (.list pos)
        h.mHashResizeChain answer nsize fuel node st) (heads, h.mem.table.next)
      let h ← (if h.lists ≠ NULL then
        h.mGCFreeBuf h.lists ((hashListsSize hash.nlist).setWidth 32) else pure h)
      pure ({ h.setTable ⟨⟨st.1, hash.size, nsize⟩, st.2⟩ with lists := answer }, .ok)
  else pure (h, .ok)

/-- `gc_root_hash_startup`. -/
def gcRootHashStartup (h : GCRootHeap) : GCRootHeap :=
  { h with mem := Model.gcRootHashStartup h.mem, lists := NULL }

/-- `m_gc_add_root`; `record` and `buffer` are the answers of `malloc` for the record and for the
buffer of the resize. SOURCE: m_gc_root.c:79-110 -/
def mGCAddRoot (fuel : ℕ) (h : GCRootHeap) (ptr record buffer : Ptr) : Outcome GCRootHeap :=
  if ptr = NULL then .error .assertFailed
  else do
    let r ← h.mHashLookupWithKv fuel ptr
    let rn := mNodeValue 0 r.1
    if r.1 ≠ NULL then do
      h.access rn 16 4
      pure { h with mem := { h.mem with ref := Function.update h.mem.ref rn (h.mem.ref rn + 1) } }
    else
      let h := h.mGCAllocBuf GC_ROOT_NODE_SIZE record
      if record = NULL then .error .assertFailed
      else do
        h.access record 16 4
        h.access record 8 8
        let h := { h with mem := { h.mem with
          ref := Function.update h.mem.ref record 1, ptr := Function.update h.mem.ptr record ptr } }
        let q ← h.mHashResize fuel buffer
        if q.2 ≠ .ok then .error .assertFailed
        else q.1.mHashInsertWithKv record r.2

/-- `m_gc_remove_root`. SOURCE: m_gc_root.c:112-136 -/
def mGCRemoveRoot (fuel : ℕ) (h : GCRootHeap) (ptr : Ptr) : Outcome GCRootHeap :=
  if ptr = NULL then .error .assertFailed
  else do
    let r ← h.mHashLookupWithPrev fuel ptr
    let rn := mNodeValue 0 r.1
    if r.1 ≠ NULL then do
      h.access rn 16 4
      if h.mem.ref rn = 1 then
        match r.2 with
        | none => .error .nullDeref
        | some prev => do
          let h ← h.mHashRemoveFromPrev prev
          h.mGCFreeBuf rn (GC_ROOT_NODE_SIZE.setWidth 32)
      else
        pure { h with mem := { h.mem with
          ref := Function.update h.mem.ref rn (h.mem.ref rn - 1) } }
    else pure h

end GCRootHeap

end Ming.Model
