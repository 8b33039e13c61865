import Mathlib.Data.List.Basic
import Mathlib.Logic.Function.Basic
import Ming.Model.CommonTypes

/-!
# The hash table (m_hash.h)

The functions of m_hash.h over an explicit memory: the record `M_Hash`, the buffer of list
heads it points to, and the `next` field of every node. A slot is a place that holds a node
pointer, the target of `M_HashNode **`. Reading outside the buffer and a modulo by zero are
faults; every walk along a list is unfolded along `fuel`.
-/

set_option autoImplicit false

namespace Ming.Model

open Ming.Foundation

/-- `M_Hash` with the buffer it points to; before the first resize the buffer is missing
(`lists` is `NULL`) and has no entries. -/
structure MHash where
  lists : List Ptr
  size : BitVec 32
  nlist : BitVec 32

/-- The memory of a hash table: the table and the `next` field of every node. -/
structure HashMem where
  hash : MHash
  next : Ptr → Ptr

/-- The functions of `M_HashOps` that compute. -/
structure MHashOps (K : Type) where
  getKey : Ptr → K
  kv : K → BitVec 32
  equal : K → K → Bool

/-- `M_OK` and `M_ERR_NO_MEM`. -/
inductive MResult where
  | ok
  | errNoMem
  deriving DecidableEq, Repr

/-- A place that holds a node pointer: an entry of the buffer or the link of a node. -/
inductive HashSlot where
  | list (pos : ℕ)
  | next (node : Ptr)
  deriving DecidableEq, Repr

/-- The C operator `%` on `uint32_t`. -/
def umod (a b : BitVec 32) : Outcome (BitVec 32) :=
  if b = 0 then .error .divByZero else .ok (a % b)

/-- `m_ptr_hash_kv_func`: the low 32 bits of the pointer. -/
def mPtrHashKvFunc (key : Ptr) : BitVec 32 := key.setWidth 32

/-- `m_ptr_hash_equal_func`. -/
def mPtrHashEqualFunc (key1 key2 : Ptr) : Bool := key1 = key2

namespace HashMem

/-- `*slot`. -/
def load (m : HashMem) : HashSlot → Outcome Ptr
  | .list pos => match m.hash.lists[pos]? with
    | some head => .ok head
    | none => .error .outOfBounds
  | .next node => .ok (m.next node)

/-- `*slot = v`. -/
def store (m : HashMem) (slot : HashSlot) (v : Ptr) : Outcome HashMem :=
  match slot with
  | .list pos =>
    if pos < m.hash.lists.length then
      .ok { m with hash := { m.hash with lists := m.hash.lists.set pos v } }
    else .error .outOfBounds
  | .next node => .ok { m with next := Function.update m.next node v }

/-- `hash->size = v`. -/
def setSize (m : HashMem) (v : BitVec 32) : HashMem := { m with hash := { m.hash with size := v } }

end HashMem

/-- `m_hash_init`. -/
def mHashInit (m : HashMem) : HashMem := { m with hash := ⟨[], 0, 0⟩ }

section Operations

variable {K : Type}

/-! ## Lookup -/

/-- The loop of `m_hash_lookup_with_kv`. -/
def mHashLookupLoop (m : HashMem) (key : K) (ops : MHashOps K) : ℕ → Ptr → Outcome Ptr
  | 0, _ => .error .outOfFuel
  | fuel + 1, node =>
    if node = NULL then .ok NULL
    else if ops.equal key (ops.getKey node) then .ok node
    else mHashLookupLoop m key ops fuel (m.next node)

/-- `m_hash_lookup_with_kv`: the node and `*pkv`. -/
def mHashLookupWithKv (fuel : ℕ) (m : HashMem) (key : K) (ops : MHashOps K) :
    Outcome (Ptr × BitVec 32) :=
  let kv := ops.kv key
  if m.hash.size ≠ 0 then do
    let pos ← umod kv m.hash.nlist
    let node ← m.load (.list pos.toNat)
    let node ← mHashLookupLoop m key ops fuel node
    pure (node, kv)
  else pure (NULL, kv)

/-- The loop of `m_hash_lookup_with_prev`. -/
def mHashLookupPrevLoop (m : HashMem) (key : K) (ops : MHashOps K) :
    ℕ → HashSlot → Ptr → Outcome (Ptr × Option HashSlot)
  | 0, _, _ => .error .outOfFuel
  | fuel + 1, prev, node =>
    if node = NULL then .ok (NULL, none)
    else if ops.equal key (ops.getKey node) then .ok (node, some prev)
    else do
      let prev := HashSlot.next node
      let node ← m.load prev
      mHashLookupPrevLoop m key ops fuel prev node

/-- `m_hash_lookup_with_prev`: the node and, when there is one, `*pprev`. -/
def mHashLookupWithPrev (fuel : ℕ) (m : HashMem) (key : K) (ops : MHashOps K) :
    Outcome (Ptr × Option HashSlot) :=
  let kv := ops.kv key
  if m.hash.size ≠ 0 then do
    let pos ← umod kv m.hash.nlist
    let prev := HashSlot.list pos.toNat
    let node ← m.load prev
    mHashLookupPrevLoop m key ops fuel prev node
  else pure (NULL, none)

/-- `m_hash_lookup`. -/
def mHashLookup (fuel : ℕ) (m : HashMem) (key : K) (ops : MHashOps K) : Outcome Ptr :=
  return (← mHashLookupWithKv fuel m key ops).1

/-! ## Removal -/

/-- The loop of `m_hash_remove`. -/
def mHashRemoveLoop (m : HashMem) (key : K) (ops : MHashOps K) :
    ℕ → HashSlot → Outcome (HashMem × Ptr)
  | 0, _ => .error .outOfFuel
  | fuel + 1, pnode => do
    let node ← m.load pnode
    if node = NULL then pure (m, NULL)
    else if ops.equal key (ops.getKey node) then do
      let m ← m.store pnode (m.next node)
      pure (m.setSize (m.hash.size - 1), node)
    else mHashRemoveLoop m key ops fuel (.next node)

/-- `m_hash_remove`. -/
def mHashRemove (fuel : ℕ) (m : HashMem) (key : K) (ops : MHashOps K) :
    Outcome (HashMem × Ptr) :=
  if m.hash.size ≠ 0 then do
    let pos ← umod (ops.kv key) m.hash.nlist
    mHashRemoveLoop m key ops fuel (.list pos.toNat)
  else pure (m, NULL)

/-- `m_hash_remove_from_prev`. -/
def mHashRemoveFromPrev (m : HashMem) (pnode : HashSlot) : Outcome (HashMem × Ptr) := do
  let node ← m.load pnode
  if node = NULL then .error .assertFailed
  else do
    let m ← m.store pnode (m.next node)
    pure (m.setSize (m.hash.size - 1), node)

/-! ## Insertion -/

/-- `m_hash_insert_with_kv`. -/
def mHashInsertWithKv (m : HashMem) (node : Ptr) (kv : BitVec 32) : Outcome HashMem :=
  if node = NULL then .error .assertFailed
  else if m.hash.nlist = 0 then .error .assertFailed
  else do
    let pos ← umod kv m.hash.nlist
    let head ← m.load (.list pos.toNat)
    let m ← m.store (.next node) head
    let m ← m.store (.list pos.toNat) node
    pure (m.setSize (m.hash.size + 1))

/-- `m_hash_insert`. -/
def mHashInsert (m : HashMem) (node : Ptr) (ops : MHashOps K) : Outcome HashMem :=
  mHashInsertWithKv m node (ops.kv (ops.getKey node))

/-! ## Resizing -/

/-- The inner loop of `m_hash_foreach_safe` in `m_hash_resize`: move the nodes of one old
list to the new buffer. -/
def mHashResizeChain (ops : MHashOps K) (nsize : BitVec 32) :
    ℕ → Ptr → List Ptr × (Ptr → Ptr) → Outcome (List Ptr × (Ptr → Ptr))
  | 0, _, _ => .error .outOfFuel
  | fuel + 1, node, (nbuf, next) =>
    if node = NULL then .ok (nbuf, next)
    else do
      let nnext := next node
      let i ← umod (ops.kv (ops.getKey node)) nsize
      match nbuf[i.toNat]? with
      | none => .error .outOfBounds
      | some head =>
        mHashResizeChain ops nsize fuel nnext
          (nbuf.set i.toNat node, Function.update next node head)

/-- `m_hash_resize`; `alloc` tells whether `alloc_buf` returns a buffer. -/
def mHashResize (fuel : ℕ) (m : HashMem) (ops : MHashOps K) (alloc : Bool) :
    Outcome (HashMem × MResult) :=
  if m.hash.nlist * 3 ≤ m.hash.size then
    let nsize := if m.hash.size > 9 then m.hash.size else 9
    if !alloc then pure (m, .errNoMem)
    else do
      let nbuf := List.replicate nsize.toNat NULL
      let (nbuf, next) ← (List.range m.hash.nlist.toNat).foldlM (fun st pos => do
        let node ← m.load (.list pos)
        mHashResizeChain ops nsize fuel node st) (nbuf, m.next)
      pure (⟨⟨nbuf, m.hash.size, nsize⟩, next⟩, .ok)
  else pure (m, .ok)

end Operations

end Ming.Model
