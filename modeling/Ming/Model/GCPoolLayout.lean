import Mathlib.Logic.Function.Basic
import Ming.Foundation.AlignUp
import Ming.Model.GCObj

/-!
# The layout of a pool (m_gc_obj.c)

How `gc_obj_startup` sizes the pools of a type in machine words, and how `gc_alloc_pool` threads
the free list through the cells of a new pool. The numbers that the sizing loop tries are
returned with its result.
-/

set_option autoImplicit false

namespace Ming.Model

open Ming.Foundation

/-! ## The sizes -/

/-- `M_ALIGN_UP(num * 2, sizeof(uintptr_t) * 8) / 8` -/
def stubBitmapSize (num : BitVec 64) : BitVec 64 := alignUp (num * 2) (8 * 8) / 8

/-- The sizing loop with `num` cells to be tried next: `num` and `bs` behind it, and what was
tried.
SOURCE: m_gc_obj.c:728-735 -/
def stubLoop (size : BitVec 64) (descrSize : BitVec 32) :
    ℕ → BitVec 64 → Outcome (BitVec 64 × BitVec 64 × List (BitVec 64))
  | 0, _ => .error .outOfFuel
  | fuel + 1, num =>
    let bs := stubBitmapSize num
    if num * descrSize.setWidth 64 + bs ≤ size then .ok (num, bs, [num])
    else do
      let (n, b, tried) ← stubLoop size descrSize fuel (num - 1)
      pure (n, b, num :: tried)

/-- `stub->cell_num` and `stub->bitmap_size`; `descr->size` is a `uint32_t`.
SOURCE: m_gc_obj.c:723-738 -/
def gcObjStartupStub (fuel : ℕ) (poolSize : BitVec 64) (descrSize : BitVec 32) :
    Outcome (BitVec 64 × BitVec 64 × List (BitVec 64)) :=
  let size := poolSize - BitVec.ofNat 64 poolHeaderSize
  stubLoop size descrSize fuel (size * 8 / (descrSize * 8 + 2).setWidth 64)

/-! ## The free list of a new pool -/

/-- A place in a pool that holds a link. -/
inductive CellSlot where
  | freeCells
  | next (cell : Addr)
  deriving DecidableEq

/-- What `gc_alloc_pool` fills in. -/
structure PoolMem where
  type : MGCObjType
  bitmap : List (BitVec 32)
  begin : Addr
  links : CellSlot → Addr

/-- The pool with its free list, as the heap keeps it. -/
def PoolMem.pool (m : PoolMem) (cells : List Addr) : MGCCellPool :=
  ⟨cells, m.bitmap, m.begin, m.type⟩

/-- `sizeof(M_GCCell)` on a 64-bit target. -/
def cellNodeSize : ℕ := 8

/-- `*pnode = node` into the pool at `base`; the bytes behind the pool are not its own. -/
def storeLink (D : GCConfig) (base : Addr) (links : CellSlot → Addr) (pnode : CellSlot)
    (node : Addr) : Outcome (CellSlot → Addr) :=
  match pnode with
  | .freeCells => .ok (Function.update links .freeCells node)
  | .next cell =>
    if base ≤ cell ∧ cell + cellNodeSize ≤ base + D.poolSize then
      .ok (Function.update links (.next cell) node)
    else .error .outOfBounds

/-- The loop over the cells from `ptr` on, and `*pnode = NULL` behind it.
SOURCE: m_gc_obj.c:160-168 -/
def threadCells (D : GCConfig) (base : Addr) (descrSize : ℕ) :
    ℕ → (CellSlot → Addr) → CellSlot → Addr → Outcome (CellSlot → Addr)
  | 0, links, pnode, _ => storeLink D base links pnode 0
  | num + 1, links, pnode, ptr => do
    let links ← storeLink D base links pnode ptr
    threadCells D base descrSize num links (.next ptr) (ptr + descrSize)

/-- `gc_alloc_pool` at the address that `gc_mmap` returned. `links` is what was there before;
`num` is an `int`.
SOURCE: m_gc_obj.c:134-173 -/
def gcFillPool (D : GCConfig) (type : MGCObjType) (base : Addr) (links : CellSlot → Addr) :
    Outcome PoolMem :=
  let ptr := base + poolHeaderSize
  if ptr + D.bitmapSize type ≤ base + D.poolSize then do
    let bitmap := List.replicate (D.bitmapWords type) 0
    let begin := ptr + D.bitmapSize type
    let num := BitVec.ofNat 32 (D.cellNum type)
    let links ← threadCells D base (D.descrs type).size num.toNat links .freeCells begin
    pure ⟨type, bitmap, begin, links⟩
  else .error .outOfBounds

end Ming.Model
