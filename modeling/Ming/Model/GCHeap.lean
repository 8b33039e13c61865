import Ming.Foundation.Outcome

/-!
# The cell heap

The data of the object collector: cell pools with their packed mark bitmaps, the pool lists
of every object type, the gray stack, the new-born stacks of the threads and the counters.
A pool is found from a cell by clearing the low bits of the address, so the memory maps the
base of a pool to its header. Lists threaded through pools and free cells are lists here.
Addresses, sizes and cell numbers are naturals: everything they count lies in mapped memory.
-/

set_option autoImplicit false

namespace Ming.Model

open Ming.Foundation

/-- An address in the cell heap. -/
abbrev Addr := ℕ

/-- GC managed object types, without the buffer type.
SOURCE: m_gc.h:58-68 -/
inductive MGCObjType where
  | ptr
  | double
  | string
  | object
  | closure
  | array
  | frame
  deriving DecidableEq, Repr

/-- The types in the order of `for (type = 0; type < M_GC_OBJ_COUNT; type ++)`. -/
def gcObjTypes : List MGCObjType := [.ptr, .double, .string, .object, .closure, .array, .frame]

/-- `M_GC_OBJ_FL_PTR`: the object contains pointers. -/
abbrev M_GC_OBJ_FL_PTR : BitVec 32 := 1

/-- The description of an object type. The size of a C type is a multiple of its alignment.
SOURCE: m_gc.h:47-55 -/
structure MGCObjDescr where
  flags : BitVec 32
  size : ℕ
  size_aligned : 8 ∣ size

/-- `descr->flags & M_GC_OBJ_FL_PTR` -/
def MGCObjDescr.hasPtr (descr : MGCObjDescr) : Prop := descr.flags &&& M_GC_OBJ_FL_PTR ≠ 0

/-- The flag decides whether cells of a type have pointers. -/
instance (descr : MGCObjDescr) : Decidable descr.hasPtr :=
  inferInstanceAs (Decidable (_ ≠ _))

/-- The table of descriptions, with the sizes of a 64-bit target.
SOURCE: m_gc_funcs.c:26-91 -/
def gcObjDescrs : MGCObjType → MGCObjDescr
  | .ptr => ⟨M_GC_OBJ_FL_PTR, 8, by decide⟩
  | .double => ⟨0, 8, by decide⟩
  | .string => ⟨M_GC_OBJ_FL_PTR, 16, by decide⟩
  | .object => ⟨M_GC_OBJ_FL_PTR, 40, by decide⟩
  | .closure => ⟨M_GC_OBJ_FL_PTR, 24, by decide⟩
  | .array => ⟨M_GC_OBJ_FL_PTR, 0, by decide⟩
  | .frame => ⟨M_GC_OBJ_FL_PTR, 24, by decide⟩

/-- What `gc_obj_startup` fixes for the rest of the run. The pool size is a power of two. -/
structure GCConfig where
  descrs : MGCObjType → MGCObjDescr
  poolBits : ℕ
  beginSize : ℕ
  grayStackSize : ℕ
  page_le : 12 ≤ poolBits
  grayStackSize_pos : 0 < grayStackSize

/-- The configuration of a program that sets none of the environment variables.
SOURCE: m_gc_obj.c:27-33, 648-743 -/
def defaultConfig : GCConfig := ⟨gcObjDescrs, 12, 128 * 1024, 256, le_rfl, by decide⟩

/-- `gc_cell_pool_size` -/
def GCConfig.poolSize (D : GCConfig) : ℕ := 2 ^ D.poolBits

/-- `sizeof(M_GCCellPool)` on a 64-bit target. -/
def poolHeaderSize : ℕ := 40

/-- `M_ALIGN_UP(num * 2, sizeof(uintptr_t) * 8) / 8`: bytes that hold two bits for each of
`num` cells. -/
def bitmapBytes (num : ℕ) : ℕ := (num * 2 + 63) / 64 * 64 / 8

/-- The sizing loop: the first cell number from `num` downwards that fits `size` bytes.
SOURCE: m_gc_obj.c:723-736 -/
def fitCells (size descrSize : ℕ) : ℕ → ℕ
  | 0 => 0
  | num + 1 =>
    if (num + 1) * descrSize + bitmapBytes (num + 1) ≤ size then num + 1
    else fitCells size descrSize num

/-- `stub->cell_num`; the number to begin with is a quotient of `size_t` values. -/
def GCConfig.cellNum (D : GCConfig) (type : MGCObjType) : ℕ :=
  fitCells (D.poolSize - poolHeaderSize) (D.descrs type).size
    ((D.poolSize - poolHeaderSize) * 8 % 2 ^ 64 / ((D.descrs type).size * 8 + 2))

/-- `stub->bitmap_size` -/
def GCConfig.bitmapSize (D : GCConfig) (type : MGCObjType) : ℕ := bitmapBytes (D.cellNum type)

/-- The words of a pool's bitmap. -/
def GCConfig.bitmapWords (D : GCConfig) (type : MGCObjType) : ℕ := D.bitmapSize type / 4

/-- A free cell. SOURCE: m_gc_obj.c:39 -/
abbrev GC_MARK_UNUSED : BitVec 32 := 0
/-- A cell that was not met yet. SOURCE: m_gc_obj.c:40 -/
abbrev GC_MARK_WHITE : BitVec 32 := 1
/-- A cell whose references are still to be followed. SOURCE: m_gc_obj.c:41 -/
abbrev GC_MARK_GRAY : BitVec 32 := 2
/-- A cell that is kept. SOURCE: m_gc_obj.c:42 -/
abbrev GC_MARK_BLACK : BitVec 32 := 3

/-- A cell pool: its header and the bitmap behind it.
SOURCE: m_gc_internal.h:64-71 -/
structure MGCCellPool where
  freeCells : List Addr
  bitmap : List (BitVec 32)
  begin : Addr
  type : MGCObjType

/-- The pool lists of an object type. Cell number and bitmap size are in the configuration.
SOURCE: m_gc_internal.h:56-62 -/
structure MGCPoolStub where
  usablePools : List Addr
  fullPools : List Addr

/-- SOURCE: m_gc_obj.c:45-52 -/
inductive GCStatus where
  | idle
  | markRoot
  | markObj
  | sweep
  | compact
  deriving DecidableEq, Repr

/-- What the collector needs of a thread record: the new-born stack buffer, and its size and
top as the `uint32_t` fields have them.
SOURCE: m_thread.h:33-41 -/
structure MThread where
  nbStack : List ℕ
  nbSize : ℕ
  nbTop : ℕ
  deriving DecidableEq

/-- The events that a collector leaves behind: roots marked, a cell handed out, a cell
finalized. The code does not keep them; the statements about runs do. -/
inductive GCEvent where
  | markRoot
  | alloc (ptr : Addr)
  | final (type : MGCObjType) (ptr : Addr)
  deriving DecidableEq, Repr

/-- The state of the collector. `pools` maps the base of a mapped pool to the pool, and
`rootHash` lists the `ptr` fields in the order in which `m_hash_foreach_value` meets them. -/
structure GCState where
  pools : Addr → Option MGCCellPool
  stubs : MGCObjType → MGCPoolStub
  grayStack : List Addr
  needScanGray : Bool
  status : GCStatus
  allocatedSize : ℕ
  lastAllocatedSize : ℕ
  threadList : List MThread
  rootHash : List Addr
  log : List GCEvent

/-- The memory access behind `pool->…`. -/
def GCState.load (s : GCState) (base : Addr) : Outcome MGCCellPool :=
  match s.pools base with
  | none => .error .unmapped
  | some pool => .ok pool

/-- Write a pool back. -/
def GCState.store (s : GCState) (base : Addr) (pool : MGCCellPool) : GCState :=
  { s with pools := fun b => if b = base then some pool else s.pools b }

/-- Replace the lists of one object type. -/
def GCState.setStub (s : GCState) (type : MGCObjType) (stub : MGCPoolStub) : GCState :=
  { s with stubs := fun t => if t = type then stub else s.stubs t }

/-- Replace a thread record. -/
def GCState.setThread (s : GCState) (th : ℕ) (self : MThread) : GCState :=
  { s with threadList := s.threadList.set th self }

/-- The state after `m_gc_startup` and `m_thread_startup`. -/
def gcObjStartup : GCState where
  pools := fun _ => none
  stubs := fun _ => ⟨[], []⟩
  grayStack := []
  needScanGray := false
  status := .idle
  allocatedSize := 0
  lastAllocatedSize := 0
  threadList := [⟨[], 0, 0⟩]
  rootHash := []
  log := []

/-! ## Cells and their marks -/

/-- SOURCE: m_gc_obj.c:82-86 -/
def gcObjGetPool (D : GCConfig) (ptr : Addr) : Addr := ptr / D.poolSize * D.poolSize

/-- The number of a cell. The `int` that the source returns holds every number of a pool of fewer
than `2 ^ 31` cells.
SOURCE: m_gc_obj.c:98-104 -/
def gcObjGetId (descr : MGCObjDescr) (pool : MGCCellPool) (ptr : Addr) : Outcome ℕ :=
  if ptr < pool.begin then .error .outOfBounds
  else if descr.size = 0 then .error .divByZero
  else .ok ((ptr - pool.begin) / descr.size)

/-- SOURCE: m_gc_obj.c:107-119 -/
def gcObjSetBitmap (pool : MGCCellPool) (id : ℕ) (flags : BitVec 32) : Outcome MGCCellPool :=
  let n := id >>> 4
  let b := (id &&& 0xF) <<< 1
  let mask := 3#32 <<< b
  if n < pool.bitmap.length then
    .ok { pool with bitmap := pool.bitmap.modify n fun w => (w &&& ~~~mask) ||| (flags <<< b) }
  else .error .outOfBounds

/-- SOURCE: m_gc_obj.c:122-132 -/
def gcObjGetBitmap (pool : MGCCellPool) (id : ℕ) : Outcome (BitVec 32) :=
  let n := id >>> 4
  let b := (id &&& 0xF) <<< 1
  match pool.bitmap[n]? with
  | none => .error .outOfBounds
  | some w => .ok ((w >>> b) &&& 3)

end Ming.Model
