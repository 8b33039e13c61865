import Ming.Model.GCOps
import Ming.Model.SList

/-!
# The object collector over the links in memory

The functions of m_gc_obj.c that follow or change a list, over the words that hold the links:
the heads in the stubs, the field `node` at the start of a pool, `free_cells` behind it, and the
first word of every free cell. The rest of the heap is a `GCState` whose lists stay empty, so
that no function can read one. A cell that is in use belongs to the program, which may write
any word of it.

`walk` bounds the rounds of a loop along links.
-/

set_option autoImplicit false

namespace Ming.Model

open Ming.Foundation

/-- The heads of the pool lists in `gc_obj_stubs`. -/
inductive PoolHead where
  | usablePools (type : MGCObjType)
  | fullPools (type : MGCObjType)
  deriving DecidableEq, Repr

/-- The heap with its links in memory. -/
structure GCMemory where
  state : GCState
  links : MSListMem PoolHead

/-- `&pool->free_cells`: the second word of a pool. -/
def freeCellsAt (base : Addr) : Addr := base + 8

namespace GCMemory

variable (D : GCConfig)

/-- An aligned word of a mapped pool. -/
def live (s : GCState) (a : Addr) : Bool :=
  decide (a % 8 = 0) && (s.pools (gcObjGetPool D a)).isSome

/-- A function that changes no link. -/
def onState (m : GCMemory) (f : GCState → Outcome GCState) : Outcome GCMemory := do
  let s ← f m.state
  pure { m with state := s }

/-! ## Pools -/

/-- The loop over the cells from `ptr` on, and `*pnode = NULL` behind it.
SOURCE: m_gc_obj.c:160-168 -/
def linkCells (live : Addr → Bool) (descrSize : ℕ) :
    ℕ → MSListMem PoolHead → Addr → Addr → Outcome (MSListMem PoolHead)
  | 0, links, pnode, _ => links.store live (.addr pnode) 0
  | num + 1, links, pnode, ptr => do
    let links ← links.store live (.addr pnode) ptr
    linkCells live descrSize num links ptr (ptr + descrSize)

/-- `num` is an `int`, which `while (num --)` counts down through all of its `2 ^ 32` values when it
is negative.
SOURCE: m_gc_obj.c:134-173 -/
def gcAllocPool (m : GCMemory) (type : MGCObjType) (map : Option Addr) :
    Outcome (Option (Addr × GCMemory)) :=
  match map with
  | none => .ok none
  | some base =>
    if base = 0 then .ok none
    else do
      let pool := { newPool D type base with freeCells := [] }
      let s := m.state.store base pool
      let num := BitVec.ofNat 32 (D.cellNum type)
      let links ← linkCells (live D s) (D.descrs type).size num.toNat m.links
        (freeCellsAt base) pool.begin
      let links ← mSListPush (live D s) links (.var (.usablePools type)) base
      pure (some (base, ⟨s, links⟩))

/-- SOURCE: m_gc_obj.c:176-180 -/
def gcFreePool (m : GCMemory) (base : Addr) : GCMemory :=
  { m with state := Model.gcFreePool m.state base }

/-! ## Scanning for gray cells -/

/-- `m_slist_foreach_value` over the pools from `pool` on, with the `return` in its body. -/
def gcScanPoolsGray : ℕ → GCMemory → Addr → Outcome (Bool × GCMemory)
  | 0, _, _ => .error .outOfFuel
  | walk + 1, m, pool =>
    if pool = 0 then .ok (true, m)
    else do
      let (pushed, s) ← gcScanPoolGray D m.state pool
      let m := { m with state := s }
      if pushed then do
        let next ← m.links.load (live D m.state) (.addr pool)
        gcScanPoolsGray walk m next
      else pure (false, m)

/-- The object types, up to the pool that finds the stack full. -/
def gcScanTypesGray (walk : ℕ) : List MGCObjType → GCMemory → Outcome (Bool × GCMemory)
  | [], m => .ok (true, m)
  | type :: types, m => do
    let (pushed, m) ← gcScanPoolsGray D walk m (m.links.head (.fullPools type))
    if pushed = false then pure (false, m)
    else do
      let (pushed, m) ← gcScanPoolsGray D walk m (m.links.head (.usablePools type))
      if pushed = false then pure (false, m) else gcScanTypesGray walk types m

/-- SOURCE: m_gc_obj.c:327-349 -/
def gcScanGray (walk : ℕ) (m : GCMemory) : Outcome GCMemory :=
  if m.state.needScanGray = false then .error .assertFailed
  else do
    let (_, m) ← gcScanTypesGray D walk gcObjTypes
      { m with state := { m.state with needScanGray := false } }
    pure m

/-! ## The mark loop -/

/-- The stack behind the test for an empty one. -/
def gcMarkGray (refs : Addr → List Addr) (fuel : ℕ) (m : GCMemory) :
    Outcome (Bool × GCMemory) :=
  if m.state.grayStack = [] then .error .assertFailed
  else do
    let m ← m.onState (gcMarkStack D refs fuel)
    pure (!m.state.needScanGray, m)

/-- SOURCE: m_gc_obj.c:352-376 -/
def gcMarkObjs (refs : Addr → List Addr) (walk fuel : ℕ) (m : GCMemory) :
    Outcome (Bool × GCMemory) :=
  if m.state.grayStack = [] then
    if m.state.needScanGray = false then .ok (true, m)
    else do
      let m ← m.gcScanGray D walk
      m.gcMarkGray D refs fuel
  else m.gcMarkGray D refs fuel

/-- SOURCE: m_gc_obj.c:501-508 -/
def gcMarkPhase (refs : Addr → List Addr) (walk : ℕ) (flags : BitVec 32) :
    ℕ → GCMemory → Outcome (Bool × GCMemory)
  | 0, _ => .error .outOfFuel
  | n + 1, m => do
    let (b, m) ← m.gcMarkObjs D refs walk n
    let m := if b then { m with state := { m.state with status := GCStatus.sweep } } else m
    if incremental flags then pure (false, m)
    else if b then pure (true, m)
    else gcMarkPhase refs walk flags n m

/-! ## Sweeping -/

/-- What the sweep of a pool reads and writes. -/
structure PoolSweep where
  sweep : GCSweep
  links : MSListMem PoolHead

/-- One mark of a bitmap word: a white cell is pushed on the free list of the pool at `base`.
SOURCE: m_gc_obj.c:401-421 -/
def gcSweepMark (live : Addr → Bool) (base : Addr) (descr : MGCObjDescr) (n : ℕ) (ptr : Addr)
    (shift : ℕ) (mark : BitVec 32) (ps : PoolSweep) : Outcome PoolSweep :=
  if mark = GC_MARK_WHITE then do
    let links ← mSListPush live ps.links (.addr (freeCellsAt base)) ptr
    let sw := ps.sweep
    pure ⟨{ sw with
      log := sw.log ++ [.final sw.pool.type ptr]
      pool := { sw.pool with bitmap := sw.pool.bitmap.modify n fun w => w &&& ~~~(3#32 <<< shift) }
      allocatedSize := sw.allocatedSize - descr.size }, links⟩
  else do
    let sw ← Model.gcSweepMark descr n ptr shift mark ps.sweep
    pure { ps with sweep := sw }

/-- The marks left in one bitmap word.
SOURCE: m_gc_obj.c:400-428 -/
def gcSweepWord (live : Addr → Bool) (base : Addr) (descr : MGCObjDescr) (n : ℕ) :
    ℕ → BitVec 32 → Addr → ℕ → PoolSweep → Outcome PoolSweep
  | 0, _, _, _, _ => .error .outOfFuel
  | k + 1, flags, ptr, shift, ps => do
    let ps ← gcSweepMark live base descr n ptr shift (flags &&& 3) ps
    let flags := flags >>> 2
    if flags = 0 then pure ps
    else gcSweepWord live base descr n k flags (ptr + descr.size) (shift + 2) ps

/-- The bitmap word with index `n`, whose first cell has the number `16 * n`. -/
def gcSweepWordAt (live : Addr → Bool) (base : Addr) (descr : MGCObjDescr) (ps : PoolSweep)
    (n : ℕ) : Outcome PoolSweep :=
  match ps.sweep.pool.bitmap[n]? with
  | none => .error .outOfBounds
  | some w =>
    if w ≠ 0 then
      gcSweepWord live base descr n 16 w (wordAddr descr ps.sweep.pool.begin n) 0 ps
    else .ok ps

/-- SOURCE: m_gc_obj.c:379-441 -/
def gcSweepPool (type : MGCObjType) (m : GCMemory) (base : Addr) : Outcome GCMemory := do
  let pool ← m.state.load base
  let ps ← (List.range (D.bitmapWords type)).foldlM
    (gcSweepWordAt (live D m.state) base (D.descrs type))
    ⟨⟨pool, false, m.state.allocatedSize, m.state.log⟩, m.links⟩
  let sw := ps.sweep
  let s := { m.state.store base sw.pool with allocatedSize := sw.allocatedSize, log := sw.log }
  if sw.haveBlack then
    if ← mSListEmpty (live D s) ps.links (.addr (freeCellsAt base)) then do
      let links ← mSListPush (live D s) ps.links (.var (.fullPools type)) base
      pure ⟨s, links⟩
    else do
      let links ← mSListPush (live D s) ps.links (.var (.usablePools type)) base
      pure ⟨s, links⟩
  else pure (gcFreePool ⟨s, ps.links⟩ base)

/-- The pools on a list whose head was copied: `node` is the first member of a pool.
SOURCE: m_gc_obj.c:467-473 -/
def gcSweepPools (walk : ℕ) (type : MGCObjType) (m : GCMemory) (first : Addr) :
    Outcome GCMemory := do
  let (m, _) ← mSListForeachValueSafe GCMemory.links (fun m => live D m.state) 0 walk
    (gcSweepPool D type) m first
  pure m

/-- The pools of one object type, first the full ones.
SOURCE: m_gc_obj.c:455-474 -/
def gcSweepType (walk : ℕ) (m : GCMemory) (type : MGCObjType) : Outcome GCMemory := do
  let full := m.links.head (.fullPools type)
  let usable := m.links.head (.usablePools type)
  let links ← mSListInit (live D m.state) m.links (.var (.fullPools type))
  let links ← mSListInit (live D m.state) links (.var (.usablePools type))
  let m ← gcSweepPools D walk type { m with links := links } full
  gcSweepPools D walk type m usable

/-- SOURCE: m_gc_obj.c:444-480 -/
def gcSweep (walk : ℕ) (m : GCMemory) : Outcome GCMemory := do
  let m ← gcObjTypes.foldlM (gcSweepType D walk) m
  pure { m with state := { m.state with lastAllocatedSize := m.state.allocatedSize } }

/-! ## Collection -/

/-- The memory with another status of the collector. -/
def withStatus (m : GCMemory) (status : GCStatus) : GCMemory :=
  { m with state := { m.state with status := status } }

/-- `case GC_STATUS_COMPACT`, and the end of the switch. -/
def gcCollectCompact (m : GCMemory) : Bool × GCMemory := (true, m.withStatus .idle)

/-- `case GC_STATUS_SWEEP` and what falls through from it.
SOURCE: m_gc_obj.c:512-521 -/
def gcCollectSweep (walk : ℕ) (flags : BitVec 32) (m : GCMemory) :
    Outcome (Bool × GCMemory) := do
  let m ← m.gcSweep D walk
  let m := m.withStatus .compact
  if incremental flags then pure (false, m) else pure m.gcCollectCompact

/-- `case GC_STATUS_MARK_OBJ` and what falls through from it.
SOURCE: m_gc_obj.c:500-521 -/
def gcCollectMarkObj (refs : Addr → List Addr) (walk fuel : ℕ) (flags : BitVec 32)
    (m : GCMemory) : Outcome (Bool × GCMemory) :=
  if clearing flags then (m.withStatus .sweep).gcCollectSweep D walk flags
  else do
    let (through, m) ← m.gcMarkPhase D refs walk flags fuel
    if through then m.gcCollectSweep D walk flags else pure (false, m)

/-- `case GC_STATUS_MARK_ROOT` and what falls through from it.
SOURCE: m_gc_obj.c:491-521 -/
def gcCollectMarkRoot (refs : Addr → List Addr) (walk fuel : ℕ) (flags : BitVec 32)
    (m : GCMemory) : Outcome (Bool × GCMemory) :=
  if clearing flags then (m.withStatus .markObj).gcCollectMarkObj D refs walk fuel flags
  else do
    let m ← m.onState (gcMarkRoot D)
    let m := m.withStatus .markObj
    if incremental flags then pure (false, m) else m.gcCollectMarkObj D refs walk fuel flags

/-- SOURCE: m_gc_obj.c:483-522 -/
def gcDoCollect (refs : Addr → List Addr) (walk fuel : ℕ) (flags : BitVec 32) (m : GCMemory) :
    Outcome (Bool × GCMemory) :=
  match m.state.status with
  | .idle => (m.withStatus .markRoot).gcCollectMarkRoot D refs walk fuel flags
  | .markRoot => m.gcCollectMarkRoot D refs walk fuel flags
  | .markObj => m.gcCollectMarkObj D refs walk fuel flags
  | .sweep => m.gcCollectSweep D walk flags
  | .compact => .ok m.gcCollectCompact

/-- SOURCE: m_gc_obj.c:525-568 -/
def gcCollectObjs (refs : Addr → List Addr) (walk fuel : ℕ) (flags : BitVec 32) (waiting : Bool)
    (m : GCMemory) : Outcome GCMemory :=
  if waiting then .ok m
  else do
    let (_, m) ← m.gcDoCollect D refs walk fuel flags
    pure m

/-! ## Allocation -/

/-- The first pool with a free cell, or a new one.
SOURCE: m_gc_obj.c:585-593 -/
def gcUsablePool (m : GCMemory) (type : MGCObjType) (map : Option Addr) :
    Outcome (Option (Addr × GCMemory)) := do
  if ← mSListEmpty (live D m.state) m.links (.var (.usablePools type)) then
    m.gcAllocPool D type map
  else pure (some (m.links.head (.usablePools type), m))

/-- Pop a free cell of the pool, and move the pool to the full list after the last one. A pop of
an empty list returns `NULL`, through which the pool or the cell is accessed next.
SOURCE: m_gc_obj.c:615-623 -/
def gcPopCell (m : GCMemory) (type : MGCObjType) (base : Addr) : Outcome (Addr × GCMemory) := do
  let (cell, links) ← mSListPop (live D m.state) m.links (.addr (freeCellsAt base))
  if cell = 0 then .error .nullDeref
  else if ← mSListEmpty (live D m.state) links (.addr (freeCellsAt base)) then do
    let (pool, links) ← mSListPop (live D m.state) links (.var (.usablePools type))
    if pool = 0 then .error .nullDeref
    else do
      let links ← mSListPush (live D m.state) links (.var (.fullPools type)) pool
      pure (cell, { m with links := links })
  else pure (cell, { m with links := links })

/-- SOURCE: m_gc_obj.c:595-636 -/
def gcTakeCell (m : GCMemory) (th : ℕ) (type : MGCObjType) (base : Addr) :
    Outcome (Addr × ℕ × GCMemory) := do
  let self ← mThreadSelf m.state th
  let self := nbReserve self
  let (cell, m) ← m.gcPopCell D type base
  let oid := self.nbTop
  let addr := cell ||| GC_NB_FL_NO_PTR
  let self ← nbPush self addr
  let s := m.state.setThread th self
  let pool ← s.load base
  let id ← gcObjGetId (D.descrs type) pool cell
  let pool ← gcObjSetBitmap pool id GC_MARK_WHITE
  let s := s.store base pool
  pure (cell, oid, { m with state := { s with
    allocatedSize := s.allocatedSize + (D.descrs type).size
    log := s.log ++ [.alloc cell] } })

/-- SOURCE: m_gc_obj.c:571-645 -/
def gcAllocObj (refs : Addr → List Addr) (walk fuel : ℕ) (waiting : Bool) (m : GCMemory) (th : ℕ)
    (type : MGCObjType) (map : Option Addr) : Outcome (Option (Addr × ℕ) × GCMemory) := do
  match ← m.gcUsablePool D type map with
  | none => .ok (none, m)
  | some (base, m) => do
    let (cell, oid, m) ← m.gcTakeCell D th type base
    if collectionNeeded D m.state then do
      let m ← m.gcCollectObjs D refs walk fuel 0 waiting
      pure (some (cell, oid), m)
    else pure (some (cell, oid), m)

end GCMemory

/-! ## The operations -/

/-- An operation on the heap, or a store of the program into a cell of its own. -/
inductive GCMemOp where
  | heap (op : GCOp)
  | write (a v : Addr)

/-- The effect of an operation on the memory. -/
def GCMemOp.exec (D : GCConfig) (refs : Addr → List Addr) (walk fuel : ℕ) (m : GCMemory) :
    GCMemOp → Outcome GCMemory
  | .heap (.alloc th type map waiting) => do
    let (_, m) ← m.gcAllocObj D refs walk fuel waiting th type map
    pure m
  | .heap (.run flags waiting) => m.gcCollectObjs D refs walk fuel flags waiting
  | .heap op => m.onState fun s => op.exec D refs fuel s
  | .write a v => do
    let links ← m.links.store (GCMemory.live D m.state) (.addr a) v
    pure { m with links := links }

/-- The word at `a` lies in a cell that is in use. -/
def GCMemory.inUse (D : GCConfig) (m : GCMemory) (a : Addr) : Prop :=
  ∃ base pool id flags k, m.state.pools base = some pool ∧ id < D.cellNum pool.type ∧
    gcObjGetBitmap pool id = .ok flags ∧ flags ≠ GC_MARK_UNUSED ∧
    a = pool.begin + id * (D.descrs pool.type).size + 8 * k ∧
    8 * k + 8 ≤ (D.descrs pool.type).size

/-- What the operation may rely on: a pool that it maps lies in a free range, which does not begin
at the null address, as `mmap` promises, and the program writes into cells in use only. -/
def GCMemOp.allowed (D : GCConfig) (m : GCMemory) : GCMemOp → Prop
  | .heap (.alloc _ type (some base) _) => m.links.head (.usablePools type) = 0 → base ≠ 0 ∧
      ∀ b, m.state.pools b ≠ none → b + D.poolSize ≤ base ∨ base + D.poolSize ≤ b
  | .heap _ => True
  | .write a _ => m.inUse D a

/-- One operation that returns, its loops along links unfolded often enough. -/
def GCMemStep (D : GCConfig) (m : GCMemory) (op : GCMemOp) (m' : GCMemory) : Prop :=
  op.allowed D m ∧ ∃ refs fuel rounds, ∀ walk ≥ rounds, op.exec D refs walk fuel m = .ok m'

/-- What the collector does not check, along the links: see `AllocPlaced`. -/
structure GCMemory.AllocPlaced (D : GCConfig) (m : GCMemory) (type : MGCObjType)
    (map : Option Addr) : Prop where
  aligned : m.links.head (.usablePools type) = 0 → ∀ base, map = some base → D.poolSize ∣ base
  counted : m.links.head (.usablePools type) = 0 → ∀ base, map = some base →
    D.cellNum type < 2 ^ 31
  near : m.links.head (.usablePools type) ≠ 0 → ∀ pool,
    m.state.pools (m.links.head (.usablePools type)) = some pool →
    cellNear (D.descrs type) pool (m.links.next (freeCellsAt (m.links.head (.usablePools type))))

/-- The operation meets what the collector does not check. -/
def GCMemOp.placed (D : GCConfig) (m : GCMemory) : GCMemOp → Prop
  | .heap (.alloc _ type map _) => m.AllocPlaced D type map
  | _ => True

/-- The memory after `m_gc_startup`: every list is empty. -/
def gcMemoryStartup (next : Addr → Addr) : GCMemory := ⟨gcObjStartup, ⟨fun _ => 0, next⟩⟩

end Ming.Model
