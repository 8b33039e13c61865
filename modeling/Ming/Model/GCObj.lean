import Ming.Model.GCHeap

/-!
# The object collector

The functions of m_gc_obj.c. `refs` gives the cells that a cell references, so that
`gc_scan` of a cell calls `gc_mark` on each of them. The result of `gc_mmap` is an argument
of the allocation. Loops over bitmap words and lists follow the lists; the marking loops,
whose length depends on the object graph, are unfolded along a fuel argument.
-/

set_option autoImplicit false

namespace Ming.Model

open Ming.Foundation

/-! ## Pools -/

/-- A pool of fewer than `2 ^ 31` cells, which the `int` that counts them can hold, as
`gc_alloc_pool` fills it in. The free cells are chained in the order of their addresses.
SOURCE: m_gc_obj.c:145-169 -/
def newPool (D : GCConfig) (type : MGCObjType) (base : Addr) : MGCCellPool :=
  let begin := base + poolHeaderSize + D.bitmapSize type
  { freeCells := (List.range (D.cellNum type)).map fun i => begin + i * (D.descrs type).size
    bitmap := List.replicate (D.bitmapWords type) 0
    begin := begin
    type := type }

/-- A new pool at the address that `gc_mmap` returned, pushed on the usable list.
SOURCE: m_gc_obj.c:134-173 -/
def gcAllocPool (D : GCConfig) (s : GCState) (type : MGCObjType) (map : Option Addr) :
    Option (Addr × GCState) :=
  match map with
  | none => none
  | some base =>
    let stub := s.stubs type
    some (base, (s.store base (newPool D type base)).setStub type
      { stub with usablePools := base :: stub.usablePools })

/-- SOURCE: m_gc_obj.c:176-180 -/
def gcFreePool (s : GCState) (base : Addr) : GCState :=
  { s with pools := fun b => if b = base then none else s.pools b }

/-! ## Marking -/

/-- SOURCE: m_gc_obj.c:188-198 -/
def gcPushGrayStack (D : GCConfig) (s : GCState) (ptr : Addr) : Bool × GCState :=
  if s.grayStack.length = D.grayStackSize then (false, { s with needScanGray := true })
  else (true, { s with grayStack := ptr :: s.grayStack })

/-- SOURCE: m_gc_obj.c:201-222 -/
def gcMarkWithColor (D : GCConfig) (s : GCState) (ptr : Addr) (setFlags : BitVec 32) :
    Outcome GCState := do
  let base := gcObjGetPool D ptr
  let pool ← s.load base
  let descr := D.descrs pool.type
  let id ← gcObjGetId descr pool ptr
  let flags ← gcObjGetBitmap pool id
  if flags = GC_MARK_WHITE then do
    let flags := if setFlags = GC_MARK_BLACK ∨ ¬ descr.hasPtr then GC_MARK_BLACK else flags
    let pool ← gcObjSetBitmap pool id flags
    let s := s.store base pool
    if flags = GC_MARK_GRAY then pure (gcPushGrayStack D s ptr).2 else pure s
  else pure s

/-- SOURCE: m_gc_obj.c:225-229 -/
def gcMark (D : GCConfig) (s : GCState) (ptr : Addr) : Outcome GCState :=
  gcMarkWithColor D s ptr GC_MARK_GRAY

/-- `GC_NB_FL_NO_PTR`: the new-born object holds no pointer yet. -/
abbrev GC_NB_FL_NO_PTR : ℕ := 1

/-- One word of a new-born stack. -/
def gcMarkNbWord (D : GCConfig) (s : GCState) (word : ℕ) : Outcome GCState :=
  if word &&& GC_NB_FL_NO_PTR ≠ 0 then
    gcMarkWithColor D s (word / 2 * 2) GC_MARK_BLACK
  else gcMark D s word

/-- The word with index `i`. -/
def gcMarkNbAt (D : GCConfig) (th : MThread) (s : GCState) (i : ℕ) : Outcome GCState :=
  match th.nbStack[i]? with
  | none => .error .outOfBounds
  | some word => gcMarkNbWord D s word

/-- The words from the bottom of a thread's new-born stack to its top. -/
def gcMarkNbStack (D : GCConfig) (s : GCState) (th : MThread) : Outcome GCState :=
  (List.range th.nbTop).foldlM (gcMarkNbAt D th) s

/-- SOURCE: m_gc_obj.c:232-255 -/
def gcMarkNbStacks (D : GCConfig) (s : GCState) : Outcome GCState :=
  s.threadList.foldlM (gcMarkNbStack D) s

/-- SOURCE: m_gc_obj.c:258-267 -/
def gcMarkRootHash (D : GCConfig) (s : GCState) : Outcome GCState :=
  s.rootHash.foldlM (gcMark D) s

/-- SOURCE: m_gc_obj.c:270-278 -/
def gcMarkRoot (D : GCConfig) (s : GCState) : Outcome GCState := do
  let s := { s with needScanGray := false, log := s.log ++ [.markRoot] }
  let s ← gcMarkNbStacks D s
  gcMarkRootHash D s

/-! ## Scanning for gray cells -/

/-- The address of the first cell of the bitmap word `n`. The number of the cell is an `int` and
`descr->size` a `uint32_t`, so that their product is taken modulo `2 ^ 32`.
SOURCE: m_gc_obj.c:298, 393 -/
def wordAddr (descr : MGCObjDescr) (begin : Addr) (n : ℕ) : Addr :=
  begin + 16 * n * descr.size % 2 ^ 32

/-- The marks left in one bitmap word; the result is false when the stack was full. A word
has sixteen marks.
SOURCE: m_gc_obj.c:296-316 -/
def gcScanWordGray (D : GCConfig) (descr : MGCObjDescr) :
    ℕ → GCState → BitVec 32 → Addr → Outcome (Bool × GCState)
  | 0, _, _, _ => .error .outOfFuel
  | n + 1, s, flags, ptr =>
    let mark := flags &&& 3
    let (pushed, s) := if mark = GC_MARK_GRAY then gcPushGrayStack D s ptr else (true, s)
    if pushed = false then .ok (false, s)
    else
      let flags := flags >>> 2
      if flags = 0 then .ok (true, s)
      else gcScanWordGray D descr n s flags (ptr + descr.size)

/-- The words of a bitmap.
SOURCE: m_gc_obj.c:295-321 -/
def gcScanWordsGray (D : GCConfig) (descr : MGCObjDescr) (pool : MGCCellPool) :
    List ℕ → GCState → Outcome (Bool × GCState)
  | [], s => .ok (true, s)
  | n :: words, s =>
    match pool.bitmap[n]? with
    | none => .error .outOfBounds
    | some w =>
      if w ≠ 0 then do
        let (pushed, s) ← gcScanWordGray D descr 16 s w (wordAddr descr pool.begin n)
        if pushed then gcScanWordsGray D descr pool words s else pure (false, s)
      else gcScanWordsGray D descr pool words s

/-- SOURCE: m_gc_obj.c:281-324 -/
def gcScanPoolGray (D : GCConfig) (s : GCState) (base : Addr) : Outcome (Bool × GCState) := do
  let pool ← s.load base
  gcScanWordsGray D (D.descrs pool.type) pool (List.range (D.bitmapWords pool.type)) s

/-- A list of pools, up to the one that finds the stack full. -/
def gcScanPoolsGray (D : GCConfig) : List Addr → GCState → Outcome (Bool × GCState)
  | [], s => .ok (true, s)
  | base :: bases, s => do
    let (pushed, s) ← gcScanPoolGray D s base
    if pushed then gcScanPoolsGray D bases s else pure (false, s)

/-- The object types, up to the one that finds the stack full. -/
def gcScanTypesGray (D : GCConfig) : List MGCObjType → GCState → Outcome (Bool × GCState)
  | [], s => .ok (true, s)
  | type :: types, s => do
    let (pushed, s) ← gcScanPoolsGray D (s.stubs type).fullPools s
    if pushed = false then pure (false, s)
    else do
      let (pushed, s) ← gcScanPoolsGray D (s.stubs type).usablePools s
      if pushed = false then pure (false, s) else gcScanTypesGray D types s

/-- SOURCE: m_gc_obj.c:327-349 -/
def gcScanGray (D : GCConfig) (s : GCState) : Outcome GCState :=
  if s.needScanGray = false then .error .assertFailed
  else do
    let (_, s) ← gcScanTypesGray D gcObjTypes { s with needScanGray := false }
    pure s

/-! ## The mark loop -/

/-- `gc_scan` of a cell: `gc_mark` on each cell it references. -/
def gcScan (D : GCConfig) (refs : Addr → List Addr) (s : GCState) (ptr : Addr) :
    Outcome GCState :=
  (refs ptr).foldlM (gcMark D) s

/-- The cells on the gray stack, until it is empty.
SOURCE: m_gc_obj.c:369-373 -/
def gcMarkStack (D : GCConfig) (refs : Addr → List Addr) : ℕ → GCState → Outcome GCState
  | 0, _ => .error .outOfFuel
  | n + 1, s =>
    match s.grayStack with
    | [] => .ok s
    | ptr :: rest => do
      let s := { s with grayStack := rest }
      let _ ← s.load (gcObjGetPool D ptr)
      let s ← gcScan D refs s ptr
      gcMarkStack D refs n s

/-- The stack behind the test for an empty one. -/
def gcMarkGray (D : GCConfig) (refs : Addr → List Addr) (fuel : ℕ) (s : GCState) :
    Outcome (Bool × GCState) :=
  if s.grayStack = [] then .error .assertFailed
  else do
    let s ← gcMarkStack D refs fuel s
    pure (!s.needScanGray, s)

/-- SOURCE: m_gc_obj.c:352-376 -/
def gcMarkObjs (D : GCConfig) (refs : Addr → List Addr) (fuel : ℕ) (s : GCState) :
    Outcome (Bool × GCState) :=
  if s.grayStack = [] then
    if s.needScanGray = false then .ok (true, s)
    else do
      let s ← gcScanGray D s
      gcMarkGray D refs fuel s
  else gcMarkGray D refs fuel s

/-! ## Sweeping -/

/-- What the sweep of a pool reads and writes. -/
structure GCSweep where
  pool : MGCCellPool
  haveBlack : Bool
  allocatedSize : ℕ
  log : List GCEvent

/-- One mark of a bitmap word.
SOURCE: m_gc_obj.c:401-421 -/
def gcSweepMark (descr : MGCObjDescr) (n : ℕ) (ptr : Addr) (shift : ℕ) (mark : BitVec 32)
    (sw : GCSweep) : Outcome GCSweep :=
  if mark = GC_MARK_WHITE then
    .ok { sw with
      log := sw.log ++ [.final sw.pool.type ptr]
      pool := { sw.pool with
        freeCells := ptr :: sw.pool.freeCells
        bitmap := sw.pool.bitmap.modify n fun w => w &&& ~~~(3#32 <<< shift) }
      allocatedSize := sw.allocatedSize - descr.size }
  else if mark = GC_MARK_BLACK then
    .ok { sw with
      pool := { sw.pool with
        bitmap := sw.pool.bitmap.modify n fun w =>
          (w &&& ~~~(3#32 <<< shift)) ||| (GC_MARK_WHITE <<< shift) }
      haveBlack := true }
  else if mark = GC_MARK_GRAY then .error .assertFailed
  else .ok sw

/-- The marks left in one bitmap word.
SOURCE: m_gc_obj.c:400-428 -/
def gcSweepWord (descr : MGCObjDescr) (n : ℕ) :
    ℕ → BitVec 32 → Addr → ℕ → GCSweep → Outcome GCSweep
  | 0, _, _, _, _ => .error .outOfFuel
  | k + 1, flags, ptr, shift, sw => do
    let sw ← gcSweepMark descr n ptr shift (flags &&& 3) sw
    let flags := flags >>> 2
    if flags = 0 then pure sw
    else gcSweepWord descr n k flags (ptr + descr.size) (shift + 2) sw

/-- The bitmap word with index `n`, whose first cell has the number `16 * n`.
SOURCE: m_gc_obj.c:393-432 -/
def gcSweepWordAt (descr : MGCObjDescr) (sw : GCSweep) (n : ℕ) : Outcome GCSweep :=
  match sw.pool.bitmap[n]? with
  | none => .error .outOfBounds
  | some w =>
    if w ≠ 0 then
      gcSweepWord descr n 16 w (wordAddr descr sw.pool.begin n) 0 sw
    else .ok sw

/-- SOURCE: m_gc_obj.c:379-441 -/
def gcSweepPool (D : GCConfig) (type : MGCObjType) (s : GCState) (base : Addr) :
    Outcome GCState := do
  let pool ← s.load base
  let sw ← (List.range (D.bitmapWords type)).foldlM (gcSweepWordAt (D.descrs type))
    ⟨pool, false, s.allocatedSize, s.log⟩
  let s := { s.store base sw.pool with allocatedSize := sw.allocatedSize, log := sw.log }
  let stub := s.stubs type
  if sw.haveBlack then
    if sw.pool.freeCells = [] then
      pure (s.setStub type { stub with fullPools := base :: stub.fullPools })
    else
      pure (s.setStub type { stub with usablePools := base :: stub.usablePools })
  else pure (gcFreePool s base)

/-- The pools of one object type, first the full ones.
SOURCE: m_gc_obj.c:455-474 -/
def gcSweepType (D : GCConfig) (s : GCState) (type : MGCObjType) : Outcome GCState := do
  let full := (s.stubs type).fullPools
  let usable := (s.stubs type).usablePools
  let s := s.setStub type ⟨[], []⟩
  let s ← full.foldlM (gcSweepPool D type) s
  usable.foldlM (gcSweepPool D type) s

/-- SOURCE: m_gc_obj.c:444-480 -/
def gcSweep (D : GCConfig) (s : GCState) : Outcome GCState := do
  let s ← gcObjTypes.foldlM (gcSweepType D) s
  pure { s with lastAllocatedSize := s.allocatedSize }

/-! ## Collection -/

/-- Stop when the time is up. SOURCE: m_gc_internal.h:126 -/
abbrev M_GC_COLLECT_FL_INCREMENT : BitVec 32 := 1
/-- Keep nothing. SOURCE: m_gc_internal.h:128 -/
abbrev M_GC_COLLECT_FL_CLEAR : BitVec 32 := 2

/-- `flags & M_GC_COLLECT_FL_INCREMENT` -/
def incremental (flags : BitVec 32) : Prop := flags &&& M_GC_COLLECT_FL_INCREMENT ≠ 0

/-- `flags & M_GC_COLLECT_FL_CLEAR` -/
def clearing (flags : BitVec 32) : Prop := flags &&& M_GC_COLLECT_FL_CLEAR ≠ 0

/-- The flag decides whether a collection is incremental. -/
instance (flags : BitVec 32) : Decidable (incremental flags) :=
  inferInstanceAs (Decidable (_ ≠ _))

/-- The flag decides whether a collection is clearing. -/
instance (flags : BitVec 32) : Decidable (clearing flags) :=
  inferInstanceAs (Decidable (_ ≠ _))

/-- `case GC_STATUS_COMPACT`, and the end of the switch. -/
def gcCollectCompact (s : GCState) : Bool × GCState := (true, { s with status := .idle })

/-- `case GC_STATUS_SWEEP` and what falls through from it.
SOURCE: m_gc_obj.c:512-521 -/
def gcCollectSweep (D : GCConfig) (flags : BitVec 32) (s : GCState) :
    Outcome (Bool × GCState) := do
  let s ← gcSweep D s
  let s := { s with status := .compact }
  if incremental flags then pure (false, s) else pure (gcCollectCompact s)

/-- The loop that repeats `gc_mark_objs`. The result is false when an incremental collection
returns from inside of it.
SOURCE: m_gc_obj.c:501-508 -/
def gcMarkPhase (D : GCConfig) (refs : Addr → List Addr) (flags : BitVec 32) :
    ℕ → GCState → Outcome (Bool × GCState)
  | 0, _ => .error .outOfFuel
  | n + 1, s => do
    let (b, s) ← gcMarkObjs D refs n s
    let s := if b then { s with status := GCStatus.sweep } else s
    if incremental flags then pure (false, s)
    else if b then pure (true, s)
    else gcMarkPhase D refs flags n s

/-- `case GC_STATUS_MARK_OBJ` and what falls through from it.
SOURCE: m_gc_obj.c:500-521 -/
def gcCollectMarkObj (D : GCConfig) (refs : Addr → List Addr) (fuel : ℕ) (flags : BitVec 32)
    (s : GCState) : Outcome (Bool × GCState) :=
  if clearing flags then gcCollectSweep D flags { s with status := .sweep }
  else do
    let (through, s) ← gcMarkPhase D refs flags fuel s
    if through then gcCollectSweep D flags s else pure (false, s)

/-- `case GC_STATUS_MARK_ROOT` and what falls through from it.
SOURCE: m_gc_obj.c:491-521 -/
def gcCollectMarkRoot (D : GCConfig) (refs : Addr → List Addr) (fuel : ℕ) (flags : BitVec 32)
    (s : GCState) : Outcome (Bool × GCState) :=
  if clearing flags then gcCollectMarkObj D refs fuel flags { s with status := .markObj }
  else do
    let s ← gcMarkRoot D s
    let s := { s with status := .markObj }
    if incremental flags then pure (false, s) else gcCollectMarkObj D refs fuel flags s

/-- SOURCE: m_gc_obj.c:483-522 -/
def gcDoCollect (D : GCConfig) (refs : Addr → List Addr) (fuel : ℕ) (flags : BitVec 32)
    (s : GCState) : Outcome (Bool × GCState) :=
  match s.status with
  | .idle => gcCollectMarkRoot D refs fuel flags { s with status := .markRoot }
  | .markRoot => gcCollectMarkRoot D refs fuel flags s
  | .markObj => gcCollectMarkObj D refs fuel flags s
  | .sweep => gcCollectSweep D flags s
  | .compact => .ok (gcCollectCompact s)

/-- Collect all objects, and free the gray stack.
SOURCE: m_gc_obj.c:746-754 -/
def gcObjShutdown (D : GCConfig) (refs : Addr → List Addr) (fuel : ℕ) (s : GCState) :
    Outcome GCState := do
  let (_, s) ← gcDoCollect D refs fuel M_GC_COLLECT_FL_CLEAR s
  pure { s with grayStack := [] }

/-- The collection as the heap sees it. With `waiting`, another thread runs the collector and
this one waits in `m_thread_check_nl` until that has ended.
SOURCE: m_gc_obj.c:525-568 -/
def gcCollectObjs (D : GCConfig) (refs : Addr → List Addr) (fuel : ℕ) (flags : BitVec 32)
    (waiting : Bool) (s : GCState) : Outcome GCState :=
  if waiting then .ok s
  else do
    let (_, s) ← gcDoCollect D refs fuel flags s
    pure s

/-! ## Allocation -/

/-- The buffer after `m_gc_realloc_buf`, sizes in words. Words that were never written are 0.
SOURCE: m_gc_buf.c:80-108 -/
def mGCReallocBuf (buf : List ℕ) (oldSize newSize : ℕ) : List ℕ :=
  if oldSize = 0 then List.replicate newSize 0
  else if newSize ≤ oldSize then buf
  else (buf ++ List.replicate (newSize - buf.length) 0).take newSize

/-- The thread with room for one more new-born object; `nb_size` is a `uint32_t`.
SOURCE: m_gc_obj.c:596-613 -/
def nbReserve (th : MThread) : MThread :=
  if th.nbTop = th.nbSize then
    let nsize := max (th.nbSize * 2 % 2 ^ 32) 32
    { th with nbStack := mGCReallocBuf th.nbStack th.nbSize nsize, nbSize := nsize }
  else th

/-- `th->nb_stack[th->nb_top ++] = addr`
SOURCE: m_gc_obj.c:627-629 -/
def nbPush (th : MThread) (addr : ℕ) : Outcome MThread :=
  if th.nbTop < th.nbStack.length then
    .ok { th with nbStack := th.nbStack.set th.nbTop addr, nbTop := (th.nbTop + 1) % 2 ^ 32 }
  else .error .outOfBounds

/-- The thread record of the caller. -/
def mThreadSelf (s : GCState) (th : ℕ) : Outcome MThread :=
  match s.threadList[th]? with
  | none => .error .assertFailed
  | some self => .ok self

/-- The first pool with a free cell, or a new one.
SOURCE: m_gc_obj.c:585-593 -/
def gcUsablePool (D : GCConfig) (s : GCState) (type : MGCObjType) (map : Option Addr) :
    Option (Addr × GCState) :=
  match (s.stubs type).usablePools with
  | [] => gcAllocPool D s type map
  | base :: _ => some (base, s)

/-- Pop a free cell of the pool, and move the pool to the full list after the last one.
SOURCE: m_gc_obj.c:615-623 -/
def gcPopCell (s : GCState) (type : MGCObjType) (base : Addr) : Outcome (Addr × GCState) := do
  let pool ← s.load base
  match pool.freeCells with
  | [] => .error .nullDeref
  | cell :: free =>
    let s := s.store base { pool with freeCells := free }
    if free = [] then
      match (s.stubs type).usablePools with
      | [] => .error .nullDeref
      | head :: usable =>
        pure (cell, s.setStub type ⟨usable, head :: (s.stubs type).fullPools⟩)
    else pure (cell, s)

/-- A cell of the pool for the thread: on its new-born stack, white and counted.
SOURCE: m_gc_obj.c:595-636 -/
def gcTakeCell (D : GCConfig) (s : GCState) (th : ℕ) (type : MGCObjType) (base : Addr) :
    Outcome (Addr × ℕ × GCState) := do
  let self ← mThreadSelf s th
  let self := nbReserve self
  let (cell, s) ← gcPopCell s type base
  let oid := self.nbTop
  let addr := cell ||| GC_NB_FL_NO_PTR
  let self ← nbPush self addr
  let s := s.setThread th self
  let pool ← s.load base
  let id ← gcObjGetId (D.descrs type) pool cell
  let pool ← gcObjSetBitmap pool id GC_MARK_WHITE
  let s := s.store base pool
  pure (cell, oid, { s with
    allocatedSize := s.allocatedSize + (D.descrs type).size
    log := s.log ++ [.alloc cell] })

/-- Whether an allocation starts a collection.
SOURCE: m_gc_obj.c:638-640 -/
def collectionNeeded (D : GCConfig) (s : GCState) : Prop :=
  D.beginSize ≤ s.allocatedSize ∧ s.lastAllocatedSize * 3 < s.allocatedSize * 2

/-- The byte counters decide whether a collection is due. -/
instance (D : GCConfig) (s : GCState) : Decidable (collectionNeeded D s) :=
  inferInstanceAs (Decidable (_ ∧ _))

/-- The object and its index on the new-born stack, or `none` when no pool can be mapped.
SOURCE: m_gc_obj.c:571-645 -/
def gcAllocObj (D : GCConfig) (refs : Addr → List Addr) (fuel : ℕ) (waiting : Bool)
    (s : GCState) (th : ℕ) (type : MGCObjType) (map : Option Addr) :
    Outcome (Option (Addr × ℕ) × GCState) :=
  match gcUsablePool D s type map with
  | none => .ok (none, s)
  | some (base, s) => do
    let (cell, oid, s) ← gcTakeCell D s th type base
    if collectionNeeded D s then do
      let s ← gcCollectObjs D refs fuel 0 waiting s
      pure (some (cell, oid), s)
    else pure (some (cell, oid), s)

/-! ## The other operations on new-born objects -/

/-- `th->nb_stack[oid] &= ~3`
SOURCE: m_gc.h:125-134 -/
def mGCAddObj (s : GCState) (th : ℕ) (oid : ℕ) : Outcome GCState := do
  let self ← mThreadSelf s th
  if oid < self.nbTop then
    if oid < self.nbStack.length then
      pure (s.setThread th { self with nbStack := self.nbStack.modify oid fun w => w / 4 * 4 })
    else .error .outOfBounds
  else .error .assertFailed

/-- SOURCE: m_gc.h:96-106 -/
def mGCSetNbLevel (s : GCState) (th : ℕ) (level : ℕ) : Outcome GCState := do
  let self ← mThreadSelf s th
  if level ≤ self.nbTop then pure (s.setThread th { self with nbTop := level })
  else .error .assertFailed

end Ming.Model
