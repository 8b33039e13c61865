import Ming.Analysis.GCSoundness
import Ming.Analysis.GCSweepCells

/-!
# A run to a far cell

A thread allocates doubles in a pool of `2 ^ 33` bytes, one after the other, and keeps only the
first of them on its new-born stack, until a double lies `2 ^ 32` bytes behind the first cell. The
collection that follows computes the address of the first cell for that one: it runs a finalizer
on a cell that it keeps, and puts it on the free list.
-/

set_option autoImplicit false

namespace Ming.Analysis

open Ming.Foundation Ming.Model Ming.Interface

variable {D : GCConfig} {s s' : GCState} {pool pool' : MGCCellPool} {base : Addr} {th n : ℕ}
variable {type : MGCObjType} {refs : Addr → List Addr}

/-- The pool at `base` is the only one, and its first `n` cells have been handed out. -/
structure Filled (D : GCConfig) (base : Addr) (pool : MGCCellPool) (n : ℕ) (s : GCState) :
    Prop where
  heap : HeapInv D [] s
  mapped : s.pools base = some pool
  other : ∀ b, b ≠ base → s.pools b = none
  mark : ∀ id, poolMark pool id = if id < n then GC_MARK_WHITE else GC_MARK_UNUSED
  free : pool.freeCells =
    (List.range' n (D.cellNum pool.type - n)).map (cellAddr D pool)
  bytes : s.allocatedSize = n * (D.descrs pool.type).size

/-! ## Allocating one cell after the other -/

/-- INTERNAL: the allocation has its pool. -/
theorem Filled.usable (h : Filled D base pool n s) (hn : n < D.cellNum pool.type) :
    (s.stubs pool.type).usablePools = [base] := by
  have hfree : pool.freeCells ≠ [] := by
    rw [h.free]
    simp
    omega
  have hmem : ∀ b, b ∈ (s.stubs pool.type).usablePools ↔ b ∈ [base] := by
    intro b
    have hb := h.heap.lists.mem pool.type false b
    rw [stubList, if_neg (by decide)] at hb
    rw [hb, List.mem_singleton]
    constructor
    · rintro ⟨-, p, hp, -⟩
      by_contra hne
      exact absurd ((h.other b hne).symm.trans hp) (by simp)
    · rintro rfl
      exact ⟨List.not_mem_nil, pool, h.mapped, rfl, decide_eq_false hfree⟩
  have hnodup := (List.nodup_append.mp (h.heap.lists.nodup pool.type)).2.1
  exact List.perm_singleton.mp
    ((List.perm_ext_iff_of_nodup hnodup (List.nodup_singleton base)).mpr hmem)

/-- INTERNAL: a cell is handed out when the pool has one and the new-born stack has room.
SOURCE: m_gc_obj.c:595-636 -/
theorem takeCell_ok {self self' : MThread} {cell : Addr} {rest free : List Addr}
    (h : HeapInv D [] s) (hu : (s.stubs pool.type).usablePools = base :: rest)
    (hpool : s.pools base = some pool) (hfree : pool.freeCells = cell :: free)
    (hself : s.threadList[th]? = some self)
    (hpush : nbPush (nbReserve self) (cell ||| GC_NB_FL_NO_PTR) = .ok self') :
    ∃ s', gcTakeCell D s th pool.type base = .ok (cell, (nbReserve self).nbTop, s') ∧
      s'.threadList = s.threadList.set th self' := by
  have hpop : ∃ s₁, gcPopCell s pool.type base = .ok (cell, s₁) := by
    rw [gcPopCell, GCState.load, hpool, Outcome.ok_bind, hfree]
    by_cases hnil : free = []
    · have hu' : ((s.store base { pool with freeCells := free }).stubs
          pool.type).usablePools = base :: rest := hu
      simp only [if_pos hnil, hu']
      exact ⟨_, rfl⟩
    · exact ⟨_, if_neg hnil⟩
  obtain ⟨s₁, hpop⟩ := hpop
  obtain ⟨free', hfree', hs₁⟩ := popCell_spec hpool hu hpop
  obtain ⟨id, -, hlt, hid, -⟩ := poolTook_of_pop (h.pool hpool) hfree'
  have hload : (s₁.setThread th self').load base = .ok { pool with freeCells := free' } := by
    rw [load_eq_ok, hs₁]
    exact if_pos rfl
  have hlt' : id / 16 < ({ pool with freeCells := free' } : MGCCellPool).bitmap.length := hlt
  have hthreads : s₁.threadList = s.threadList := by rw [hs₁]
  rw [gcTakeCell, threadSelf_eq_ok.mpr hself]
  simp only [Outcome.ok_bind, hpop, hpush, hload, hid, setBitmap_eq hlt']
  exact ⟨_, rfl, congrArg (List.set · th self') hthreads⟩

/-- INTERNAL: one more cell. -/
theorem Filled.take {self self' : MThread} (h : Filled D base pool n s)
    (hn : n < D.cellNum pool.type) (hself : s.threadList[th]? = some self)
    (hpush : nbPush (nbReserve self) (cellAddr D pool n ||| GC_NB_FL_NO_PTR) = .ok self') :
    ∃ pool' oid s', gcTakeCell D s th pool.type base = .ok (cellAddr D pool n, oid, s') ∧
      Filled D base pool' (n + 1) s' ∧ pool'.type = pool.type ∧
      s'.threadList = s.threadList.set th self' ∧ s'.status = s.status ∧
      s'.grayStack = s.grayStack ∧ s'.rootHash = s.rootHash := by
  obtain ⟨k, hk⟩ := Nat.exists_eq_add_of_lt hn
  have hfree : pool.freeCells = cellAddr D pool n ::
      (List.range' (n + 1) (D.cellNum pool.type - (n + 1))).map (cellAddr D pool) := by
    rw [h.free, show D.cellNum pool.type - n = k + 1 by omega, List.range'_succ, List.map_cons,
      show D.cellNum pool.type - (n + 1) = k by omega]
  have hu := h.usable hn
  obtain ⟨s', e, hthreads⟩ := takeCell_ok h.heap hu h.mapped hfree hself hpush
  obtain ⟨pool', id, -, hcell, htook, hpools, hinv, self₁, self₁', -, -, -, -, hrest⟩ :=
    takeCell_spec h.heap hu h.mapped e
  obtain rfl := (h.heap.pool h.mapped).cellAddr_inj hcell
  have haddr : cellAddr D pool' = cellAddr D pool := by
    funext i
    rw [cellAddr, cellAddr, htook.begin_eq, htook.type_eq]
  have hsize : s'.allocatedSize = (n + 1) * (D.descrs pool'.type).size := by
    rw [hrest, htook.type_eq, Nat.succ_mul, ← h.bytes]
  refine ⟨pool', _, s', e, ⟨hinv, ?_, fun b hb => ?_, fun i => ?_, ?_, hsize⟩, htook.type_eq,
    hthreads, ?_, ?_, ?_⟩
  · rw [hpools]
    exact if_pos rfl
  · rw [hpools]
    exact (if_neg hb).trans (h.other b hb)
  · rw [htook.mark, h.mark]
    rcases Nat.lt_trichotomy i n with hlt | rfl | hgt
    · rw [if_neg (Nat.ne_of_lt hlt), if_pos hlt, if_pos (Nat.lt_succ_of_lt hlt)]
    · rw [if_pos rfl, if_pos (Nat.lt_succ_self i)]
    · rw [if_neg (Nat.ne_of_gt hgt), if_neg (Nat.not_lt.mpr (Nat.le_of_lt hgt)),
        if_neg (Nat.not_lt.mpr hgt)]
  · rw [htook.type_eq, haddr]
    exact (List.cons.inj (htook.free.symm.trans hfree)).2
  · rw [hrest]
  · rw [hrest]
  · rw [hrest]

/-- INTERNAL: an allocation that does not collect.
SOURCE: m_gc_obj.c:571-645 -/
theorem alloc_step {map : Option Addr} {cell : Addr} {oid : ℕ} {s₁ : GCState}
    (hfresh : (GCOp.alloc th type map false).mapsFresh D s)
    (hpool : gcUsablePool D s type map = some (base, s₁))
    (e : gcTakeCell D s₁ th type base = .ok (cell, oid, s'))
    (hsize : s'.allocatedSize < D.beginSize) : GCStep D s (.alloc th type map false) s' := by
  have hno : ¬ collectionNeeded D s' := fun hneed => Nat.not_le.mpr hsize hneed.1
  refine ⟨hfresh, fun _ => [], 0, ?_⟩
  rw [GCOp.exec, gcAllocObj, hpool]
  simp only [e, Outcome.ok_bind, if_neg hno]
  rfl

/-! ## The run -/

/-- The address of the first cell of a pool. -/
def firstCell (D : GCConfig) (type : MGCObjType) (base : Addr) : Addr :=
  (newPool D type base).begin

/-- The first `n` cells of a pool have been handed out, and the new-born stack holds the first. -/
structure FirstKept (D : GCConfig) (type : MGCObjType) (base : Addr) (n : ℕ) (s : GCState) :
    Prop where
  filled : ∃ pool, pool.type = type ∧ Filled D base pool n s
  thread : ∃ words, s.threadList = [⟨words, 32, 1⟩] ∧ words.length = 32 ∧
    words[0]? = some (firstCell D type base ||| GC_NB_FL_NO_PTR)
  idle : s.status = .idle
  stack : s.grayStack = []
  roots : s.rootHash = []

/-- INTERNAL: the first allocation maps the pool. -/
theorem firstKept_start (hbase : D.poolSize ∣ base) (hsize : 0 < (D.descrs type).size)
    (hnum : 0 < D.cellNum type) (hbytes : (D.descrs type).size < D.beginSize) :
    ∃ s', GCStep D gcObjStartup (.alloc 0 type (some base) false) s' ∧
      FirstKept D type base 1 s' := by
  let s₁ := (gcObjStartup.store base (newPool D type base)).setStub type ⟨[base], []⟩
  have hpool : gcUsablePool D gcObjStartup type (some base) = some (base, s₁) := rfl
  have hmapped : s₁.pools base = some (newPool D type base) := store_pools _ _ _
  have hfree : (newPool D type base).freeCells =
      (List.range' 0 (D.cellNum type - 0)).map (cellAddr D (newPool D type base)) := by
    rw [Nat.sub_zero, ← List.range_eq_range']
    rfl
  obtain ⟨hheap, -⟩ := usablePool_spec (startup_inv D).heap
    (fun _ b e => Option.some.inj e ▸ ⟨hbase, rfl⟩) hsize hpool fun p hp => by
      obtain rfl := Option.some.inj (hmapped.symm.trans hp)
      rw [hfree]
      simp
      omega
  have hfilled : Filled D base (newPool D type base) 0 s₁ := by
    refine ⟨hheap, hmapped, fun b hb => if_neg hb, fun id => ?_, hfree, (Nat.zero_mul _).symm⟩
    rw [newPool_mark, if_neg (Nat.not_lt_zero id)]
  have hcell : cellAddr D (newPool D type base) 0 = firstCell D type base := by
    rw [cellAddr, Nat.zero_mul]
    rfl
  have hself : s₁.threadList[0]? = some ⟨[], 0, 0⟩ := rfl
  have hpush : nbPush (nbReserve ⟨[], 0, 0⟩)
      (cellAddr D (newPool D type base) 0 ||| GC_NB_FL_NO_PTR) =
      .ok ⟨(List.replicate 32 0).set 0 (cellAddr D (newPool D type base) 0 ||| GC_NB_FL_NO_PTR),
        32, 1⟩ := rfl
  obtain ⟨pool', oid, s', e, hfilled', htype, hthreads, hstatus, hstack, hroots⟩ :=
    hfilled.take hnum hself hpush
  rw [hcell] at hthreads
  refine ⟨s', alloc_step (fun _ b hb => absurd rfl hb) hpool e ?_, ⟨pool', htype, hfilled'⟩,
    ⟨_, hthreads, rfl, rfl⟩, hstatus, hstack, hroots⟩
  rw [hfilled'.bytes, htype, Nat.zero_add, Nat.one_mul]
  exact hbytes

/-- INTERNAL: one more allocation, of which the new-born stack keeps nothing. -/
theorem FirstKept.next (h : FirstKept D type base n s) (hn : n < D.cellNum type)
    (hbytes : (n + 1) * (D.descrs type).size < D.beginSize) :
    ∃ s₁ s', GCStep D s (.alloc 0 type none false) s₁ ∧ GCStep D s₁ (.setNbLevel 0 1) s' ∧
      FirstKept D type base (n + 1) s' := by
  obtain ⟨pool, rfl, hfilled⟩ := h.filled
  obtain ⟨words, hthread, hlen, hword⟩ := h.thread
  have hself : s.threadList[0]? = some ⟨words, 32, 1⟩ := by rw [hthread]; rfl
  obtain ⟨pushed, hset⟩ : ∃ pushed,
      pushed = words.set 1 (cellAddr D pool n ||| GC_NB_FL_NO_PTR) := ⟨_, rfl⟩
  have hpush : nbPush (nbReserve ⟨words, 32, 1⟩) (cellAddr D pool n ||| GC_NB_FL_NO_PTR) =
      .ok ⟨pushed, 32, 2⟩ := by
    rw [nbReserve, if_neg (show ¬ (1 : ℕ) = 32 by decide), nbPush,
      if_pos (show 1 < words.length by rw [hlen]; decide), hset]
    rfl
  have hlen' : pushed.length = 32 := by rw [hset, List.length_set, hlen]
  have hword' : pushed[0]? = some (firstCell D pool.type base ||| GC_NB_FL_NO_PTR) := by
    rw [hset, List.getElem?_set_ne (by decide), hword]
  obtain ⟨pool', oid, s₁, e, hfilled', htype, hthreads, hstatus, hstack, hroots⟩ :=
    hfilled.take hn hself hpush
  have hpool : gcUsablePool D s pool.type none = some (base, s) := by
    rw [gcUsablePool, hfilled.usable hn]
  rw [hthread] at hthreads
  have hheap := hfilled'.heap
  have hfilled₁ : Filled D base pool' (n + 1) (s₁.setThread 0 ⟨pushed, 32, 1⟩) :=
    ⟨⟨hheap.pool, hheap.lists, hheap.bytes⟩, hfilled'.mapped, hfilled'.other, hfilled'.mark,
      hfilled'.free, hfilled'.bytes⟩
  refine ⟨s₁, s₁.setThread 0 ⟨pushed, 32, 1⟩, alloc_step trivial hpool e ?_,
    ⟨trivial, fun _ => [], 0, ?_⟩, ⟨pool', htype, hfilled₁⟩, ⟨pushed, ?_, hlen', hword'⟩,
    hstatus.trans h.idle, hstack.trans h.stack, hroots.trans h.roots⟩
  · rw [hfilled'.bytes, htype]
    exact hbytes
  · rw [GCOp.exec, mGCSetNbLevel, threadSelf_eq_ok.mpr (by rw [hthreads]; rfl)]
    rfl
  · rw [GCState.setThread, hthreads]
    rfl

/-- INTERNAL: a run that hands out any number of cells of a pool. -/
theorem firstKept_run (hbase : D.poolSize ∣ base) (hsize : 0 < (D.descrs type).size)
    (hn : n < D.cellNum type) (hbytes : (n + 1) * (D.descrs type).size < D.beginSize) :
    ∃ ops σ, GCRun D ops σ ∧ FirstKept D type base (n + 1) (σ ops.length) := by
  induction n with
  | zero =>
    obtain ⟨s', hstep, hkept⟩ := firstKept_start hbase hsize hn (by omega)
    refine ⟨_, _, (gcRun_nil D).snoc hstep, ?_⟩
    exact hkept
  | succ n ih =>
    have hless : (n + 1) * (D.descrs type).size < D.beginSize :=
      Nat.lt_of_le_of_lt (Nat.mul_le_mul_right _ (Nat.le_succ (n + 1))) hbytes
    obtain ⟨ops, σ, hrun, hkept⟩ := ih (Nat.lt_of_succ_lt hn) hless
    obtain ⟨s₁, s', hstep₁, hstep, hkept'⟩ := hkept.next hn hbytes
    have hrun₁ := hrun.snoc hstep₁
    have hlast : (fun i => if i ≤ ops.length then σ i else s₁)
        (ops ++ [GCOp.alloc 0 type none false]).length = s₁ := by simp
    refine ⟨_, _, hrun₁.snoc (hlast.symm ▸ hstep), ?_⟩
    simpa using hkept'

/-! ## The collection -/

/-- INTERNAL: a collection of an idle heap, whatever addresses its sweep computes.
SOURCE: m_gc_obj.c:489-521 -/
theorem collect_loop (h : HeapInv D [] s) (hg : NoGray s) (hidle : s.status = .idle)
    (hstack : s.grayStack = []) (hth : ThreadsInv s) (hr : RootsResolve D s)
    (refs : Addr → List Addr) : ∃ s₁ s', gcDoCollect D refs 1 0 s = .ok (true, s') ∧
      Blackened (RootBlackens D s) (rootsBegun s) s₁ ∧ HeapInv D [] s₁ ∧
      PoolsSweptAs (loopCells D) (gcObjTypes.flatMap (listedPools s₁)) s₁ s' := by
  obtain ⟨s₁, e₁⟩ := markRoot_ok (s := { s with status := .markRoot }) hth hr
  have hb := (markRoot_blackened (s := { s with status := .markRoot }) hth e₁).2
  have hb' : Blackened (RootBlackens D s) (rootsBegun s) s₁ :=
    ⟨hb.unmapped, hb.mapped, hb.stubs, hb.grayStack, hb.needScanGray, hb.allocatedSize,
      hb.lastAllocatedSize, hb.threadList, hb.rootHash, hb.log⟩
  have hi : HeapInv D [] _ := hb'.heapInv ⟨h.pool, h.lists, h.bytes⟩
  obtain ⟨s₂, e₂, hs⟩ := sweep_returns (heapInv_withStatus hi .sweep) (hb'.noGray hg)
  refine ⟨s₁, (gcCollectCompact { s₂ with status := .compact }).2, ?_, hb', hi,
    ⟨hs.swept, hs.other, hs.log, hs.grayStack, hs.needScanGray, hs.threadList, hs.rootHash⟩⟩
  rw [gcDoCollect, hidle]
  simp only [gcCollectMarkRoot]
  rw [if_neg (by decide), e₁, Outcome.ok_bind, if_neg (by decide),
    collectMarkObj_eq (s := { s₁ with status := .markObj }) (hb.grayStack.trans hstack)
      hb.needScanGray, if_pos (by decide),
    gcCollectSweep, e₂]
  rfl

/-- INTERNAL: the new-born stack holds one cell. -/
theorem FirstKept.words (h : FirstKept D type base n s) :
    allNbWords s = [firstCell D type base ||| GC_NB_FL_NO_PTR] := by
  obtain ⟨words, hthread, hlen, hword⟩ := h.thread
  rw [allNbWords, hthread, List.flatMap_singleton, nbWords]
  cases words with
  | nil => simp at hword
  | cons w words =>
    obtain rfl := Option.some.inj hword
    rfl

/-- INTERNAL: the only root is the first cell. -/
theorem FirstKept.root (h : FirstKept D type base n s) :
    nbRoot (firstCell D type base ||| GC_NB_FL_NO_PTR) =
      (firstCell D type base, GC_MARK_BLACK) := by
  obtain ⟨pool, rfl, hfilled⟩ := h.filled
  have hinv := hfilled.heap.pool hfilled.mapped
  have hfirst : cellAddr D pool 0 = firstCell D pool.type base := by
    rw [cellAddr, Nat.zero_mul, hinv.begin_eq]
    rfl
  exact (nbRoot_word (hfirst ▸ hinv.aligned_cellAddr 0)).1

/-- INTERNAL: where the root points to. -/
theorem FirstKept.pointsTo_iff (h : FirstKept D type base n s) (hnum : 0 < D.cellNum type)
    (b : Addr) (id : ℕ) : PointsTo D s (firstCell D type base) b id ↔ b = base ∧ id = 0 := by
  obtain ⟨pool, rfl, hfilled⟩ := h.filled
  have hinv := hfilled.heap.pool hfilled.mapped
  have hfirst : cellAddr D pool 0 = firstCell D pool.type base := by
    rw [cellAddr, Nat.zero_mul, hinv.begin_eq]
    rfl
  have hpool : gcObjGetPool D (firstCell D pool.type base) = base :=
    hfirst ▸ hinv.getPool_cellAddr hnum
  have hid : gcObjGetId (D.descrs pool.type) pool (firstCell D pool.type base) = .ok 0 :=
    hfirst ▸ hinv.getId_cellAddr 0
  rw [PointsTo, hpool]
  refine and_congr_right fun hb => ?_
  subst hb
  rw [hfilled.mapped]
  simp only [Option.some.injEq, exists_eq_left', hid, Except.ok.injEq]
  exact eq_comm

/-- INTERNAL: all roots. -/
theorem FirstKept.roots_eq (h : FirstKept D type base n s) :
    gcRoots s = [(firstCell D type base, GC_MARK_BLACK)] := by
  rw [gcRoots, h.words, h.roots, List.map_singleton, h.root]
  rfl

/-- INTERNAL: the roots blacken the first cell. -/
theorem FirstKept.rootBlackens_iff (h : FirstKept D type base n s) (hnum : 0 < D.cellNum type)
    (b : Addr) (id : ℕ) : RootBlackens D s b id ↔ b = base ∧ id = 0 := by
  obtain ⟨pool, -, hfilled⟩ := h.filled
  rw [RootBlackens, h.roots_eq]
  simp only [List.mem_singleton, exists_eq_left, Blackens, h.pointsTo_iff hnum]
  refine and_iff_left_of_imp ?_
  rintro ⟨rfl, -⟩
  exact ⟨pool, hfilled.mapped, Or.inl trivial⟩

/-- INTERNAL: the mark of the root can be read. -/
theorem FirstKept.resolves (h : FirstKept D type base n s) (hnum : 0 < D.cellNum type) :
    RootsResolve D s := by
  intro root hroot
  rw [h.roots_eq] at hroot
  obtain rfl := List.mem_singleton.mp hroot
  have hpoints := (h.pointsTo_iff hnum base 0).mpr ⟨rfl, rfl⟩
  obtain ⟨pool, rfl, hfilled⟩ := h.filled
  refine ⟨base, 0, pool, hpoints, hfilled.mapped, ?_⟩
  have hwords := (hfilled.heap.pool hfilled.mapped).words
  have hle := cellNum_le D pool.type
  omega

/-- INTERNAL: the root set holds nothing but the first cell. -/
theorem FirstKept.held {c : Cell} (h : FirstKept D type base n s) (hnum : 0 < D.cellNum type)
    (hheld : Held D s c) : c.2 = 0 := by
  rcases hheld with ⟨word, hword, hpoints⟩ | ⟨ptr, hptr, -⟩
  · rw [h.words, List.mem_singleton] at hword
    rw [hword, h.root] at hpoints
    exact ((h.pointsTo_iff hnum c.1 c.2).mp hpoints).2
  · rw [h.roots] at hptr
    exact absurd hptr List.not_mem_nil

/-- INTERNAL: no cell is gray. -/
theorem Filled.noGray (h : Filled D base pool n s) : NoGray s := by
  intro b p hp id hm
  by_cases hb : b = base
  · subst hb
    obtain rfl := Option.some.inj (h.mapped.symm.trans hp)
    rw [h.mark] at hm
    split_ifs at hm
    · exact absurd hm (by decide)
    · exact absurd hm (by decide)
  · exact absurd ((h.other b hb).symm.trans hp) (by simp)

/-- INTERNAL: the new-born stack is well formed. -/
theorem FirstKept.threadsInv (h : FirstKept D type base n s) : ThreadsInv s := by
  obtain ⟨words, hthread, hlen, -⟩ := h.thread
  intro t ht
  rw [hthread] at ht
  obtain rfl := List.mem_singleton.mp ht
  exact ⟨Or.inr ⟨5, le_rfl, by decide, rfl⟩, by rw [hlen]; decide,
    show 1 ≤ words.length by rw [hlen]; decide⟩

/-- INTERNAL: the loops compute the address of the last cell for no white cell. -/
theorem Filled.not_loopCells {pool₁ : MGCCellPool} (h : Filled D base pool (n + 1) s)
    (hpos : 0 < n) (hwrap : ∀ begin, loopAddr (D.descrs pool.type) begin n = begin)
    (hbegin : pool₁.begin = pool.begin) (htype : pool₁.type = pool.type)
    (hsame : ∀ id, id ≠ 0 → poolMark pool₁ id = poolMark pool id) :
    cellAddr D pool n ∉ loopCells D pool₁ := by
  intro ha
  have hinv := h.heap.pool h.mapped
  obtain ⟨id, -, haddr, hw⟩ := mem_loopCells.mp ha
  rw [htype, hbegin] at haddr
  have hle := loopAddr_le D pool id
  rw [← haddr] at hle
  have hid : n ≤ id := Nat.le_of_mul_le_mul_right (Nat.le_of_add_le_add_left hle) hinv.size_pos
  rw [hsame id (by omega), h.mark] at hw
  have hlt : id < n + 1 := by
    by_contra hge
    rw [if_neg hge] at hw
    exact absurd hw (by decide)
  obtain rfl : id = n := by omega
  rw [hwrap] at haddr
  have hzero : cellAddr D pool 0 = pool.begin := by rw [cellAddr, Nat.zero_mul, Nat.add_zero]
  exact Nat.ne_of_gt hpos (hinv.cellAddr_inj (haddr.trans hzero.symm))

/-- INTERNAL: the collection when the loops compute the address of the first cell for the last one.
The first cell is kept, and on the free list; the last one is freed without its finalizer. -/
theorem FirstKept.collect (h : FirstKept D type base (n + 1) s) (hpos : 0 < n)
    (hn : n < D.cellNum type)
    (hwrap : ∀ begin, loopAddr (D.descrs type) begin n = begin) (refs : Addr → List Addr) :
    ∃ pool s' pool', s.pools base = some pool ∧ poolMark pool n = GC_MARK_WHITE ∧
      gcDoCollect D refs 1 0 s = .ok (true, s') ∧ s'.pools base = some pool' ∧
      PoolInv D base pool ∧ pool'.begin = pool.begin ∧ pool'.type = pool.type ∧
      poolMark pool' 0 = GC_MARK_WHITE ∧ pool.begin ∈ pool'.freeCells ∧
      ∀ t, .final t (cellAddr D pool n) ∉ eventsSince s s' := by
  have hnum : 0 < D.cellNum type := Nat.zero_lt_of_lt hn
  have hblackens := h.rootBlackens_iff hnum
  have hresolve := h.resolves hnum
  obtain ⟨pool, rfl, hfilled⟩ := h.filled
  obtain ⟨s₁, s', e, hb, hheap₁, hswept⟩ :=
    collect_loop hfilled.heap hfilled.noGray h.idle h.stack h.threadsInv hresolve refs
  obtain ⟨pool₁, hpool₁, hbl⟩ := hb.mapped base pool hfilled.mapped
  have hblack : poolMark pool₁ 0 = GC_MARK_BLACK := by
    refine hbl.black 0 ?_ ((hblackens base 0).mpr ⟨rfl, rfl⟩)
    rw [hfilled.mark, if_pos (Nat.zero_lt_succ n)]
  have hsame : ∀ id, id ≠ 0 → poolMark pool₁ id = poolMark pool id := fun id hid =>
    hbl.same id fun hw => hid ((hblackens base id).mp hw.2).2
  have hwhite : poolMark pool n = GC_MARK_WHITE := by
    rw [hfilled.mark, if_pos (Nat.lt_succ_self n)]
  have hlisted : base ∈ gcObjTypes.flatMap (listedPools s₁) :=
    List.mem_flatMap.mpr ⟨pool₁.type, by cases pool₁.type <;> decide,
      (hheap₁.lists.mem_type _).mpr ⟨List.not_mem_nil, pool₁, hpool₁, rfl⟩⟩
  obtain ⟨p, hp, hkept, -⟩ := hswept.swept base hlisted
  obtain rfl := Option.some.inj (hpool₁.symm.trans hp)
  obtain ⟨pool', hpool', hsw⟩ := hkept ⟨0, hblack⟩
  refine ⟨pool, s', pool', hfilled.mapped, hwhite, e, hpool',
    hfilled.heap.pool hfilled.mapped,
    hsw.begin_eq.trans hbl.begin_eq, hsw.type_eq.trans hbl.type_eq, ?_, ?_, fun t hfinal => ?_⟩
  · rw [hsw.mark, hblack]
    rfl
  · rw [hsw.free, List.mem_append, List.mem_reverse, mem_loopCells]
    refine Or.inl ⟨n, hbl.type_eq ▸ hn, ?_, (hsame n (Nat.ne_of_gt hpos)).trans hwhite⟩
    rw [hbl.type_eq, hbl.begin_eq, hwrap]
  · rw [eventsSince, hswept.log, hb.log, rootsBegun, List.append_assoc, List.drop_left,
      List.singleton_append, List.mem_cons, List.mem_flatMap] at hfinal
    obtain ⟨b, -, hfinal⟩ := hfinal.resolve_left (by simp)
    rw [finalsAs] at hfinal
    have hbase : b = base := by
      by_contra hne
      rw [hb.unmapped b (hfilled.other b hne)] at hfinal
      exact List.not_mem_nil hfinal
    subst hbase
    rw [hpool₁] at hfinal
    obtain ⟨a, ha, heq⟩ := List.mem_map.mp hfinal
    obtain rfl := (GCEvent.final.inj heq).2
    exact hfilled.not_loopCells hpos hwrap hbl.begin_eq hbl.type_eq hsame ha

/-- INTERNAL: in pools of `2 ^ 33` bytes a run leads there. -/
theorem far_run : ∃ ops σ, GCRun farConfig ops σ ∧
    FirstKept farConfig .double farConfig.poolSize (farCell + 1) (σ ops.length) :=
  firstKept_run (Nat.dvd_refl _) (by decide) farCell_lt (by decide)

/-- INTERNAL: the cell that lies `2 ^ 32` bytes behind the first one. -/
theorem loopAddr_farCell (begin : Addr) :
    loopAddr (farConfig.descrs .double) begin farCell = begin := by
  have hoffset : 16 * (farCell / 16) * (farConfig.descrs .double).size % 2 ^ 32 +
      farCell % 16 * (farConfig.descrs .double).size = 0 := by decide
  rw [loopAddr, wordAddr, Nat.add_assoc, hoffset, Nat.add_zero]

end Ming.Analysis
