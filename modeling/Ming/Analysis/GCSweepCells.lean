import Ming.Analysis.GCMarkLoop

/-!
# The sweep of a pool, cell by cell

What `gc_sweep_pool` leaves behind is said once more for the single cell: the marks of the pool
when the last word was done, its free list, the finalizers that ran, and where the pool went. The
address of a cell is computed from its number in 32 bits, and the cells of an array have no size,
so this is not always what a sweep of every cell leaves behind.
-/

set_option autoImplicit false

namespace Ming.Analysis

open Ming.Foundation Ming.Model Ming.Interface

variable {D : GCConfig} {s s' : GCState} {pool pool' : MGCCellPool} {base : Addr} {id : ℕ}

/-- A pool whose free list holds exactly its unused cells, and which has no gray cell. -/
structure SweepReady (D : GCConfig) (pool : MGCCellPool) : Prop where
  fits : BitmapFits D pool
  free_nodup : pool.freeCells.Nodup
  mem_free : ∀ a, a ∈ pool.freeCells ↔
    ∃ id < D.cellNum pool.type, a = cellAddr D pool id ∧ poolMark pool id = GC_MARK_UNUSED
  noGray : ∀ id, poolMark pool id ≠ GC_MARK_GRAY

/-- One cell before and after the sweep of its pool: its marks, how often its address was
finalized, and how often it is on the free list. -/
structure CellSwept (mark mark' : BitVec 32) (finalized free : ℕ) : Prop where
  white : mark = GC_MARK_WHITE → mark' = GC_MARK_UNUSED ∧ finalized = 1 ∧ free = 1
  black : mark = GC_MARK_BLACK → mark' = GC_MARK_WHITE
  unused : mark = GC_MARK_UNUSED → mark' = GC_MARK_UNUSED ∧ finalized = 0 ∧ free = 1

/-- All cells of a pool before and after its sweep, with the finalizers that ran. Cells that take up
memory are told apart by their address, so of these a black one was not finalized and is not
free. -/
structure CellsSwept (D : GCConfig) (pool swept : MGCCellPool) (finalized : List GCEvent) :
    Prop where
  finals : ∀ e ∈ finalized, ∃ id < D.cellNum pool.type,
    e = .final pool.type (cellAddr D pool id)
  cell : ∀ id < D.cellNum pool.type, CellSwept (poolMark pool id) (poolMark swept id)
    (finalized.count (.final pool.type (cellAddr D pool id)))
    (swept.freeCells.count (cellAddr D pool id))
  kept : 0 < (D.descrs pool.type).size → ∀ id < D.cellNum pool.type,
    poolMark pool id = GC_MARK_BLACK → .final pool.type (cellAddr D pool id) ∉ finalized ∧
      cellAddr D pool id ∉ swept.freeCells

/-- The size of the white cells of a pool. -/
def whiteBytes (D : GCConfig) (pool : MGCCellPool) : ℕ :=
  (D.descrs pool.type).size *
    (List.range (D.cellNum pool.type)).countP fun id => poolMark pool id = GC_MARK_WHITE

/-- The state `s'` behind the sweep of the pool at `base`, cell by cell. `swept` is the pool when
its last word was done. -/
structure SweptByCell (D : GCConfig) (base : Addr) (pool swept : MGCCellPool)
    (s s' : GCState) : Prop where
  cells : ∃ finalized, s'.log = s.log ++ finalized ∧ CellsSwept D pool swept finalized
  allocatedSize : s'.allocatedSize = s.allocatedSize - whiteBytes D pool
  usable : HasBlack pool → swept.freeCells ≠ [] → s'.pools base = some swept ∧
    s'.stubs pool.type = ⟨base :: (s.stubs pool.type).usablePools, (s.stubs pool.type).fullPools⟩
  full : HasBlack pool → swept.freeCells = [] → s'.pools base = some swept ∧
    s'.stubs pool.type = ⟨(s.stubs pool.type).usablePools, base :: (s.stubs pool.type).fullPools⟩
  unmapped : s'.pools base = none ↔ ¬ HasBlack pool
  unlisted : ¬ HasBlack pool → s'.stubs pool.type = s.stubs pool.type
  otherPools : ∀ b, b ≠ base → s'.pools b = s.pools b
  otherTypes : ∀ t, t ≠ pool.type → s'.stubs t = s.stubs t

/-- The bitmap word of every white cell begins less than `2 ^ 32` bytes behind the first cell, and
a white cell without a size has no white or unused cell beside it. -/
def WhiteApart (D : GCConfig) (pool : MGCCellPool) : Prop :=
  ∀ id < D.cellNum pool.type, poolMark pool id = GC_MARK_WHITE → NearAt D pool id ∧
    ((D.descrs pool.type).size = 0 → ∀ id' < D.cellNum pool.type, id' ≠ id →
      poolMark pool id' = GC_MARK_BLACK)

/-! ## Counting -/

/-- The events of the finalizers of given cells. -/
def finalEvents (type : MGCObjType) (cells : List Addr) : List GCEvent :=
  cells.map (.final type)

/-- INTERNAL: an address is finalized as often as it is in the list. -/
theorem count_finalEvents (type : MGCObjType) (cells : List Addr) (a : Addr) :
    (finalEvents type cells).count (.final type a) = cells.count a :=
  List.count_map_of_injective _ _ (fun _ _ e => (GCEvent.final.inj e).2) a

/-- INTERNAL: the same for being there at all. -/
theorem mem_finalEvents {type : MGCObjType} {cells : List Addr} {a : Addr} :
    .final type a ∈ finalEvents type cells ↔ a ∈ cells := by
  simp [finalEvents]

/-- INTERNAL: a list without repetition has an element once or not at all. -/
theorem count_eq {l : List Addr} (h : l.Nodup) (a : Addr) : l.count a = if a ∈ l then 1 else 0 :=
  List.Nodup.count h

/-- INTERNAL: the size of the white cells, by the addresses that the loops compute. -/
theorem whiteBytes_eq (D : GCConfig) (pool : MGCCellPool) :
    whiteBytes D pool = (D.descrs pool.type).size * (loopCells D pool).length := by
  rw [whiteBytes, loopCells, List.length_map, whiteIds, List.countP_eq_length_filter]

/-- INTERNAL: the addresses that the loops compute are not behind those of the cells. -/
theorem loopAddr_le (D : GCConfig) (pool : MGCCellPool) (id : ℕ) :
    loopAddr (D.descrs pool.type) pool.begin id ≤ cellAddr D pool id := by
  have hword := Nat.mod_le (16 * (id / 16) * (D.descrs pool.type).size) (2 ^ 32)
  rw [loopAddr, wordAddr, cellAddr, Nat.add_assoc]
  refine Nat.add_le_add_left ((Nat.add_le_add_right hword _).trans (Nat.le_of_eq ?_)) _
  rw [← Nat.add_mul, Nat.div_add_mod]

/-- INTERNAL: the loops compute the address of a cell only when it is near. -/
theorem near_of_loopAddr
    (h : loopAddr (D.descrs pool.type) pool.begin id = cellAddr D pool id) : NearAt D pool id := by
  have hcell : cellAddr D pool id = pool.begin + 16 * (id / 16) * (D.descrs pool.type).size +
      id % 16 * (D.descrs pool.type).size := by
    rw [cellAddr, Nat.add_assoc, ← Nat.add_mul, Nat.div_add_mod]
  rw [hcell, loopAddr, wordAddr] at h
  have hword := Nat.add_left_cancel (Nat.add_right_cancel h)
  have hlt := Nat.mod_lt (16 * (id / 16) * (D.descrs pool.type).size) (Nat.two_pow_pos 32)
  rwa [hword, Nat.mul_comm 16, Nat.mul_assoc] at hlt

/-- INTERNAL: the white cells that the loops come upon. -/
theorem mem_loopCells {a : Addr} : a ∈ loopCells D pool ↔ ∃ id < D.cellNum pool.type,
    a = loopAddr (D.descrs pool.type) pool.begin id ∧ poolMark pool id = GC_MARK_WHITE := by
  simp only [loopCells, whiteIds, List.mem_map, List.mem_filter, List.mem_range,
    decide_eq_true_eq, and_assoc]
  refine exists_congr fun id => and_congr_right fun _ => ?_
  rw [and_comm, eq_comm]

/-! ## Cells that take up memory -/

section Sized

variable (hsize : 0 < (D.descrs pool.type).size)

include hsize

/-- INTERNAL: the cell with a given number among the white cells. -/
theorem cellAddr_mem_whiteCells (hid : id < D.cellNum pool.type) :
    cellAddr D pool id ∈ whiteCells D pool ↔ poolMark pool id = GC_MARK_WHITE := by
  rw [mem_whiteCells]
  constructor
  · rintro ⟨id', -, e, hmark⟩
    rwa [cellAddr_inj_of_size hsize e]
  · exact fun hmark => ⟨id, hid, rfl, hmark⟩

/-- INTERNAL: the cell with a given number on the free list. -/
theorem cellAddr_mem_freeCells (h : SweepReady D pool) (hid : id < D.cellNum pool.type) :
    cellAddr D pool id ∈ pool.freeCells ↔ poolMark pool id = GC_MARK_UNUSED := by
  rw [h.mem_free]
  constructor
  · rintro ⟨id', -, e, hmark⟩
    rwa [cellAddr_inj_of_size hsize e]
  · exact fun hmark => ⟨id, hid, rfl, hmark⟩

/-- INTERNAL: white cells that take up memory have different addresses. -/
theorem whiteCells_nodup : (whiteCells D pool).Nodup :=
  List.Nodup.map (fun _ _ e => cellAddr_inj_of_size hsize e) (List.nodup_range.filter _)

/-- INTERNAL: the free list of a swept pool at one of its cells. -/
theorem count_swept_free (h : SweepReady D pool) (hs : PoolSwept D pool pool')
    (hid : id < D.cellNum pool.type) : pool'.freeCells.count (cellAddr D pool id) =
      if poolMark pool id = GC_MARK_WHITE ∨ poolMark pool id = GC_MARK_UNUSED then 1 else 0 := by
  rw [hs.free, List.count_append, List.count_reverse, count_eq (whiteCells_nodup hsize),
    count_eq h.free_nodup]
  simp only [cellAddr_mem_whiteCells hsize hid, cellAddr_mem_freeCells hsize h hid]
  rcases poolMark_cases pool id with hm | hm | hm | hm <;> simp [hm]

/-- INTERNAL: the cells of a swept pool. -/
theorem cellsSwept_sized (h : SweepReady D pool) (hs : PoolSwept D pool pool') :
    CellsSwept D pool pool' (finalEvents pool.type (whiteCells D pool)) := by
  constructor
  · intro e he
    obtain ⟨a, ha, rfl⟩ := List.mem_map.mp he
    obtain ⟨id, hid, rfl, -⟩ := mem_whiteCells.mp ha
    exact ⟨id, hid, rfl⟩
  · intro id hid
    rw [count_finalEvents, count_eq (whiteCells_nodup hsize), count_swept_free hsize h hs hid,
      hs.mark]
    simp only [cellAddr_mem_whiteCells hsize hid]
    constructor
    · intro hm
      simp [hm, sweptMark]
    · intro hm
      simp [hm, sweptMark]
    · intro hm
      simp [hm, sweptMark]
  · intro _ id hid hm
    rw [mem_finalEvents, cellAddr_mem_whiteCells hsize hid, ← List.count_eq_zero,
      count_swept_free hsize h hs hid]
    simp [hm]

/-- INTERNAL: when every white cell is finalized, the bitmap words of the white cells are near. The
loops compute no address behind that of a cell, so the address of the last white cell is computed
for this cell. The induction is on the cells behind the given one. -/
theorem near_of_cellsSwept {cells : List Addr} (hcells : cells = loopCells D pool)
    (h : CellsSwept D pool pool' (finalEvents pool.type cells)) (n : ℕ) {id : ℕ}
    (hn : D.cellNum pool.type ≤ id + n) (hid : id < D.cellNum pool.type)
    (hw : poolMark pool id = GC_MARK_WHITE) : NearAt D pool id := by
  induction n generalizing id with
  | zero => omega
  | succ n ih =>
    by_contra hfar
    have hcount := ((h.cell id hid).white hw).2.1
    rw [count_finalEvents] at hcount
    have hmem : cellAddr D pool id ∈ cells := List.count_pos_iff.mp (by omega)
    rw [hcells] at hmem
    obtain ⟨id', hid', haddr, hw'⟩ := mem_loopCells.mp hmem
    have hle : id ≤ id' := by
      have hmul : id * (D.descrs pool.type).size ≤ id' * (D.descrs pool.type).size :=
        Nat.le_of_add_le_add_left (haddr.le.trans (loopAddr_le D pool id'))
      exact Nat.le_of_mul_le_mul_right hmul hsize
    rcases Nat.eq_or_lt_of_le hle with rfl | hlt
    · exact hfar (near_of_loopAddr haddr.symm)
    · have hnear := ih (by omega) hid' hw'
      rw [loopAddr_near hnear] at haddr
      exact absurd (cellAddr_inj_of_size hsize haddr) (Nat.ne_of_lt hlt)

end Sized

/-! ## Cells without a size -/

section Unsized

variable (hsize : (D.descrs pool.type).size = 0)

include hsize

/-- INTERNAL: all cells have one address. -/
theorem cellAddr_unsized (id : ℕ) : cellAddr D pool id = pool.begin := by
  rw [cellAddr, hsize, Nat.mul_zero, Nat.add_zero]

/-- INTERNAL: which the sweep comes upon once for each white cell. -/
theorem count_whiteCells_unsized (id : ℕ) : (whiteCells D pool).count (cellAddr D pool id) =
    (whiteIds pool (List.range (D.cellNum pool.type))).length := by
  have hall : ∀ a ∈ whiteCells D pool, cellAddr D pool id = a := by
    intro a ha
    obtain ⟨id', -, rfl, -⟩ := mem_whiteCells.mp ha
    rw [cellAddr_unsized hsize, cellAddr_unsized hsize]
  rw [List.count_eq_length.mpr hall, whiteCells, List.length_map]

/-- INTERNAL: a pool in which a white cell has only black ones beside it. -/
theorem cellsSwept_unsized (h : SweepReady D pool) (hs : PoolSwept D pool pool')
    (hapart : WhiteApart D pool) :
    CellsSwept D pool pool' (finalEvents pool.type (whiteCells D pool)) := by
  refine ⟨fun e he => ?_, fun id hid => ?_, fun hpos => absurd hsize (Nat.ne_of_gt hpos)⟩
  · obtain ⟨a, ha, rfl⟩ := List.mem_map.mp he
    obtain ⟨id, hid, rfl, -⟩ := mem_whiteCells.mp ha
    exact ⟨id, hid, rfl⟩
  · rw [count_finalEvents, hs.mark, hs.free, List.count_append, List.count_reverse,
      count_whiteCells_unsized hsize, count_eq h.free_nodup]
    constructor
    · intro hw
      have hone : whiteIds pool (List.range (D.cellNum pool.type)) = [id] := by
        refine List.perm_singleton.mp ((List.perm_ext_iff_of_nodup (List.nodup_range.filter _)
          (List.nodup_singleton id)).mpr fun id' => ?_)
        rw [List.mem_filter, List.mem_range, List.mem_singleton, decide_eq_true_eq]
        constructor
        · rintro ⟨hid', hw'⟩
          by_contra hne
          exact absurd (hw'.symm.trans ((hapart id hid hw).2 hsize id' hid' hne)) (by decide)
        · rintro rfl
          exact ⟨hid, hw⟩
      have hnotfree : cellAddr D pool id ∉ pool.freeCells := by
        intro hfree
        obtain ⟨id', hid', -, hu⟩ := (h.mem_free _).mp hfree
        by_cases hne : id' = id
        · subst hne
          exact absurd (hw.symm.trans hu) (by decide)
        · exact absurd (hu.symm.trans ((hapart id hid hw).2 hsize id' hid' hne)) (by decide)
      rw [hone, if_neg hnotfree, hw]
      exact ⟨rfl, rfl, rfl⟩
    · intro hb
      rw [hb]
      rfl
    · intro hu
      have hnone : whiteIds pool (List.range (D.cellNum pool.type)) = [] := by
        refine List.filter_eq_nil_iff.mpr fun id' hid' hw => ?_
        rw [decide_eq_true_eq] at hw
        have hid' := List.mem_range.mp hid'
        by_cases hne : id = id'
        · subst hne
          exact absurd (hu.symm.trans hw) (by decide)
        · exact absurd (hu.symm.trans ((hapart id' hid' hw).2 hsize id hid hne)) (by decide)
      rw [hnone, if_pos ((h.mem_free _).mpr ⟨id, hid, rfl, hu⟩), hu]
      exact ⟨rfl, rfl, rfl⟩

/-- INTERNAL: when a white cell is finalized once, the cells beside it are black. -/
theorem black_of_cellsSwept (h : SweepReady D pool)
    (hc : CellsSwept D pool pool' (finalEvents pool.type (whiteCells D pool)))
    (hid : id < D.cellNum pool.type) (hw : poolMark pool id = GC_MARK_WHITE) {id' : ℕ}
    (hid' : id' < D.cellNum pool.type) (hne : id' ≠ id) : poolMark pool id' = GC_MARK_BLACK := by
  have hone := ((hc.cell id hid).white hw).2.1
  rw [count_finalEvents, count_whiteCells_unsized hsize] at hone
  rcases poolMark_cases pool id' with hm | hm | hm | hm
  · have hnone := ((hc.cell id' hid').unused hm).2.1
    rw [count_finalEvents, count_whiteCells_unsized hsize] at hnone
    omega
  · have hmem : ∀ i ∈ [id, id'], i ∈ whiteIds pool (List.range (D.cellNum pool.type)) := by
      simp [whiteIds, hid, hid', hw, hm]
    have htwo := (List.subperm_of_subset (by simp [Ne.symm hne]) hmem).length_le
    rw [hone, List.length_cons, List.length_singleton] at htwo
    omega
  · exact absurd hm (h.noGray id')
  · exact hm

end Unsized

/-! ## The sweep -/

/-- INTERNAL: what the words of the bitmap leave behind is a sweep of every cell exactly when the
white cells are apart. -/
theorem cellsSwept_iff (h : SweepReady D pool) (hs : PoolSweptAs (loopCells D) pool pool') :
    CellsSwept D pool pool' (finalEvents pool.type (loopCells D pool)) ↔ WhiteApart D pool := by
  have hall : ∀ {id}, poolMark pool id = GC_MARK_WHITE → id < D.cellNum pool.type := by
    intro id hw
    by_contra hge
    exact absurd (hw.symm.trans (h.fits.padding id (Nat.le_of_not_lt hge))) (by decide)
  have hswept : (∀ id, poolMark pool id = GC_MARK_WHITE → NearAt D pool id) →
      PoolSwept D pool pool' := fun hnear =>
    ⟨hs.begin_eq, hs.type_eq, hs.words, hs.mark, loopCells_near hnear ▸ hs.free⟩
  rcases Nat.eq_zero_or_pos (D.descrs pool.type).size with hsize | hsize
  · have hnear : ∀ id, NearAt D pool id := by
      intro id
      rw [NearAt, hsize]
      exact Nat.two_pow_pos 32
    rw [loopCells_near fun id _ => hnear id]
    exact ⟨fun hc id hid hw => ⟨hnear id, fun _ id' hid' hne =>
        black_of_cellsSwept hsize h hc hid hw hid' hne⟩,
      cellsSwept_unsized hsize h (hswept fun id _ => hnear id)⟩
  · constructor
    · intro hc id hid hw
      exact ⟨near_of_cellsSwept hsize rfl hc _ (Nat.le_add_left _ id) hid hw,
        fun hzero => absurd hzero (Nat.ne_of_gt hsize)⟩
    · intro hapart
      have hnear : ∀ id, poolMark pool id = GC_MARK_WHITE → NearAt D pool id := fun id hw =>
        (hapart id (hall hw) hw).1
      rw [loopCells_near hnear]
      exact cellsSwept_sized hsize h (hswept hnear)

/-- INTERNAL: the sweep of a pool returns, and does everything that is said of it if its words did
what is said of the cells.
SOURCE: m_gc_obj.c:379-441 -/
theorem sweepPool_cells (hpool : s.pools base = some pool) (h : SweepReady D pool) :
    ∃ sw s', (List.range (D.bitmapWords pool.type)).foldlM
        (gcSweepWordAt (D.descrs pool.type)) ⟨pool, false, s.allocatedSize, s.log⟩ = .ok sw ∧
      gcSweepPool D pool.type s base = .ok s' ∧ PoolSweptAs (loopCells D) pool sw.pool ∧
      (SweptByCell D base pool sw.pool s s' ↔
        CellsSwept D pool sw.pool (finalEvents pool.type (loopCells D pool))) := by
  obtain ⟨sw, hsw, hswept, hblack, hsize, hlog⟩ :=
    sweepBitmap_loop h.fits h.noGray s.allocatedSize s.log
  have hfinalized : ∀ {s'}, s'.log = sw.log → ∀ hs : SweptByCell D base pool sw.pool s s',
      CellsSwept D pool sw.pool (finalEvents pool.type (loopCells D pool)) := by
    intro s' hs' hs
    obtain ⟨finalized, hfinalized, hcells⟩ := hs.cells
    rw [hs', hlog] at hfinalized
    obtain rfl := List.append_cancel_left hfinalized
    exact hcells
  rw [← whiteBytes_eq] at hsize
  have hrun := sweepPool_eq hpool hsw
  by_cases hb : HasBlack pool
  · rw [if_pos (hblack.mpr hb)] at hrun
    have hkept : ∀ o : Option MGCCellPool, o = some sw.pool → (o = none ↔ ¬ HasBlack pool) := by
      intro o ho
      rw [ho]
      simp [hb]
    refine ⟨sw, _, hsw, hrun, hswept, hfinalized rfl, fun hcells => ⟨⟨_, hlog, hcells⟩, hsize,
      fun _ hne => ⟨if_pos rfl, (if_pos rfl).trans ?_⟩,
      fun _ hnil => ⟨if_pos rfl, (if_pos rfl).trans ?_⟩, hkept _ (if_pos rfl),
      fun hnb => absurd hb hnb, fun b hne => if_neg hne, fun t hne => if_neg hne⟩⟩
    · rw [listPool, if_neg hne]
    · rw [listPool, if_pos hnil]
  · rw [if_neg fun e => hb (hblack.mp e)] at hrun
    exact ⟨sw, _, hsw, hrun, hswept, hfinalized rfl, fun hcells => ⟨⟨_, hlog, hcells⟩, hsize,
      fun hb' => absurd hb' hb, fun hb' => absurd hb' hb, iff_of_true (if_pos rfl) hb, fun _ => rfl,
      fun b hne => (if_neg hne).trans (if_neg hne), fun t _ => rfl⟩⟩

/-- **`gc_sweep_pool` refines a sweep of every cell exactly when the white cells are apart.** It
always returns from a pool whose free list holds exactly its unused cells and which has no gray
cell. Then every white cell has been finalized once, is unused and on the free list once, every
black cell is white, an unused cell is as it was, the counter has dropped by the size of the white
cells, and the pool is kept exactly when it had a black cell, on the list that fits its free
cells, if and only if the bitmap word of every white cell begins less than `2 ^ 32` bytes behind
the first cell, and a white cell without a size has only black ones beside it.
SOURCE: m_gc_obj.c:378-441, m_list.h:255-281 -/
theorem sweep_pool_refines_iff (hpool : s.pools base = some pool) (h : SweepReady D pool) :
    ∃ sw s', (List.range (D.bitmapWords pool.type)).foldlM
        (gcSweepWordAt (D.descrs pool.type)) ⟨pool, false, s.allocatedSize, s.log⟩ = .ok sw ∧
      gcSweepPool D pool.type s base = .ok s' ∧
      (SweptByCell D base pool sw.pool s s' ↔ WhiteApart D pool) := by
  obtain ⟨sw, s', hsw, hrun, hswept, hcells⟩ := sweepPool_cells hpool h
  exact ⟨sw, s', hsw, hrun, hcells.trans (cellsSwept_iff h hswept)⟩

/-- INTERNAL: a pool of the heap is ready for its sweep. -/
theorem sweepReady_of_inv (h : PoolInv D base pool)
    (hg : ∀ id, poolMark pool id ≠ GC_MARK_GRAY) : SweepReady D pool :=
  ⟨h.bitmapFits, h.free_nodup, h.mem_free, hg⟩

/-- A pool with a black and a white cell, after the roots were marked. -/
theorem sweep_pool_refines_marked : ∃ σ pool, GCRun defaultConfig markedOps σ ∧
    (σ 5).pools 4096 = some pool ∧ pool.type = .double ∧ poolMark pool 0 = GC_MARK_BLACK ∧
    poolMark pool 1 = GC_MARK_WHITE ∧ ∃ swept s',
      gcSweepPool defaultConfig .double (σ 5) 4096 = .ok s' ∧
      SweptByCell defaultConfig 4096 pool swept (σ 5) s' := by
  have hc : runChecked defaultConfig (fun _ => []) (fun _ _ => true)
      (fun s => (s.pools 4096).any fun pool =>
        decide (pool.type = .double ∧ poolMark pool 0 = GC_MARK_BLACK ∧
          poolMark pool 1 = GC_MARK_WHITE)) markedOps gcObjStartup = true := by
    decide +kernel
  obtain ⟨σ, hrun, hplaced, -, hmarks⟩ := run_of_checked (startup_inv defaultConfig) hc
  have hi := run_inv (n := 5) hrun hplaced le_rfl
  obtain ⟨pool, hpool, hmarks⟩ := (Option.any_eq_true _ _).mp hmarks
  obtain ⟨htype, hblack, hwhite⟩ := of_decide_eq_true hmarks
  have hinv := hi.heap.pool hpool
  obtain ⟨sw, s', -, hrun', hiff⟩ := sweep_pool_refines_iff hpool
    (sweepReady_of_inv hinv (hi.noGray 4096 pool hpool))
  refine ⟨σ, pool, hrun, hpool, htype, hblack, hwhite, sw.pool, s', htype ▸ hrun',
    hiff.mpr fun id _ hw => ⟨hi.near.white hpool id hw, fun hzero => ?_⟩⟩
  exact absurd hzero (Nat.ne_of_gt hinv.size_pos)

/-- A configuration with pools of `2 ^ 33` bytes, in which no allocation starts a collection. -/
def farConfig : GCConfig :=
  { defaultConfig with poolBits := 33, beginSize := 2 ^ 40, page_le := by decide }

/-- The number of a cell that lies `2 ^ 32` bytes behind the first cell of its pool. -/
def farCell : ℕ := 2 ^ 29

/-- INTERNAL: the pools have so many cells. -/
theorem farCell_lt : farCell < farConfig.cellNum .double := by decide +kernel

/-- A new pool of which one cell is white and not on the free list. -/
def onlyTaken (D : GCConfig) (type : MGCObjType) (base : Addr) (id : ℕ) : MGCCellPool :=
  setPoolMark { newPool D type base with
    freeCells := ((List.range (D.cellNum type)).filter (· ≠ id)).map
      (cellAddr D (newPool D type base)) } id GC_MARK_WHITE

/-- INTERNAL: its only cell in use is that one. -/
theorem onlyTaken_mark {type : MGCObjType} (hid : id < D.cellNum type) (i : ℕ) :
    poolMark (onlyTaken D type base id) i = if i = id then GC_MARK_WHITE else GC_MARK_UNUSED := by
  have hle := cellNum_le D type
  have hword : id / 16 < (newPool D type base).bitmap.length := by
    rw [newPool, List.length_replicate]
    omega
  have hmark : poolMark (onlyTaken D type base id) i =
      if i = id then GC_MARK_WHITE else poolMark (newPool D type base) i :=
    poolMark_set rfl hword i
  rw [hmark, newPool_mark]

/-- INTERNAL: the pool is ready for its sweep. -/
theorem onlyTaken_ready {type : MGCObjType} (hsize : 0 < (D.descrs type).size)
    (hid : id < D.cellNum type) : SweepReady D (onlyTaken D type base id) := by
  have hmark : ∀ i, poolMark (onlyTaken D type base id) i =
      if i = id then GC_MARK_WHITE else GC_MARK_UNUSED := onlyTaken_mark hid
  refine ⟨⟨?_, fun i hi => ?_⟩, ?_, fun a => ?_, fun i hg => ?_⟩
  · rw [onlyTaken, setPoolMark_words]
    exact List.length_replicate
  · have hi' : D.cellNum type ≤ i := hi
    rw [hmark, if_neg (by omega)]
  · refine (List.nodup_range.filter _).map fun i j e => ?_
    exact Nat.eq_of_mul_eq_mul_right hsize (Nat.add_left_cancel e)
  · rw [onlyTaken, setPoolMark_freeCells, List.mem_map]
    constructor
    · rintro ⟨i, hi, rfl⟩
      obtain ⟨hi, hne⟩ := List.mem_filter.mp hi
      exact ⟨i, List.mem_range.mp hi, rfl, (hmark i).trans (if_neg (of_decide_eq_true hne))⟩
    · rintro ⟨i, hi, rfl, hu⟩
      refine ⟨i, List.mem_filter.mpr ⟨List.mem_range.mpr hi, decide_eq_true fun e => ?_⟩, rfl⟩
      exact absurd (((hmark i).trans (if_pos e)).symm.trans hu) (by decide)
  · rw [hmark] at hg
    split_ifs at hg
    · exact absurd hg (by decide)
    · exact absurd hg (by decide)

/-- INTERNAL: a pool that was written back. -/
theorem store_pools (s : GCState) (base : Addr) (pool : MGCCellPool) :
    (s.store base pool).pools base = some pool := if_pos rfl

/-- The sweep of a pool of `2 ^ 33` bytes finalizes its first cell in the place of a cell that lies
`2 ^ 32` bytes behind it.
SOURCE: m_gc_obj.c:393 -/
theorem sweep_pool_counterexample : ¬ ∀ (D : GCConfig) (s : GCState) (base : Addr)
    (pool : MGCCellPool), s.pools base = some pool → SweepReady D pool →
    ∃ sw s', (List.range (D.bitmapWords pool.type)).foldlM
        (gcSweepWordAt (D.descrs pool.type)) ⟨pool, false, s.allocatedSize, s.log⟩ = .ok sw ∧
      gcSweepPool D pool.type s base = .ok s' ∧ SweptByCell D base pool sw.pool s s' := by
  intro hall
  have hready : SweepReady farConfig (onlyTaken farConfig .double farConfig.poolSize farCell) :=
    onlyTaken_ready (by decide) farCell_lt
  have hpool : (gcObjStartup.store farConfig.poolSize
      (onlyTaken farConfig .double farConfig.poolSize farCell)).pools farConfig.poolSize =
      some (onlyTaken farConfig .double farConfig.poolSize farCell) := store_pools _ _ _
  obtain ⟨sw, s', hsw, hrun, hswept⟩ := hall farConfig _ _ _ hpool hready
  obtain ⟨sw', s'', hsw', hrun', hiff⟩ := sweepPool_cells hpool hready
  obtain rfl := Except.ok.inj (hsw.symm.trans hsw')
  obtain rfl := Except.ok.inj (hrun.symm.trans hrun')
  have hnear := ((cellsSwept_iff hready hiff.1).mp (hiff.2.mp hswept) farCell farCell_lt
    ((onlyTaken_mark farCell_lt farCell).trans (if_pos rfl))).1
  have hoffset : farCell / 16 * (16 * (farConfig.descrs .double).size) = 2 ^ 32 := by decide
  exact Nat.ne_of_lt hnear hoffset

end Ming.Analysis
