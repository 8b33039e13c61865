import Mathlib.Data.List.Nodup
import Ming.Foundation.PackedFields
import Ming.Model.GCObj

/-!
# What a cell pool represents

The marks of a pool as a function of the cell number, the addresses of its cells, and the
invariant that ties its free list to its bitmap. The layout that `gc_obj_startup` computes
lets the address of a cell lead back to its pool and its number.
-/

set_option autoImplicit false

namespace Ming.Interface

open Ming.Foundation Ming.Model

variable {D : GCConfig} {pool pool' : MGCCellPool} {id id' : ℕ}
variable {base : Addr}

/-! ## Marks -/

/-- The mark of a cell. -/
def poolMark (pool : MGCCellPool) (id : ℕ) : BitVec 32 :=
  getField 2 (pool.bitmap.getD (id / 16) 0) (id % 16)

/-- The bitmap with the mark of one cell written. -/
def setPoolMark (pool : MGCCellPool) (id : ℕ) (mark : BitVec 32) : MGCCellPool :=
  { pool with bitmap := pool.bitmap.modify (id / 16) fun w => setField 2 w (id % 16) mark }

/-- INTERNAL: the mask of a two-bit field. -/
theorem fieldMask_two : fieldMask 32 2 = 3#32 := rfl

/-- INTERNAL: the shift of a mark in its word.
SOURCE: m_gc_obj.c:114, 129 -/
theorem markShift (id : ℕ) : (id &&& 0xF) <<< 1 = 2 * (id % 16) := by
  rw [Nat.shiftLeft_eq, show (0xF : ℕ) = 2 ^ 4 - 1 from rfl, Nat.and_two_pow_sub_one_eq_mod]
  omega

/-- INTERNAL: `gc_obj_get_bitmap` inside of the bitmap.
SOURCE: m_gc_obj.c:122-132 -/
theorem getBitmap_eq (h : id / 16 < pool.bitmap.length) :
    gcObjGetBitmap pool id = .ok (poolMark pool id) := by
  simp only [gcObjGetBitmap, Nat.shiftRight_eq_div_pow]
  rw [show (2 : ℕ) ^ 4 = 16 from rfl, List.getElem?_eq_getElem h, markShift, poolMark,
    List.getD_eq_getElem?_getD, List.getElem?_eq_getElem h]
  rfl

/-- INTERNAL: `gc_obj_get_bitmap` returns the mark. -/
theorem of_getBitmap {flags : BitVec 32} (h : gcObjGetBitmap pool id = .ok flags) :
    id / 16 < pool.bitmap.length ∧ flags = poolMark pool id := by
  have hlt : id / 16 < pool.bitmap.length := by
    by_contra hlt
    rw [gcObjGetBitmap, Nat.shiftRight_eq_div_pow, show (2 : ℕ) ^ 4 = 16 from rfl] at h
    simp [List.getElem?_eq_none (Nat.le_of_not_lt hlt)] at h
  rw [getBitmap_eq hlt] at h
  exact ⟨hlt, (Except.ok.inj h).symm⟩

/-- INTERNAL: `gc_obj_set_bitmap` writes the mark.
SOURCE: m_gc_obj.c:107-119 -/
theorem setBitmap_eq (h : id / 16 < pool.bitmap.length) (mark : BitVec 32) :
    gcObjSetBitmap pool id mark = .ok (setPoolMark pool id mark) := by
  simp only [gcObjSetBitmap, Nat.shiftRight_eq_div_pow, markShift]
  rw [show (2 : ℕ) ^ 4 = 16 from rfl, if_pos h]
  rfl

/-- INTERNAL: `gc_obj_set_bitmap` that returned. -/
theorem of_setBitmap {mark : BitVec 32} (h : gcObjSetBitmap pool id mark = .ok pool') :
    id / 16 < pool.bitmap.length ∧ pool' = setPoolMark pool id mark := by
  have hlt : id / 16 < pool.bitmap.length := by
    by_contra hlt
    rw [gcObjSetBitmap, Nat.shiftRight_eq_div_pow, show (2 : ℕ) ^ 4 = 16 from rfl] at h
    simp [hlt] at h
  rw [setBitmap_eq hlt] at h
  exact ⟨hlt, (Except.ok.inj h).symm⟩

/-- INTERNAL: a mark does not change the free cells. -/
@[simp] theorem setPoolMark_freeCells (pool : MGCCellPool) (id : ℕ) (mark : BitVec 32) :
    (setPoolMark pool id mark).freeCells = pool.freeCells := rfl

/-- INTERNAL: a mark does not change where the cells begin. -/
@[simp] theorem setPoolMark_begin (pool : MGCCellPool) (id : ℕ) (mark : BitVec 32) :
    (setPoolMark pool id mark).begin = pool.begin := rfl

/-- INTERNAL: a mark does not change the type. -/
@[simp] theorem setPoolMark_type (pool : MGCCellPool) (id : ℕ) (mark : BitVec 32) :
    (setPoolMark pool id mark).type = pool.type := rfl

/-- INTERNAL: a mark does not change the length of the bitmap. -/
@[simp] theorem setPoolMark_words (pool : MGCCellPool) (id : ℕ) (mark : BitVec 32) :
    (setPoolMark pool id mark).bitmap.length = pool.bitmap.length :=
  List.length_modify ..

/-- INTERNAL: the marks of one word of the bitmap. -/
theorem poolMark_word {n i : ℕ} (hn : n < pool.bitmap.length) (hi : i < 16) :
    poolMark pool (16 * n + i) = getField 2 pool.bitmap[n] i := by
  rw [poolMark, (by omega : (16 * n + i) / 16 = n), (by omega : (16 * n + i) % 16 = i),
    List.getD_eq_getElem?_getD, List.getElem?_eq_getElem hn]
  rfl

/-- INTERNAL: the marks after one mark was written. -/
theorem poolMark_set {mark : BitVec 32} (hm : mark &&& 3 = mark)
    (h : id / 16 < pool.bitmap.length) (id' : ℕ) :
    poolMark (setPoolMark pool id mark) id' = if id' = id then mark else poolMark pool id' := by
  have hlt : ∀ i, 2 * (i % 16) + 2 ≤ 32 := fun i => by omega
  rw [poolMark, poolMark, setPoolMark, List.getD_eq_getElem?_getD, List.getD_eq_getElem?_getD,
    List.getElem?_modify]
  by_cases hw : id / 16 = id' / 16
  · have h' : id' / 16 < pool.bitmap.length := hw ▸ h
    rw [List.getElem?_eq_getElem h']
    by_cases hid : id' = id
    · subst hid
      simp only [if_pos]
      exact getField_setField_same (hlt _) hm
    · rw [if_neg hid]
      simp only [if_pos hw]
      exact getField_setField_ne (hlt _) hm (by omega)
  · rw [if_neg fun e : id' = id => hw (by rw [e])]
    simp only [if_neg hw]
    cases pool.bitmap[id' / 16]? <;> rfl

/-- INTERNAL: writing a mark back changes nothing. -/
theorem setPoolMark_self (pool : MGCCellPool) (id : ℕ) :
    setPoolMark pool id (poolMark pool id) = pool := by
  have hmodify : pool.bitmap.modify (id / 16)
      (fun w => setField 2 w (id % 16) (poolMark pool id)) = pool.bitmap := by
    refine List.ext_getElem? fun n => ?_
    rw [List.getElem?_modify]
    by_cases hn : id / 16 = n
    · subst hn
      cases hw : pool.bitmap[id / 16]? with
      | none => rfl
      | some w =>
        rw [poolMark, List.getD_eq_getElem?_getD, hw]
        simp [setField_getField]
    · simp [hn]
  rw [setPoolMark, hmodify]

/-- INTERNAL: a mark is one of the four. -/
theorem poolMark_cases (pool : MGCCellPool) (id : ℕ) :
    poolMark pool id = GC_MARK_UNUSED ∨ poolMark pool id = GC_MARK_WHITE ∨
      poolMark pool id = GC_MARK_GRAY ∨ poolMark pool id = GC_MARK_BLACK := by
  have hfits : poolMark pool id &&& 3 = poolMark pool id := getField_fits _ _
  have hlt : (poolMark pool id).toNat < 4 := by
    rw [← hfits, BitVec.toNat_and]
    exact Nat.lt_of_le_of_lt Nat.and_le_right (by decide)
  have hcases : (poolMark pool id).toNat = 0 ∨ (poolMark pool id).toNat = 1 ∨
      (poolMark pool id).toNat = 2 ∨ (poolMark pool id).toNat = 3 := by omega
  simpa [BitVec.toNat_inj.symm] using hcases

/-! ## Cells -/

/-- The address of a cell. -/
def cellAddr (D : GCConfig) (pool : MGCCellPool) (id : ℕ) : Addr :=
  pool.begin + id * (D.descrs pool.type).size

/-- The bitmap word of the cell begins less than `2 ^ 32` bytes behind the first cell. -/
def NearAt (D : GCConfig) (pool : MGCCellPool) (id : ℕ) : Prop :=
  id / 16 * (16 * (D.descrs pool.type).size) < 2 ^ 32

/-- The bitmap of a pool has the size of its type, and no mark behind that of the last cell. -/
structure BitmapFits (D : GCConfig) (pool : MGCCellPool) : Prop where
  words : pool.bitmap.length = D.bitmapWords pool.type
  padding : ∀ id, D.cellNum pool.type ≤ id → poolMark pool id = GC_MARK_UNUSED

/-- A pool: its place, its bitmap, and a free list of exactly the unused cells. -/
structure PoolInv (D : GCConfig) (base : Addr) (pool : MGCCellPool) : Prop where
  aligned : D.poolSize ∣ base
  size_pos : 0 < (D.descrs pool.type).size
  begin_eq : pool.begin = base + poolHeaderSize + D.bitmapSize pool.type
  words : pool.bitmap.length = D.bitmapWords pool.type
  padding : ∀ id, D.cellNum pool.type ≤ id → poolMark pool id = GC_MARK_UNUSED
  free_nodup : pool.freeCells.Nodup
  mem_free : ∀ a, a ∈ pool.freeCells ↔
    ∃ id < D.cellNum pool.type, a = cellAddr D pool id ∧ poolMark pool id = GC_MARK_UNUSED

/-- INTERNAL: the bitmap of a pool fits. -/
theorem PoolInv.bitmapFits (h : PoolInv D base pool) : BitmapFits D pool := ⟨h.words, h.padding⟩

/-! ## The layout of a pool -/

/-- INTERNAL: the sizing loop ends with a number that fits. -/
theorem fitCells_le (size descrSize num : ℕ) :
    fitCells size descrSize num * descrSize + bitmapBytes (fitCells size descrSize num) ≤ size := by
  induction num with
  | zero => simp [fitCells, bitmapBytes]
  | succ num ih =>
    rw [fitCells]
    split_ifs with h
    · exact h
    · exact ih

/-- INTERNAL: the bytes of a bitmap hold two bits for each cell, and are words.
SOURCE: m_gc_obj.c:729 -/
theorem bitmapBytes_spec (num : ℕ) : num ≤ 4 * bitmapBytes num ∧ 8 ∣ bitmapBytes num := by
  rw [bitmapBytes]
  omega

/-- INTERNAL: every cell has its mark in the bitmap. -/
theorem cellNum_le (D : GCConfig) (t : MGCObjType) : D.cellNum t ≤ 16 * D.bitmapWords t := by
  have h := bitmapBytes_spec (D.cellNum t)
  rw [GCConfig.bitmapWords, GCConfig.bitmapSize]
  omega

/-- INTERNAL: header, bitmap and cells fit the pool. -/
theorem layout_le (D : GCConfig) (t : MGCObjType) :
    poolHeaderSize + D.bitmapSize t + D.cellNum t * (D.descrs t).size ≤ D.poolSize := by
  have h := fitCells_le (D.poolSize - poolHeaderSize) (D.descrs t).size
    ((D.poolSize - poolHeaderSize) * 8 % 2 ^ 64 / ((D.descrs t).size * 8 + 2))
  have hpage : 2 ^ 12 ≤ D.poolSize := Nat.pow_le_pow_right (by decide) D.page_le
  rw [GCConfig.bitmapSize, GCConfig.cellNum]
  unfold poolHeaderSize at *
  omega

/-- INTERNAL: a pool has some bytes. -/
theorem poolSize_pos (D : GCConfig) : 0 < D.poolSize := Nat.two_pow_pos _

/-- INTERNAL: a cell lies between the header of its pool and the end. -/
theorem cellAddr_bounds (hbegin : pool.begin = base + poolHeaderSize + D.bitmapSize pool.type)
    (hsize : 0 < (D.descrs pool.type).size) (hid : id < D.cellNum pool.type) :
    base ≤ cellAddr D pool id ∧ cellAddr D pool id < base + D.poolSize := by
  have hle := layout_le D pool.type
  have hmul : (id + 1) * (D.descrs pool.type).size ≤
      D.cellNum pool.type * (D.descrs pool.type).size := Nat.mul_le_mul_right _ hid
  rw [Nat.succ_mul] at hmul
  rw [cellAddr, hbegin, Nat.add_assoc, Nat.add_assoc]
  exact ⟨Nat.le_add_right _ _, Nat.add_lt_add_left (by omega) _⟩

/-- INTERNAL: the address of a cell leads back to an aligned pool. -/
theorem getPool_of_layout (haligned : D.poolSize ∣ base)
    (hbegin : pool.begin = base + poolHeaderSize + D.bitmapSize pool.type)
    (hsize : 0 < (D.descrs pool.type).size) (hid : id < D.cellNum pool.type) :
    gcObjGetPool D (cellAddr D pool id) = base := by
  have hbounds := cellAddr_bounds hbegin hsize hid
  obtain ⟨m, rfl⟩ := haligned
  have hdiv : cellAddr D pool id / D.poolSize = m := by
    apply Nat.div_eq_of_lt_le
    · rw [Nat.mul_comm]
      exact hbounds.1
    · rw [Nat.succ_mul, Nat.mul_comm]
      exact hbounds.2
  rw [gcObjGetPool, hdiv, Nat.mul_comm]

/-- INTERNAL: cells that take up memory have different addresses. -/
theorem cellAddr_inj_of_size (hsize : 0 < (D.descrs pool.type).size)
    (heq : cellAddr D pool id = cellAddr D pool id') : id = id' :=
  Nat.eq_of_mul_eq_mul_right hsize (Nat.add_left_cancel heq)

/-- INTERNAL: the address of a cell leads back to its pool. -/
theorem PoolInv.getPool_cellAddr (h : PoolInv D base pool) (hid : id < D.cellNum pool.type) :
    gcObjGetPool D (cellAddr D pool id) = base :=
  getPool_of_layout h.aligned h.begin_eq h.size_pos hid

/-- INTERNAL: the address of a cell leads back to its number. -/
theorem PoolInv.getId_cellAddr (h : PoolInv D base pool) (id : ℕ) :
    gcObjGetId (D.descrs pool.type) pool (cellAddr D pool id) = .ok id := by
  have hsize := h.size_pos
  rw [gcObjGetId, cellAddr, if_neg (Nat.not_lt.mpr (Nat.le_add_right _ _)),
    if_neg (Nat.ne_of_gt hsize), Nat.add_sub_cancel_left,
    Nat.mul_div_cancel _ hsize]

/-- INTERNAL: two cells have two addresses. -/
theorem PoolInv.cellAddr_inj (h : PoolInv D base pool)
    (heq : cellAddr D pool id = cellAddr D pool id') : id = id' :=
  cellAddr_inj_of_size h.size_pos heq

/-- INTERNAL: cells are word-aligned. -/
theorem PoolInv.aligned_cellAddr (h : PoolInv D base pool) (id : ℕ) :
    8 ∣ cellAddr D pool id := by
  have hpool : 8 ∣ D.poolSize := by
    rw [GCConfig.poolSize, show (8 : ℕ) = 2 ^ 3 from rfl]
    exact Nat.pow_dvd_pow 2 (Nat.le_trans (by decide) D.page_le)
  rw [cellAddr, h.begin_eq]
  refine Nat.dvd_add (Nat.dvd_add (Nat.dvd_add (hpool.trans h.aligned) (by decide)) ?_) ?_
  · exact (bitmapBytes_spec _).2
  · exact (D.descrs pool.type).size_aligned.mul_left id

end Ming.Interface
