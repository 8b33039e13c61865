import Ming.Analysis.GCPoolLayout
import Ming.Foundation.LinkedChain

/-!
# The free list of a new pool

`gc_alloc_pool` writes the link of a cell while it goes on to the next one, so cells have to be
as large as a link and to lie inside of the pool. Arrays have size zero: their bitmap takes the
whole pool, and their cells lie behind it.
-/

set_option autoImplicit false

namespace Ming.Analysis

open Ming.Foundation Ming.Model Ming.Interface

variable {D : GCConfig} {type : MGCObjType} {base ptr num size : ℕ}
variable {links : CellSlot → Addr} {pnode slot : CellSlot}

/-- The addresses of `num` cells from `ptr` on. -/
def cellsFrom (ptr size num : ℕ) : List ℕ :=
  (List.range num).map fun i => ptr + i * size

/-- INTERNAL: the first cell and the others. -/
theorem cellsFrom_succ (ptr size num : ℕ) :
    cellsFrom ptr size (num + 1) = ptr :: cellsFrom (ptr + size) size num := by
  rw [cellsFrom, List.range_succ_eq_map, List.map_cons, List.map_map, Nat.zero_mul, Nat.add_zero]
  refine congrArg _ (List.map_congr_left fun i _ => ?_)
  rw [Function.comp_apply, Nat.succ_mul]
  omega

/-- The slot belongs to the head of the pool, or to a cell below `ptr`. -/
def BelowCell (ptr : ℕ) : CellSlot → Prop
  | .freeCells => True
  | .next cell => cell < ptr

/-- The slot lies inside of the pool. -/
def InsidePool (D : GCConfig) (base : ℕ) : CellSlot → Prop
  | .freeCells => True
  | .next cell => base ≤ cell ∧ cell + cellNodeSize ≤ base + D.poolSize

/-- INTERNAL: a link inside of the pool is stored. -/
theorem storeLink_eq (h : InsidePool D base pnode) (node : Addr) :
    storeLink D base links pnode node = .ok (Function.update links pnode node) := by
  cases pnode with
  | freeCells => rfl
  | next cell => exact if_pos h

/-- INTERNAL: the loop over cells inside of the pool. Slots below `ptr` other than the one that
is written are left alone. The induction is on the number of the cells.
SOURCE: m_gc_obj.c:160-168 -/
theorem threadCells_spec (links : CellSlot → Addr) (hsize : cellNodeSize ≤ size) (hptr : base < ptr)
    (hend : ptr + num * size ≤ base + D.poolSize) (hin : InsidePool D base pnode)
    (hbelow : BelowCell ptr pnode) :
    ∃ links', threadCells D base size num links pnode ptr = .ok links' ∧
      (∀ slot, BelowCell ptr slot → slot ≠ pnode → links' slot = links slot) ∧
      Chain (fun cell => links' (.next cell)) 0 (links' pnode) (cellsFrom ptr size num) := by
  induction num generalizing links pnode ptr with
  | zero =>
    refine ⟨_, storeLink_eq hin 0, fun slot _ hne => Function.update_of_ne hne _ _, ?_⟩
    exact Function.update_self ..
  | succ num ih =>
    rw [Nat.succ_mul] at hend
    have hpos : 0 < cellNodeSize := by decide
    have hroom : ptr + cellNodeSize ≤ base + D.poolSize := by omega
    have hinside : InsidePool D base (.next ptr) := ⟨hptr.le, hroom⟩
    have hnext : BelowCell (ptr + size) (.next ptr) := by
      change ptr < ptr + size
      omega
    obtain ⟨links', e, hframe, hchain⟩ := ih (Function.update links pnode ptr)
      (show base < ptr + size by omega) (by omega) hinside hnext
    -- what is below `ptr` is below the next cell, and no slot of it
    have hkeep : ∀ slot : CellSlot, BelowCell ptr slot → BelowCell (ptr + size) slot ∧
        slot ≠ .next ptr := by
      intro slot hslot
      cases slot with
      | freeCells => exact ⟨trivial, by simp⟩
      | next cell =>
        have hcell : cell < ptr := hslot
        refine ⟨hcell.trans_le (Nat.le_add_right _ _), fun e => ?_⟩
        exact hcell.ne (CellSlot.next.inj e)
    refine ⟨links', ?_, fun slot hslot hne => ?_, ?_⟩
    · rw [threadCells, storeLink_eq hin]
      exact e
    · rw [hframe slot (hkeep slot hslot).1 (hkeep slot hslot).2]
      exact Function.update_of_ne hne _ _
    · rw [hframe pnode (hkeep pnode hbelow).1 (hkeep pnode hbelow).2, Function.update_self,
        cellsFrom_succ]
      exact ⟨rfl, (Nat.zero_lt_of_lt hptr).ne', hchain⟩

/-- INTERNAL: cells of a positive size do not meet. -/
theorem cellsFrom_disjoint (ptr size num : ℕ) :
    (cellsFrom ptr size num).Pairwise fun a b => a + size ≤ b := by
  rw [cellsFrom, List.pairwise_map]
  refine List.pairwise_lt_range.imp fun {i j} hij => ?_
  have hmul := Nat.mul_le_mul_right size (Nat.succ_le_of_lt hij)
  rw [Nat.succ_mul] at hmul
  omega

/-! ## A pool that can be used -/

/-- A free list of `stub->cell_num` cells of at least a link, apart from each other and inside
of the pool behind the bitmap, with their numbers as `gc_obj_get_id`. -/
structure PoolThreaded (D : GCConfig) (type : MGCObjType) (base : ℕ) (m : PoolMem)
    (cells : List Addr) : Prop where
  chain : Chain (fun cell => m.links (.next cell)) 0 (m.links .freeCells) cells
  length : cells.length = D.cellNum type
  cell_pos : 1 ≤ D.cellNum type
  size : cellNodeSize ≤ (D.descrs type).size
  disjoint : cells.Pairwise fun a b =>
    a + (D.descrs type).size ≤ b ∨ b + (D.descrs type).size ≤ a
  inside : ∀ cell ∈ cells, base + poolHeaderSize + D.bitmapSize type ≤ cell ∧
    cell + (D.descrs type).size ≤ base + D.poolSize
  id : ∀ i (h : i < cells.length), gcObjGetId (D.descrs type) (m.pool cells) cells[i] = .ok i

/-- `gc_alloc_pool` makes a pool of the type that can be used. -/
def Allocatable (D : GCConfig) (type : MGCObjType) (base : ℕ) (links : CellSlot → Addr) :
    Prop :=
  ∃ m cells, gcFillPool D type base links = .ok m ∧ PoolThreaded D type base m cells

/-- INTERNAL: a type whose cells hold a link.
SOURCE: m_gc_obj.c:134-173 -/
theorem fillPool_spec (hsize : cellNodeSize ≤ (D.descrs type).size)
    (hcells : D.cellNum type < 2 ^ 31) (base : ℕ) (links : CellSlot → Addr) :
    ∃ m, gcFillPool D type base links = .ok m ∧
      m.pool (newPool D type base).freeCells = newPool D type base ∧
      Chain (fun cell => m.links (.next cell)) 0 (m.links .freeCells)
        (newPool D type base).freeCells := by
  have hlayout := layout_le D type
  have hnum : (BitVec.ofNat 32 (D.cellNum type)).toNat = D.cellNum type := by
    rw [BitVec.toNat_ofNat]
    exact Nat.mod_eq_of_lt (by omega)
  have hheader : poolHeaderSize = 40 := rfl
  have hptr : base < base + poolHeaderSize + D.bitmapSize type := by omega
  have hend : base + poolHeaderSize + D.bitmapSize type +
      D.cellNum type * (D.descrs type).size ≤ base + D.poolSize := by omega
  have hhead : InsidePool D base .freeCells := trivial
  obtain ⟨links', e, -, hchain⟩ := threadCells_spec links hsize hptr hend hhead trivial
  have hfit : base + poolHeaderSize + D.bitmapSize type ≤ base + D.poolSize := by omega
  refine ⟨⟨type, _, _, links'⟩, ?_, rfl, hchain⟩
  rw [gcFillPool, if_pos hfit]
  simp only [hnum, e, Outcome.ok_bind, Outcome.pure_eq_ok]

/-- INTERNAL: such a type can be allocated when a cell fits. -/
theorem allocatable (hsize : cellNodeSize ≤ (D.descrs type).size)
    (hle : (D.descrs type).size ≤ 1024) (hcells : D.cellNum type < 2 ^ 31) (base : ℕ)
    (links : CellSlot → Addr) : Allocatable D type base links := by
  obtain ⟨m, e, hpool, hchain⟩ := fillPool_spec hsize hcells base links
  have hpos : 0 < (D.descrs type).size := Nat.lt_of_lt_of_le (by decide) hsize
  have hlen : (newPool D type base).freeCells.length = D.cellNum type := by
    rw [newPool, List.length_map, List.length_range]
  refine ⟨m, _, e, hchain, hlen, cellNum_pos_of_size_le hle, hsize, ?_, fun cell hcell => ?_,
    fun i hi => ?_⟩
  · exact (cellsFrom_disjoint _ _ _).imp Or.inl
  · obtain ⟨i, hi, rfl⟩ := List.mem_map.mp hcell
    have hlayout := layout_le D type
    have hmul := Nat.mul_le_mul_right (D.descrs type).size
      (Nat.succ_le_of_lt (List.mem_range.mp hi))
    rw [Nat.succ_mul] at hmul
    have hend : base + poolHeaderSize + D.bitmapSize type + i * (D.descrs type).size +
        (D.descrs type).size ≤ base + D.poolSize := by omega
    exact ⟨Nat.le_add_right _ _, hend⟩
  · have hget : (newPool D type base).freeCells[i] =
        (newPool D type base).begin + i * (D.descrs type).size := by
      simp only [newPool, List.getElem_map, List.getElem_range]
    rw [hpool, hget, gcObjGetId, if_neg (Nat.not_lt.mpr (Nat.le_add_right _ _)),
      if_neg hpos.ne', Nat.add_sub_cancel_left, Nat.mul_div_cancel _ hpos]

/-! ## Arrays -/

/-- INTERNAL: the pool of a type with cells of size zero is full with its bitmap.
SOURCE: m_gc_obj.c:723-738 -/
theorem sizeZero_layout (hsize : (D.descrs type).size = 0) (hcells : D.cellNum type < 2 ^ 31) :
    D.cellNum type = 4 * (D.poolSize - poolHeaderSize) ∧
      D.bitmapSize type = D.poolSize - poolHeaderSize := by
  have hheader : poolHeaderSize = 40 := rfl
  have hpage := poolSize_ge D
  have hnum := start_numerator D
  have hdvd : 8 ∣ D.poolSize := (show 8 ∣ 2 ^ 12 by decide).trans (Nat.pow_dvd_pow 2 D.page_le)
  have hfit : ∀ n, n ≤ 4 * (D.poolSize - poolHeaderSize) →
      bitmapBytes n ≤ D.poolSize - poolHeaderSize := fun n hn =>
    bitmapBytes_le (by omega) (by omega)
  -- the first number that is tried fits
  have hstart : D.cellNum type = (D.poolSize - poolHeaderSize) * 8 % 2 ^ 64 / 2 := by
    have hcell : D.cellNum type = fitCells (D.poolSize - poolHeaderSize) 0
        ((D.poolSize - poolHeaderSize) * 8 % 2 ^ 64 / 2) := by
      rw [GCConfig.cellNum, hsize]
    have hmod := Nat.mod_le ((D.poolSize - poolHeaderSize) * 8) (2 ^ 64)
    rw [hcell]
    refine Nat.le_antisymm (fitCells_le_start _ _ _) (le_fitCells le_rfl ?_)
    rw [Nat.mul_zero, Nat.zero_add]
    exact hfit _ (by omega)
  have hbits : D.poolBits < 61 := by
    by_contra hge
    rw [if_neg hge] at hnum
    omega
  rw [if_pos hbits] at hnum
  have hcell : D.cellNum type = 4 * (D.poolSize - poolHeaderSize) := by omega
  refine ⟨hcell, Nat.le_antisymm (hfit _ hcell.le) ?_⟩
  have hspec := (bitmapBytes_spec (D.cellNum type)).1
  rw [GCConfig.bitmapSize]
  omega

/-- INTERNAL: the second link of a pool with cells of size zero is written behind the pool. -/
theorem fillPool_sizeZero (hsize : (D.descrs type).size = 0) (hcells : D.cellNum type < 2 ^ 31)
    (base : ℕ) (links : CellSlot → Addr) :
    gcFillPool D type base links = .error .outOfBounds := by
  obtain ⟨hcell, hbitmap⟩ := sizeZero_layout hsize hcells
  have hheader : poolHeaderSize = 40 := rfl
  have hpage := poolSize_ge D
  obtain ⟨n, hn⟩ : ∃ n, D.cellNum type = n + 2 := ⟨D.cellNum type - 2, by omega⟩
  have hnum : (BitVec.ofNat 32 (D.cellNum type)).toNat = n + 2 := by
    rw [BitVec.toNat_ofNat, ← hn]
    exact Nat.mod_eq_of_lt (by omega)
  have hbegin : base + poolHeaderSize + D.bitmapSize type = base + D.poolSize := by omega
  have hout : ¬ (base ≤ base + D.poolSize ∧
      base + D.poolSize + cellNodeSize ≤ base + D.poolSize) := by
    rintro ⟨-, hle⟩
    exact absurd hle (Nat.not_le.mpr (Nat.lt_add_of_pos_right (by decide)))
  rw [gcFillPool, if_pos hbegin.le]
  simp only [hnum, hbegin, threadCells, storeLink, Outcome.ok_bind, if_neg hout,
    Outcome.error_bind]

/-- **Which object types are allocatable.** With the table of descriptions and any pool size that
makes fewer than `2 ^ 31` cells, `gc_alloc_pool` threads a free list of all cells of the pool,
and `gc_obj_get_id` leads back to their numbers, exactly when the type is not the one of arrays:
a cell of an array has size zero.
SOURCE: m_gc_obj.c:97-173, 713-742; m_gc_funcs.c:26-91; m_array.h:34-35 -/
theorem type_allocatable_iff (hD : D.descrs = gcObjDescrs) (hcells : D.cellNum type < 2 ^ 31)
    (base : ℕ) (links : CellSlot → Addr) :
    Allocatable D type base links ↔ type ≠ .array := by
  constructor
  · rintro ⟨m, cells, -, h⟩ rfl
    have hsize := h.size
    rw [hD] at hsize
    exact absurd hsize (by decide)
  · intro hne
    have hsizes : cellNodeSize ≤ (D.descrs type).size ∧ (D.descrs type).size ≤ 1024 := by
      rw [hD]
      cases type with
      | array => exact absurd rfl hne
      | _ => decide
    exact allocatable hsizes.1 hsizes.2 hcells base links

/-- A pool of objects that contain a `double`. -/
theorem type_allocatable_double :
    Allocatable defaultConfig .double 4096 (fun _ => 0) :=
  (type_allocatable_iff (D := defaultConfig) rfl (by decide +kernel) 4096 fun _ => 0).mpr
    (by decide)

/-- A pool of arrays: the links are written behind the pool, and the number of a cell is a
quotient by zero. -/
theorem type_allocatable_array :
    gcFillPool defaultConfig .array 4096 (fun _ => 0) = .error .outOfBounds ∧
    gcObjGetId (defaultConfig.descrs .array) (newPool defaultConfig .array 4096)
      (newPool defaultConfig .array 4096).begin = .error .divByZero ∧
    ¬ Allocatable defaultConfig .array 4096 fun _ => 0 := by
  have hcells : defaultConfig.cellNum .array < 2 ^ 31 := by decide +kernel
  have hfault : gcFillPool defaultConfig .array 4096 (fun _ => 0) = .error .outOfBounds :=
    fillPool_sizeZero rfl hcells 4096 _
  refine ⟨hfault, ?_, fun h => ?_⟩
  · rw [gcObjGetId, if_neg (lt_irrefl _)]
    rfl
  · obtain ⟨m, cells, e, -⟩ := h
    rw [hfault] at e
    cases e

end Ming.Analysis
