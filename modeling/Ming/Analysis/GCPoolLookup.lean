import Ming.Analysis.GCAlloc
import Ming.Analysis.GCPoolLayout
import Ming.Analysis.GCPoolSize

/-!
# The pool of a cell

`gc_obj_get_pool` clears the low bits of the address of a cell. That leads to the header of its
pool when the pool lies at a multiple of the pool size. `gc_mmap` places pools at multiples of
the page size only, so every size other than the page size depends on what `mmap` returns.
-/

set_option autoImplicit false

namespace Ming.Analysis

open Ming.Foundation Ming.Model Ming.Interface

variable {D : GCConfig} {s s' : GCState} {type : MGCObjType}
variable {maps : ℕ → Option Addr → ℕ → Option Addr} {base : Addr}

/-- Every call of `mmap` returns the address of a page. -/
def PageAligned (maps : ℕ → Option Addr → ℕ → Option Addr) : Prop :=
  ∀ i hint size base, maps i hint size = some base → M_PAGE_SIZE ∣ base

/-- From the address of each cell of a new pool the header of the pool and the number of the
cell are found. -/
def CellsFound (D : GCConfig) (s : GCState) (type : MGCObjType)
    (maps : ℕ → Option Addr → ℕ → Option Addr) : Prop :=
  ∀ base s', gcAllocPool D s type (gcMmap D.poolSize maps) = some (base, s') →
    ∀ pool, s'.pools base = some pool → ∀ ptr ∈ pool.freeCells,
      ∃ id < D.cellNum type, ptr = cellAddr D pool id ∧ PointsTo D s' ptr base id

/-! ## The cells of a pool -/

/-- INTERNAL: a pool of any size holds a cell of every type.
SOURCE: m_gc_obj.c:721-736 -/
theorem cellNum_pos (hD : D.descrs = gcObjDescrs) : 0 < D.cellNum type := by
  apply cellNum_pos_of_size_le
  rw [hD]
  cases type <;> decide

/-- INTERNAL: `gc_mmap` returns what the first call of `mmap` returned. -/
theorem gcMmap_eq (h : PageAligned maps) (hpage : M_PAGE_SIZE ∣ D.poolSize) :
    gcMmap D.poolSize maps = maps 0 none D.poolSize := by
  have hround : pageRound D.poolSize = D.poolSize := by
    obtain ⟨m, hm⟩ := hpage
    rw [pageRound, hm, Nat.mul_add_div (by decide)]
    rw [show (M_PAGE_SIZE - 1) / M_PAGE_SIZE = 0 from rfl, Nat.add_zero, Nat.mul_comm]
  rw [gcMmap]
  simp only [hround]
  cases hmap : maps 0 none D.poolSize with
  | none => rfl
  | some base => simp [Nat.mod_eq_zero_of_dvd (h 0 none D.poolSize base hmap)]

/-- INTERNAL: the cells of a pool are found when it lies at a multiple of the pool size. -/
theorem cellsFound_of_dvd (hsize : 0 < (D.descrs type).size)
    (h : ∀ base, gcMmap D.poolSize maps = some base → D.poolSize ∣ base) :
    CellsFound D s type maps := by
  intro base s' e pool hpool ptr hptr
  cases hmap : gcMmap D.poolSize maps with
  | none =>
    rw [hmap] at e
    exact nomatch e
  | some b =>
    rw [hmap] at e
    obtain ⟨rfl, rfl⟩ := Prod.mk.inj (Option.some.inj e)
    obtain rfl := Option.some.inj ((if_pos rfl).symm.trans hpool)
    have hinv := newPool_inv (D := D) (h b hmap) hsize
    obtain ⟨id, hid, rfl, -⟩ := (hinv.mem_free ptr).mp hptr
    exact ⟨id, hid, rfl, (hinv.getPool_cellAddr hid).symm, _, hpool, hinv.getId_cellAddr id⟩

/-- INTERNAL: a pool whose cells are found lies at a multiple of the pool size. -/
theorem dvd_of_cellsFound (hcells : 0 < D.cellNum type) (h : CellsFound D s type maps)
    (hmap : gcMmap D.poolSize maps = some base) : D.poolSize ∣ base := by
  have halloc : gcAllocPool D s type (gcMmap D.poolSize maps) =
      some (base, (s.store base (newPool D type base)).setStub type
        { s.stubs type with usablePools := base :: (s.stubs type).usablePools }) := by
    rw [hmap]
    rfl
  have hmem : cellAddr D (newPool D type base) 0 ∈ (newPool D type base).freeCells :=
    List.mem_map.mpr ⟨0, List.mem_range.mpr hcells, rfl⟩
  obtain ⟨id, -, -, hbase, -⟩ := h base _ halloc _ (if_pos rfl) _ hmem
  rw [hbase, gcObjGetPool]
  exact Nat.dvd_mul_left _ _

/-- **The pool of a cell is found exactly when the pool lies at a multiple of the pool size.**
For every pool size that `gc_obj_startup` accepts, every type whose cells are not empty and
every `mmap` that returns pages.
SOURCE: m_gc_obj.c:81-104, 134-173, 672-695, m_gc_map.c:56-110 -/
theorem pool_lookup_iff (n : Option (BitVec 64)) (s : GCState)
    (hsize : 0 < (gcObjDescrs type).size) (hmaps : PageAligned maps) :
    CellsFound (startupConfig n) s type maps ↔
      ∀ base, maps 0 none (startupConfig n).poolSize = some base →
        (startupConfig n).poolSize ∣ base := by
  have hpage : M_PAGE_SIZE ∣ (startupConfig n).poolSize :=
    Nat.pow_dvd_pow 2 (startupConfig n).page_le
  have hmmap := gcMmap_eq hmaps hpage
  constructor
  · intro h base hmap
    exact dvd_of_cellsFound (cellNum_pos rfl) h (hmmap.trans hmap)
  · intro h
    apply cellsFound_of_dvd hsize
    intro base hmap
    exact h base (hmmap.symm.trans hmap)

/-- With the size of a page every pool is found. -/
theorem pool_lookup_default : CellsFound (startupConfig none) gcObjStartup .double
    fun _ _ _ => some 8192 :=
  (pool_lookup_iff none gcObjStartup (by decide) fun _ _ _ _ hmap =>
    Option.some.inj hmap ▸ ⟨2, rfl⟩).mpr fun _ hmap => Option.some.inj hmap ▸ ⟨2, rfl⟩

/-- A pool of two pages that lies at an odd page.
SOURCE: m_gc_map.c:65-71 -/
theorem pool_lookup_counterexample : ¬ ∀ (n : Option (BitVec 64)) (s : GCState)
    (type : MGCObjType) (maps : ℕ → Option Addr → ℕ → Option Addr),
    0 < (gcObjDescrs type).size → PageAligned maps → CellsFound (startupConfig n) s type maps := by
  intro hall
  have hmaps : PageAligned fun _ _ _ => some 4096 := fun _ _ _ _ hmap =>
    Option.some.inj hmap ▸ ⟨1, rfl⟩
  have hsize : (startupConfig (some 8192)).poolSize = 8192 := by decide
  have hpage : M_PAGE_SIZE ∣ (startupConfig (some 8192)).poolSize := ⟨2, hsize⟩
  have hdvd := dvd_of_cellsFound (cellNum_pos rfl)
    (hall (some 8192) gcObjStartup .double _ (by decide) hmaps) (gcMmap_eq hmaps hpage)
  rw [hsize] at hdvd
  exact absurd hdvd (by decide)

end Ming.Analysis
