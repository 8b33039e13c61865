import Ming.Analysis.GCHeapRuns
import Ming.Analysis.GCPoolAlloc
import Ming.Interface.PoolLinks
import Ming.Interface.SListSequence

/-!
# The links of a pool

Where the links of a pool lie, and which stores leave a list alone. A new pool has all its cells
on its free list, and the first free cell of a pool is taken off it; both change words of pool
headers and of free cells only.
-/

set_option autoImplicit false

namespace Ming.Analysis

open Ming.Foundation Ming.Model Ming.Interface

variable {D : GCConfig} {s s' s₁ : GCState} {pool pool' : MGCCellPool} {base a b : ℕ}
variable {m m' : GCMemory} {id id' k : ℕ} {todo : List Addr} {type : MGCObjType}

/-! ## Where the links lie -/

/-- INTERNAL: the pool of an address inside of it.
SOURCE: m_gc_obj.c:82-86 -/
theorem getPool_add (hbase : D.poolSize ∣ base) {off : ℕ} (hoff : off < D.poolSize) :
    gcObjGetPool D (base + off) = base := by
  obtain ⟨n, rfl⟩ := hbase
  rw [gcObjGetPool, Nat.mul_add_div (poolSize_pos D), Nat.div_eq_of_lt hoff, Nat.add_zero,
    Nat.mul_comm]

/-- INTERNAL: a pool has at least one page. -/
theorem page_le_poolSize (D : GCConfig) : 2 ^ 12 ≤ D.poolSize :=
  Nat.pow_le_pow_right (by decide) D.page_le

/-- INTERNAL: a pool begins at a word. -/
theorem eight_dvd_base (hbase : D.poolSize ∣ base) : 8 ∣ base := by
  have hpool : 8 ∣ D.poolSize := by
    rw [GCConfig.poolSize, show (8 : ℕ) = 2 ^ 3 from rfl]
    exact Nat.pow_dvd_pow 2 (Nat.le_trans (by decide) D.page_le)
  exact hpool.trans hbase

/-- INTERNAL: the pool of its own address. -/
theorem getPool_base (hbase : D.poolSize ∣ base) : gcObjGetPool D base = base :=
  getPool_add hbase (poolSize_pos D)

/-- INTERNAL: the pool of the head of its free cells. -/
theorem getPool_freeCellsAt (hbase : D.poolSize ∣ base) :
    gcObjGetPool D (freeCellsAt base) = base :=
  getPool_add hbase (Nat.lt_of_lt_of_le (by decide) (page_le_poolSize D))

/-- INTERNAL: the two list heads of a pool have two addresses. -/
theorem freeCellsAt_ne (base : Addr) : freeCellsAt base ≠ base :=
  Nat.ne_of_gt (Nat.lt_add_of_pos_right (by decide))

/-- INTERNAL: cells lie behind the header. -/
theorem header_lt_cell (h : PoolInv D base pool) (id : ℕ) : base + 8 < cellAddr D pool id := by
  rw [cellAddr, h.begin_eq, poolHeaderSize, Nat.add_assoc, Nat.add_assoc]
  exact Nat.add_lt_add_left (by omega) base

/-- INTERNAL: a word of a pool can be accessed when the pool is mapped. -/
theorem live_of_mapped (hp : s.pools (gcObjGetPool D a) ≠ none) (ha : 8 ∣ a) :
    GCMemory.live D s a = true := by
  rw [GCMemory.live, Bool.and_eq_true, decide_eq_true_eq]
  exact ⟨Nat.mod_eq_zero_of_dvd ha, Option.isSome_iff_ne_none.mpr hp⟩

/-- INTERNAL: the memory depends on the mapped pools only. -/
theorem live_congr (hp : ∀ b, s'.pools b = none ↔ s.pools b = none) :
    GCMemory.live D s' = GCMemory.live D s := by
  funext a
  rw [GCMemory.live, GCMemory.live]
  congr 1
  rw [Bool.eq_iff_iff, Option.isSome_iff_ne_none, Option.isSome_iff_ne_none]
  exact not_congr (hp _)

/-- INTERNAL: the memory does not depend on the links. -/
theorem live_unlinked (s : GCState) : GCMemory.live D (unlinked s) = GCMemory.live D s :=
  live_congr fun b => by
    rw [show (unlinked s).pools b = (s.pools b).map unlinkedPool from rfl, Option.map_eq_none_iff]

/-- The words of a pool that hold links can be accessed. -/
structure LinksLive (D : GCConfig) (s : GCState) (base : Addr) (pool : MGCCellPool) : Prop where
  free : Access (GCMemory.live D s) (.addr (freeCellsAt base) : MSListRef PoolHead)
  cell : ∀ id < D.cellNum pool.type,
    Access (GCMemory.live D s) (.addr (cellAddr D pool id) : MSListRef PoolHead)
  node : base ≠ 0 → Access (GCMemory.live D s) (.addr base : MSListRef PoolHead)

/-- INTERNAL: the words of a mapped pool. -/
theorem linksLive (h : PoolInv D base pool) (hmapped : s.pools base ≠ none) :
    LinksLive D s base pool := by
  refine ⟨⟨Nat.succ_ne_zero _, live_of_mapped ?_ ?_⟩, fun id hid => ⟨?_, live_of_mapped ?_ ?_⟩,
    fun hne => ⟨hne, live_of_mapped ?_ (eight_dvd_base h.aligned)⟩⟩
  · rwa [getPool_freeCellsAt h.aligned]
  · exact Nat.dvd_add (eight_dvd_base h.aligned) (dvd_refl 8)
  · exact Nat.ne_of_gt (Nat.zero_lt_of_lt (header_lt_cell h id))
  · rwa [h.getPool_cellAddr hid]
  · exact h.aligned_cellAddr id
  · rwa [getPool_base h.aligned]

/-! ## Cells in use -/

/-- The word at `a` lies in a cell that is in use. -/
def CellWord (D : GCConfig) (s : GCState) (a : Addr) : Prop :=
  ∃ base pool id k, s.pools base = some pool ∧ id < D.cellNum pool.type ∧
    poolMark pool id ≠ GC_MARK_UNUSED ∧ a = cellAddr D pool id + 8 * k ∧
    8 * k + 8 ≤ (D.descrs pool.type).size

/-- INTERNAL: two cells of a pool have no word in common. -/
theorem word_inj (hk : 8 * k + 8 ≤ (D.descrs pool.type).size)
    (e : cellAddr D pool id' = cellAddr D pool id + 8 * k) : id' = id := by
  rw [cellAddr, cellAddr, Nat.add_assoc] at e
  have hmul := Nat.add_left_cancel e
  generalize (D.descrs pool.type).size = size at hk hmul
  rcases Nat.lt_trichotomy id' id with hlt | heq | hlt
  · have hle := Nat.mul_le_mul_right size (Nat.succ_le_of_lt hlt)
    rw [Nat.succ_mul] at hle
    omega
  · exact heq
  · have hle := Nat.mul_le_mul_right size (Nat.succ_le_of_lt hlt)
    rw [Nat.succ_mul] at hle
    omega

/-- INTERNAL: the words of a cell lie in its pool. -/
theorem getPool_word (h : PoolInv D base pool) (hid : id < D.cellNum pool.type)
    (hk : 8 * k + 8 ≤ (D.descrs pool.type).size) :
    gcObjGetPool D (cellAddr D pool id + 8 * k) = base := by
  have hle := layout_le D pool.type
  have hmul : (id + 1) * (D.descrs pool.type).size ≤
      D.cellNum pool.type * (D.descrs pool.type).size := Nat.mul_le_mul_right _ hid
  rw [Nat.succ_mul] at hmul
  rw [cellAddr, h.begin_eq, show base + poolHeaderSize + D.bitmapSize pool.type +
    id * (D.descrs pool.type).size + 8 * k = base + (poolHeaderSize + D.bitmapSize pool.type +
      id * (D.descrs pool.type).size + 8 * k) by omega]
  exact getPool_add h.aligned (by omega)

/-- INTERNAL: no link lies in a cell that is in use. -/
theorem CellWord.notLink (hw : CellWord D s a) (hi : HeapInv D todo s)
    (hp : s.pools base = some pool) :
    a ≠ base ∧ a ≠ freeCellsAt base ∧ a ∉ pool.freeCells := by
  obtain ⟨b, q, id, k, hq, hid, hused, rfl, hk⟩ := hw
  have hpool := hi.pool hp
  have hq' := hi.pool hq
  have hword := getPool_word hq' hid hk
  have hlt : b + 8 < cellAddr D q id + 8 * k :=
    Nat.lt_of_lt_of_le (header_lt_cell hq' id) (Nat.le_add_right _ _)
  refine ⟨fun e => ?_, fun e => ?_, fun hfree => ?_⟩
  · rw [e, getPool_base hpool.aligned] at hword
    rw [e, hword] at hlt
    exact absurd hlt (Nat.not_lt.mpr (Nat.le_add_right _ _))
  · rw [e, getPool_freeCellsAt hpool.aligned] at hword
    rw [e, hword] at hlt
    exact absurd hlt (Nat.lt_irrefl _)
  · obtain ⟨id', hid', e, hm⟩ := (hpool.mem_free _).mp hfree
    rw [e, hpool.getPool_cellAddr hid'] at hword
    subst hword
    obtain rfl := Option.some.inj (hp.symm.trans hq)
    obtain rfl := word_inj hk e.symm
    exact hused hm

/-! ## What a store into one pool leaves alone -/

/-- The links outside of the pool at `base` are those of before. -/
def SameOutside (D : GCConfig) (base : Addr) (links links' : MSListMem PoolHead) : Prop :=
  ∀ a, gcObjGetPool D a ≠ base → links'.next a = links.next a

/-- INTERNAL: a list of other pools. -/
theorem chain_pools {links links' : MSListMem PoolHead} {p : Addr} {l : List Addr}
    (h : SameOutside D base links links') (hl : ∀ b ∈ l, D.poolSize ∣ b) (hb : base ∉ l)
    (hc : Chain links.next 0 p l) : Chain links'.next 0 p l := by
  refine hc.congr fun b hbl => h b ?_
  rw [getPool_base (hl b hbl)]
  rintro rfl
  exact hb hbl

/-- INTERNAL: the free list of another pool. -/
theorem chain_cells {links links' : MSListMem PoolHead} (h : SameOutside D base links links')
    (hp : PoolInv D b pool) (hne : b ≠ base)
    (hc : Chain links.next 0 (links.next (freeCellsAt b)) pool.freeCells) :
    Chain links'.next 0 (links'.next (freeCellsAt b)) pool.freeCells := by
  rw [h (freeCellsAt b) (by rwa [getPool_freeCellsAt hp.aligned])]
  refine hc.congr fun a ha => h a ?_
  obtain ⟨id, hid, rfl, -⟩ := (hp.mem_free a).mp ha
  rwa [hp.getPool_cellAddr hid]

/-- INTERNAL: the heap after one pool and the pool lists have changed. -/
theorem linked_of_pool (h : Linked m s) (hi : HeapInv D todo s) (hst : m'.state = unlinked s')
    (hpools : ∀ b, b ≠ base → s'.pools b = s.pools b)
    (hnext : SameOutside D base m.links m'.links)
    (hlists : IsSLists m'.links (poolList s'.stubs))
    (hfree : ∀ pool, s'.pools base = some pool →
      Chain m'.links.next 0 (m'.links.next (freeCellsAt base)) pool.freeCells) :
    Linked m' s' := by
  refine ⟨hst, hlists, fun b pool hp => ?_⟩
  by_cases hb : b = base
  · subst hb
    exact hfree pool hp
  · rw [hpools b hb] at hp
    exact chain_cells hnext (hi.pool hp) hb (h.free b pool hp)

/-- INTERNAL: a list of pools is one of the two of a stub. -/
theorem poolList_eq (stubs : MGCObjType → MGCPoolStub) (hd : PoolHead) :
    ∃ t full, poolList stubs hd = stubList (stubs t) full := by
  cases hd with
  | usablePools t => exact ⟨t, false, rfl⟩
  | fullPools t => exact ⟨t, true, rfl⟩

/-- INTERNAL: the pools on a list. -/
theorem mem_poolList (hi : HeapInv D todo s) {hd : PoolHead} (hb : b ∈ poolList s.stubs hd) :
    b ∉ todo ∧ ∃ pool, s.pools b = some pool := by
  obtain ⟨t, full, e⟩ := poolList_eq s.stubs hd
  rw [e] at hb
  obtain ⟨hnot, pool, hp, -⟩ := (hi.lists.mem t full b).mp hb
  exact ⟨hnot, pool, hp⟩

/-- INTERNAL: a pool that is on no list may be changed. -/
theorem isSLists_outside (h : Linked m s) (hi : HeapInv D todo s) {links' : MSListMem PoolHead}
    (hnot : ∀ hd, base ∉ poolList s.stubs hd) (hnext : SameOutside D base m.links links')
    (hhead : links'.head = m.links.head) : IsSLists links' (poolList s.stubs) := by
  intro hd
  rw [hhead]
  refine chain_pools hnext (fun b hb => ?_) (hnot hd) (h.pools hd)
  obtain ⟨-, pool, hp⟩ := mem_poolList hi hb
  exact (hi.pool hp).aligned

/-- INTERNAL: putting a pool on a list changes no word of another pool. -/
theorem sameOutside_pushed (hbase : D.poolSize ∣ base) {links links' : MSListMem PoolHead}
    (h : SameOutside D base links links') (hd : PoolHead) :
    SameOutside D base links (pushed links' (.var hd) base) := by
  intro a ha
  rw [pushed, setField_var_next, setField_addr_next, Function.update_of_ne, h a ha]
  rintro rfl
  exact ha (getPool_base hbase)

/-- INTERNAL: header words are no cells. -/
theorem header_notMem_free (hp : PoolInv D base pool) :
    base ∉ pool.freeCells ∧ freeCellsAt base ∉ pool.freeCells := by
  have hlt : ∀ c ∈ pool.freeCells, freeCellsAt base < c := by
    intro c hc
    obtain ⟨id, -, rfl, -⟩ := (hp.mem_free c).mp hc
    exact header_lt_cell hp id
  refine ⟨fun hb => ?_, fun hb => absurd (hlt _ hb) (Nat.lt_irrefl _)⟩
  exact absurd (hlt base hb) (Nat.not_lt.mpr (Nat.le_add_right _ _))

/-- INTERNAL: putting a pool on a list leaves its free list alone. -/
theorem chain_pushed {links : MSListMem PoolHead} (hd : PoolHead) {l : List Addr}
    (hbase : base ∉ l) (hc : Chain links.next 0 (links.next (freeCellsAt base)) l) :
    Chain (pushed links (.var hd) base).next 0
      ((pushed links (.var hd) base).next (freeCellsAt base)) l := by
  rw [pushed, setField_var_next, setField_addr_next, Function.update_of_ne (freeCellsAt_ne base)]
  exact hc.update_of_notMem hbase

/-- INTERNAL: a pool is pushed on a usable list. -/
theorem poolList_push_usable (stubs : MGCObjType → MGCPoolStub) (t : MGCObjType) (b : Addr) :
    poolList (fun t' => if t' = t then { stubs t with usablePools := b :: (stubs t).usablePools }
      else stubs t') = Function.update (poolList stubs) (.usablePools t)
        (b :: poolList stubs (.usablePools t)) := by
  rw [poolList_replace]
  exact Function.update_eq_self_iff.mpr rfl

/-- INTERNAL: a pool is pushed on a full list. -/
theorem poolList_push_full (stubs : MGCObjType → MGCPoolStub) (t : MGCObjType) (b : Addr) :
    poolList (fun t' => if t' = t then { stubs t with fullPools := b :: (stubs t).fullPools }
      else stubs t') = Function.update (poolList stubs) (.fullPools t)
        (b :: poolList stubs (.fullPools t)) := by
  rw [poolList_replace]
  exact congrArg (fun L => Function.update L (.fullPools t) _)
    (Function.update_eq_self (.usablePools t) (poolList stubs))

/-! ## A new pool -/

/-- INTERNAL: the loop that threads the free list through the cells. The induction is on the
number of the cells.
SOURCE: m_gc_obj.c:160-168 -/
theorem linkCells_spec {live : Addr → Bool} {size pnode ptr : ℕ} (num : ℕ)
    (links : MSListMem PoolHead)
    (hpnode : Access live (.addr pnode : MSListRef PoolHead))
    (hcells : ∀ c ∈ cellsFrom ptr size num, Access live (.addr c : MSListRef PoolHead))
    (hlt : pnode < ptr) (hsize : 0 < size) :
    ∃ links', GCMemory.linkCells live size num links pnode ptr = .ok links' ∧
      links'.head = links.head ∧
      (∀ a, a ≠ pnode → a ∉ cellsFrom ptr size num → links'.next a = links.next a) ∧
      Chain links'.next 0 (links'.next pnode) (cellsFrom ptr size num) := by
  induction num generalizing links pnode ptr with
  | zero =>
    refine ⟨_, store_ok hpnode, rfl, fun a ha _ => Function.update_of_ne ha _ _, ?_⟩
    exact Function.update_self ..
  | succ num ih =>
    rw [cellsFrom_succ] at hcells
    obtain ⟨links', e, hhead, hframe, hchain⟩ := ih (setField links (.addr pnode) ptr)
      (hcells ptr List.mem_cons_self) (fun c hc => hcells c (List.mem_cons_of_mem _ hc))
      (Nat.lt_add_of_pos_right hsize)
    -- what lies before the next cell is no cell to come
    have hbehind : ∀ c ∈ cellsFrom (ptr + size) size num, ptr < c := by
      intro c hc
      obtain ⟨i, -, rfl⟩ := List.mem_map.mp hc
      omega
    refine ⟨links', ?_, hhead, fun a ha hac => ?_, ?_⟩
    · rw [GCMemory.linkCells, store_ok hpnode]
      exact e
    · rw [cellsFrom_succ, List.mem_cons, not_or] at hac
      rw [hframe a hac.1 hac.2]
      exact Function.update_of_ne ha _ _
    · have hp : links'.next pnode = ptr := by
        rw [hframe pnode hlt.ne fun hc => absurd (hbehind pnode hc) hlt.le.not_gt]
        exact Function.update_self ..
      rw [hp, cellsFrom_succ]
      exact ⟨rfl, Nat.ne_of_gt (Nat.zero_lt_of_lt hlt), hchain⟩

/-- INTERNAL: **a new pool** with all its cells on its free list.
SOURCE: m_gc_obj.c:134-173 -/
theorem allocPool_linked (h : Linked m s) (hi : HeapInv D [] s) (hbase : D.poolSize ∣ base)
    (hne : base ≠ 0) (hnone : s.pools base = none) (hsize : 0 < (D.descrs type).size)
    (hnum : D.cellNum type < 2 ^ 31) {s' : GCState}
    (e : gcAllocPool D s type (some base) = some (base, s')) :
    ∃ m', m.gcAllocPool D type (some base) = .ok (some (base, m')) ∧ Linked m' s' ∧
      SameOutside D base m.links m'.links := by
  obtain rfl := (Prod.mk.inj (Option.some.inj e)).2
  have hpool : PoolInv D base (newPool D type base) := newPool_inv hbase hsize
  have hstate : m.state.store base (unlinkedPool (newPool D type base)) =
      unlinked (s.store base (newPool D type base)) := by
    rw [h.state]
    exact unlinked_store s base (newPool D type base)
  have hmapped : (m.state.store base (unlinkedPool (newPool D type base))).pools base ≠ none := by
    rw [show (m.state.store base _).pools base = some _ from if_pos rfl]
    exact Option.some_ne_none _
  have hlive := linksLive hpool hmapped
  have hcells : (newPool D type base).freeCells =
      cellsFrom (newPool D type base).begin (D.descrs type).size (D.cellNum type) := rfl
  have hinside : ∀ a ∈ (newPool D type base).freeCells, gcObjGetPool D a = base := by
    intro a ha
    obtain ⟨id, hid, rfl, -⟩ := (hpool.mem_free a).mp ha
    exact hpool.getPool_cellAddr hid
  obtain ⟨links', elinks, hhead, hframe, hchain⟩ := linkCells_spec (D.cellNum type)
    m.links hlive.free (fun c hc => by
      obtain ⟨id, hid, rfl, -⟩ := (hpool.mem_free c).mp (hcells ▸ hc)
      exact hlive.cell id hid) (header_lt_cell hpool 0 |>.trans_le (by
        rw [cellAddr, Nat.zero_mul, Nat.add_zero])) hsize
  have hnode := hlive.node hne
  have hnum' : (BitVec.ofNat 32 (D.cellNum type)).toNat = D.cellNum type := by
    rw [BitVec.toNat_ofNat]
    exact Nat.mod_eq_of_lt (by omega)
  have hout : SameOutside D base m.links links' := by
    intro a ha
    refine hframe a ?_ fun hac => ha (hinside a (hcells ▸ hac))
    rintro rfl
    exact ha (getPool_freeCellsAt hbase)
  have hnot : ∀ hd, base ∉ poolList s.stubs hd := by
    intro hd hb
    obtain ⟨-, p, hp⟩ := mem_poolList hi hb
    exact absurd (hp.symm.trans hnone) (Option.some_ne_none _)
  have hlists := (isSLists_outside h hi hnot hout hhead).push hne hnot (.usablePools type)
  have hout' := sameOutside_pushed hbase hout (.usablePools type)
  refine ⟨⟨m.state.store base (unlinkedPool (newPool D type base)), _⟩, ?_,
    linked_of_pool h hi hstate (fun b hb => if_neg hb) hout' ?_ (fun p hp => ?_), hout'⟩
  · rw [GCMemory.gcAllocPool]
    simp only [if_neg hne, hnum']
    exact Outcome.bind_eq_ok.mpr ⟨links', elinks,
      Outcome.bind_eq_ok.mpr ⟨_, slistPush_ok (access_var _ _) hnode, rfl⟩⟩
  · exact (poolList_push_usable s.stubs type base) ▸ hlists
  · obtain rfl := Option.some.inj ((if_pos rfl).symm.trans hp)
    exact chain_pushed (.usablePools type) (header_notMem_free hpool).1 (hcells ▸ hchain)

/-! ## A free cell -/

/-- INTERNAL: the first pool is popped from a usable list. -/
theorem poolList_pop (stubs : MGCObjType → MGCPoolStub) (t : MGCObjType) (rest : List Addr) :
    poolList (fun t' => if t' = t then ⟨rest, (stubs t).fullPools⟩ else stubs t') =
      Function.update (poolList stubs) (.usablePools t) rest := by
  rw [poolList_replace]
  exact Function.update_eq_self_iff.mpr rfl

/-- INTERNAL: a pool that is to come is on no list. -/
theorem notMem_poolList {stubs : MGCObjType → MGCPoolStub} {pools : Addr → Option MGCCellPool}
    (h : PoolLists pools stubs todo) (hb : b ∈ todo) (hd : PoolHead) : b ∉ poolList stubs hd := by
  obtain ⟨t, full, e⟩ := poolList_eq stubs hd
  rw [e]
  exact fun hmem => ((h.mem t full b).mp hmem).1 hb

/-- INTERNAL: a free cell is taken from the first usable pool, list by list.
SOURCE: m_gc_obj.c:615-623 -/
theorem popCell_ok {cell : Addr} {free rest : List Addr} (hpool : s.pools base = some pool)
    (hu : (s.stubs type).usablePools = base :: rest) (hfree : pool.freeCells = cell :: free) :
    gcPopCell s type base = .ok (cell, { s with
      pools := fun b => if b = base then some { pool with freeCells := free } else s.pools b
      stubs := fun t => if t = type then listPool free base ⟨rest, (s.stubs type).fullPools⟩
        else s.stubs t }) := by
  have hok : ∃ r, gcPopCell s type base = .ok r := by
    have hstub : (s.store base { pool with freeCells := free }).stubs = s.stubs := rfl
    rw [gcPopCell, GCState.load, hpool]
    simp only [Outcome.ok_bind, hfree, hstub, hu]
    split_ifs <;> exact ⟨_, rfl⟩
  obtain ⟨⟨c, s'⟩, e⟩ := hok
  obtain ⟨free', hfree', rfl⟩ := popCell_spec hpool hu e
  obtain ⟨rfl, rfl⟩ := List.cons.inj (hfree.symm.trans hfree')
  exact e

/-- The links after a cell was popped from the free list of the pool at `base`. -/
def cellPopped (links : MSListMem PoolHead) (base cell : Addr) : MSListMem PoolHead :=
  setField links (.addr (freeCellsAt base)) (links.next cell)

/-- The links after the pool at `base` was moved from the usable to the full list. -/
def poolMoved (links : MSListMem PoolHead) (type : MGCObjType) (base : Addr) :
    MSListMem PoolHead :=
  pushed (setField links (.var (.usablePools type)) (links.next base)) (.var (.fullPools type)) base

/-- INTERNAL: the pool lists after a cell was popped. -/
theorem isSLists_cellPopped (h : Linked m s) (hi : HeapInv D todo s)
    (hpool : s.pools base = some pool) (cell : Addr) :
    IsSLists (cellPopped m.links base cell) (poolList s.stubs) := by
  refine h.pools.congr rfl fun hd b hb => Function.update_of_ne (fun e => ?_) _ _
  obtain ⟨-, p, hp⟩ := mem_poolList hi hb
  have hbase := getPool_base (hi.pool hp).aligned
  rw [e, getPool_freeCellsAt (hi.pool hpool).aligned] at hbase
  exact freeCellsAt_ne base hbase.symm

/-- INTERNAL: **the first free cell of the first usable pool** is taken, and the pool moves to
the full list with its last one.
SOURCE: m_gc_obj.c:615-623 -/
theorem popCell_linked {cell : Addr} {free rest : List Addr} (h : Linked m s)
    (hi : HeapInv D [] s) (hpool : s.pools base = some pool)
    (hu : (s.stubs type).usablePools = base :: rest) (hfree : pool.freeCells = cell :: free) :
    ∃ m' s', m.gcPopCell D type base = .ok (cell, m') ∧ gcPopCell s type base = .ok (cell, s') ∧
      Linked m' s' ∧
      ∀ a, a ≠ base → a ≠ freeCellsAt base → m'.links.next a = m.links.next a := by
  have hp := hi.pool hpool
  have hlive := linksLive (s := m.state) hp (by
    rw [h.state, show (unlinked s).pools base = (s.pools base).map unlinkedPool from rfl, hpool]
    exact Option.some_ne_none _)
  have hchain := h.free base pool hpool
  rw [hfree] at hchain
  obtain ⟨hfirst, -, htail⟩ := hchain
  have hlist : poolList s.stubs (.usablePools type) = base :: rest := hu
  have hne : base ≠ 0 := by
    have hc := h.pools (.usablePools type)
    rw [hlist] at hc
    exact hc.2.1
  obtain ⟨id, hid, hcell, -⟩ := (hp.mem_free cell).mp (hfree ▸ List.mem_cons_self)
  have hpop : mSListPop (GCMemory.live D m.state) m.links (.addr (freeCellsAt base)) =
      .ok (cell, cellPopped m.links base cell) :=
    slistPop_ok hlive.free hfirst (hcell ▸ hlive.cell id hid)
  have hlists := isSLists_cellPopped h hi hpool cell
  -- the rest of the free list
  have hnext : (cellPopped m.links base cell).next (freeCellsAt base) = m.links.next cell :=
    Function.update_self ..
  obtain ⟨hnot, hnot'⟩ := header_notMem_free hp
  rw [hfree, List.mem_cons, not_or] at hnot hnot'
  have hrest : Chain (cellPopped m.links base cell).next 0
      ((cellPopped m.links base cell).next (freeCellsAt base)) free := by
    rw [hnext]
    exact htail.update_of_notMem hnot'.2
  have hempty : mSListEmpty (GCMemory.live D m.state) (cellPopped m.links base cell)
      (.addr (freeCellsAt base)) = .ok (decide (m.links.next cell = 0)) := by
    rw [slistEmpty_ok hlive.free, fieldOf, hnext]
  have hout : ∀ a, a ≠ freeCellsAt base →
      (cellPopped m.links base cell).next a = m.links.next a :=
    fun a ha => Function.update_of_ne ha _ _
  have houtside : SameOutside D base m.links (cellPopped m.links base cell) := by
    intro a ha
    refine hout a ?_
    rintro rfl
    exact ha (getPool_freeCellsAt hp.aligned)
  have hpools : ∀ b, b ≠ base → (if b = base then some { pool with freeCells := free }
      else s.pools b) = s.pools b := fun b hb => if_neg hb
  have hstate : ∀ stubs, m.state = unlinked { s with
      pools := fun b => if b = base then some { pool with freeCells := free } else s.pools b
      stubs := stubs } := fun stubs => h.state.trans (unlinked_lists hpool free stubs).symm
  have hcell0 : cell ≠ 0 := (hcell ▸ hlive.cell id hid).1
  rw [GCMemory.gcPopCell, hpop, Outcome.ok_bind]
  simp only [if_neg hcell0, hempty, Outcome.ok_bind]
  cases free with
  | cons c free' =>
    have hc : m.links.next cell ≠ 0 := htail.1 ▸ htail.2.1
    refine ⟨⟨m.state, cellPopped m.links base cell⟩, _, ?_, popCell_ok hpool hu hfree, ?_,
      fun a _ ha => hout a ha⟩
    · rw [decide_eq_false hc]
      rfl
    · refine linked_of_pool h hi (hstate _) hpools houtside ?_ fun p hp' => ?_
      · have hsame : poolList (fun t => if t = type then
            listPool (c :: free') base ⟨rest, (s.stubs type).fullPools⟩ else s.stubs t) =
            poolList s.stubs := by
          rw [listPool, if_neg (by simp), poolList_replace, ← hu]
          exact (Function.update_eq_self_iff.mpr rfl).trans (Function.update_eq_self_iff.mpr rfl)
        exact hsame ▸ hlists
      · obtain rfl := Option.some.inj ((if_pos rfl).symm.trans hp')
        exact hrest
  | nil =>
    -- the pool is taken off the usable list and pushed on the full one
    have hzero : m.links.next cell = 0 := htail
    obtain ⟨hhead, hpopped⟩ := hlists.pop (h := .usablePools type) hlist
    have hvar : ∀ hd : PoolHead, Access (GCMemory.live D m.state) (.var hd) := access_var _
    have hpool' := slistPop_ok (hvar (.usablePools type)) hhead (hlive.node hne)
    have hnot₂ : ∀ hd, base ∉ Function.update (poolList s.stubs) (.usablePools type) rest hd := by
      rw [← poolList_pop]
      exact notMem_poolList (hi.lists.pop hu) List.mem_cons_self
    have hpush := slistPush_ok (m := setField (cellPopped m.links base cell)
      (.var (.usablePools type)) ((cellPopped m.links base cell).next base))
      (hvar (.fullPools type)) (hlive.node hne)
    refine ⟨⟨m.state, poolMoved (cellPopped m.links base cell) type base⟩, _, ?_,
      popCell_ok hpool hu hfree, ?_, ?_⟩
    · rw [decide_eq_true hzero, hpool']
      simp only [if_true, Outcome.ok_bind, if_neg hne]
      exact Outcome.bind_eq_ok.mpr ⟨_, hpush, rfl⟩
    · refine linked_of_pool h hi (hstate _) hpools
        (sameOutside_pushed hp.aligned houtside (.fullPools type)) ?_ fun p hp' => ?_
      · have hstubs : poolList (fun t => if t = type then
            listPool [] base ⟨rest, (s.stubs type).fullPools⟩ else s.stubs t) =
            Function.update (Function.update (poolList s.stubs) (.usablePools type) rest)
              (.fullPools type) (base :: (s.stubs type).fullPools) := poolList_replace ..
        exact hstubs ▸ hpopped.push hne hnot₂ (.fullPools type)
      · obtain rfl := Option.some.inj ((if_pos rfl).symm.trans hp')
        exact chain_pushed (.fullPools type) List.not_mem_nil hrest
    · intro a ha ha'
      exact (Function.update_of_ne ha _ _).trans (hout a ha')

end Ming.Analysis
