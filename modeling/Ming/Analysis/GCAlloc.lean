import Ming.Analysis.GCCollect
import Ming.Model.GCOps

/-!
# Allocating a cell

An allocation takes the first usable pool of the type, or maps a new one, and hands out the
first cell of its free list. The cell was unused, becomes white, and the pool moves to the
full list with its last free cell. `TookCell` says all that an allocation does before it may
start a collection.
-/

set_option autoImplicit false

namespace Ming.Analysis

open Ming.Foundation Ming.Model Ming.Interface

variable {D : GCConfig} {s s' s₁ s₂ : GCState} {pool pool' : MGCCellPool} {id oid th : ℕ}
variable {base cell : Addr} {todo : List Addr} {type : MGCObjType} {map : Option Addr}
variable {refs : Addr → List Addr} {n : ℕ} {waiting : Bool}

/-- Where an allocation that maps a pool finds the range of `gc_mmap`: at a multiple of the size
of a pool, and no pool lies there. -/
def FreshMap (D : GCConfig) (s : GCState) (type : MGCObjType) (map : Option Addr) : Prop :=
  (s.stubs type).usablePools = [] → ∀ base, map = some base →
    D.poolSize ∣ base ∧ s.pools base = none

/-- `pool'` is `pool` with the unused cell `id` handed out. -/
structure PoolTook (D : GCConfig) (pool pool' : MGCCellPool) (id : ℕ) : Prop where
  lt : id < D.cellNum pool.type
  unused : poolMark pool id = GC_MARK_UNUSED
  begin_eq : pool'.begin = pool.begin
  type_eq : pool'.type = pool.type
  words : pool'.bitmap.length = pool.bitmap.length
  mark : ∀ i, poolMark pool' i = if i = id then GC_MARK_WHITE else poolMark pool i
  free : pool.freeCells = cellAddr D pool id :: pool'.freeCells

/-- The pool that a new cell comes from: the first usable one of its type, or a new one. -/
def PoolBefore (D : GCConfig) (s : GCState) (base : Addr) (pool : MGCCellPool) : Prop :=
  (s.pools base = some pool ∧ ∃ rest, (s.stubs pool.type).usablePools = base :: rest) ∨
    (s.pools base = none ∧ pool = newPool D pool.type base)

/-- What an allocation does before it may start a collection. -/
structure TookCell (D : GCConfig) (s : GCState) (th : ℕ) (type : MGCObjType) (cell : Addr)
    (oid : ℕ) (s' : GCState) : Prop where
  pool : ∃ base pool pool' id, PoolBefore D s base pool ∧ PoolInv D base pool ∧ pool.type = type ∧
    cell = cellAddr D pool id ∧ PoolTook D pool pool' id ∧
    s'.pools = fun b => if b = base then some pool' else s.pools b
  heap : HeapInv D [] s'
  thread : ∃ self self', s.threadList[th]? = some self ∧
    s'.threadList = s.threadList.set th self' ∧ oid = self.nbTop ∧
    (ThreadInv self → ThreadInv self' ∧
      nbWords self' = nbWords self ++ [cell ||| GC_NB_FL_NO_PTR])
  rest : s' = { s with
    pools := s'.pools, stubs := s'.stubs, threadList := s'.threadList
    allocatedSize := s.allocatedSize + (D.descrs type).size
    log := s.log ++ [.alloc cell] }

/-! ## The pool -/

/-- INTERNAL: handing out a cell keeps the invariant of its pool. -/
theorem PoolTook.inv (ht : PoolTook D pool pool' id) (h : PoolInv D base pool) :
    PoolInv D base pool' := by
  have haddr : ∀ i, cellAddr D pool' i = cellAddr D pool i := fun i => by
    rw [cellAddr, cellAddr, ht.begin_eq, ht.type_eq]
  have hnd := h.free_nodup
  rw [ht.free, List.nodup_cons] at hnd
  refine ⟨h.aligned, ht.type_eq ▸ h.size_pos, ?_, ?_, fun i hi => ?_, hnd.2, fun a => ?_⟩
  · rw [ht.begin_eq, ht.type_eq, h.begin_eq]
  · rw [ht.words, ht.type_eq, h.words]
  · have hlt := ht.lt
    rw [ht.type_eq] at hi
    rw [ht.mark, if_neg (by omega), h.padding i hi]
  · have hmem := h.mem_free a
    rw [ht.free, List.mem_cons] at hmem
    rw [ht.type_eq]
    constructor
    · intro ha
      obtain ⟨i, hi, rfl, hm⟩ := hmem.mp (Or.inr ha)
      have hne : i ≠ id := by
        rintro rfl
        exact hnd.1 ha
      exact ⟨i, hi, (haddr i).symm, by rw [ht.mark, if_neg hne, hm]⟩
    · rintro ⟨i, hi, rfl, hm⟩
      rw [ht.mark] at hm
      by_cases he : i = id
      · rw [if_pos he] at hm
        exact absurd hm (by decide)
      · rw [if_neg he] at hm
        refine (hmem.mpr ⟨i, hi, haddr i, hm⟩).resolve_left fun e => he ?_
        exact h.cellAddr_inj ((haddr i).symm.trans e)

/-- INTERNAL: one more element of a list satisfies the predicate. -/
theorem countP_insert {l : List ℕ} {p q : ℕ → Bool} {a : ℕ} (hnd : l.Nodup) (ha : a ∈ l)
    (hp : p a = false) (hq : ∀ x, q x = (decide (x = a) || p x)) :
    l.countP q = l.countP p + 1 := by
  have hperm := List.perm_cons_erase ha
  have hnot := (List.nodup_cons.mp (hperm.nodup_iff.mp hnd)).1
  have hrest : (l.erase a).countP q = (l.erase a).countP p := by
    refine List.countP_congr fun x hx => ?_
    rw [hq, decide_eq_false fun e : x = a => hnot (e ▸ hx), Bool.false_or]
  rw [hperm.countP_eq, hperm.countP_eq, List.countP_cons, List.countP_cons, hrest, hp, hq a]
  simp

/-- INTERNAL: the bytes of a pool grow by the size of the cell. -/
theorem PoolTook.bytes (ht : PoolTook D pool pool' id) :
    poolBytes D pool' = poolBytes D pool + (D.descrs pool.type).size := by
  rw [poolBytes, poolBytes, ht.type_eq, countP_insert List.nodup_range (List.mem_range.mpr ht.lt)
    (p := fun i => decide (poolMark pool i ≠ GC_MARK_UNUSED)), Nat.mul_succ]
  · simp [ht.unused]
  · intro i
    rw [ht.mark]
    by_cases hi : i = id
    · simp [hi]
    · simp [hi]

/-- INTERNAL: the cells of a new pool are not in use.
SOURCE: m_gc_obj.c:152 -/
theorem newPool_mark (D : GCConfig) (type : MGCObjType) (base : Addr) (id : ℕ) :
    poolMark (newPool D type base) id = GC_MARK_UNUSED := by
  rw [poolMark, newPool, List.getD_eq_getElem?_getD, List.getElem?_replicate]
  split_ifs <;> exact getField_zero 2 _

/-- INTERNAL: a pool as it is mapped.
SOURCE: m_gc_obj.c:134-173 -/
theorem newPool_inv (hbase : D.poolSize ∣ base) (hsize : 0 < (D.descrs type).size) :
    PoolInv D base (newPool D type base) := by
  refine ⟨hbase, hsize, rfl, List.length_replicate, fun id _ => newPool_mark D type base id, ?_,
    fun a => ?_⟩
  · refine List.Nodup.map (fun i j hij => ?_) List.nodup_range
    exact Nat.eq_of_mul_eq_mul_right hsize (Nat.add_left_cancel hij)
  · constructor
    · intro ha
      obtain ⟨i, hi, rfl⟩ := List.mem_map.mp ha
      exact ⟨i, List.mem_range.mp hi, rfl, newPool_mark D type base i⟩
    · rintro ⟨i, hi, rfl, -⟩
      exact List.mem_map.mpr ⟨i, List.mem_range.mpr hi, rfl⟩

/-- INTERNAL: a new pool holds no object. -/
theorem newPool_bytes (D : GCConfig) (type : MGCObjType) (base : Addr) :
    poolBytes D (newPool D type base) = 0 := by
  rw [poolBytes, List.countP_eq_zero.mpr, Nat.mul_zero]
  intro id _
  simp [newPool_mark]

/-- INTERNAL: the pool is mapped, or has no cell in use. -/
theorem PoolBefore.cases (h : PoolBefore D s base pool) : s.pools base = some pool ∨
    (s.pools base = none ∧ ∀ id, poolMark pool id = GC_MARK_UNUSED) := by
  rcases h with ⟨hpool, -⟩ | ⟨hnone, hnew⟩
  · exact Or.inl hpool
  · refine Or.inr ⟨hnone, fun id => ?_⟩
    rw [hnew]
    exact newPool_mark D _ base id

/-! ## Where an allocation may map and pop -/

/-- INTERNAL: a free range at a multiple of the size of a pool. -/
theorem freshMap_of_placed (h : AllocPlaced D s type map)
    (hmap : (GCOp.alloc th type map waiting).mapsFresh D s) : FreshMap D s type map := by
  rintro hu base rfl
  refine ⟨h.aligned hu base rfl, ?_⟩
  by_contra hne
  have hlt : base < base + D.poolSize := Nat.lt_add_of_pos_right (poolSize_pos D)
  rcases hmap hu base hne with hle | hle
  · exact Nat.not_le.mpr hlt hle
  · exact Nat.not_le.mpr hlt hle

/-- INTERNAL: the cell that is handed out is near. -/
theorem nearAt_of_placed (h : AllocPlaced D s pool.type map) (hbefore : PoolBefore D s base pool)
    (hinv : PoolInv D base pool) (htook : PoolTook D pool pool' id) : NearAt D pool id := by
  have hsize := hinv.size_pos
  rcases hbefore with ⟨hpool, rest, hu⟩ | ⟨-, hnew⟩
  · have hcell := h.near base rest pool _ _ hu hpool htook.free
    rwa [cellNear, cellAddr, Nat.add_sub_cancel_left, Nat.mul_div_mul_right _ _ hsize] at hcell
  · -- the free list of a new pool begins with its first cell
    have hfree := htook.free
    have hlt := htook.lt
    obtain ⟨k, hk⟩ := Nat.exists_eq_succ_of_ne_zero (Nat.ne_of_gt (Nat.zero_lt_of_lt hlt))
    have hfirst : (newPool D pool.type base).freeCells.head? = some pool.begin := by
      rw [newPool, hk, List.range_succ_eq_map, hinv.begin_eq]
      simp
    rw [← hnew, hfree, List.head?_cons, Option.some.injEq] at hfirst
    have hzero : cellAddr D pool 0 = pool.begin := by rw [cellAddr, Nat.zero_mul, Nat.add_zero]
    obtain rfl := hinv.cellAddr_inj (hfirst.trans hzero.symm)
    rw [NearAt, Nat.zero_div, Nat.zero_mul]
    decide

/-! ## The steps of an allocation -/

/-- INTERNAL: a pool that is loaded is mapped. -/
theorem load_eq_ok {pool : MGCCellPool} : s.load base = .ok pool ↔ s.pools base = some pool := by
  rw [GCState.load]
  cases s.pools base with
  | none => simp
  | some p => simp

/-- INTERNAL: the pool with a free cell.
SOURCE: m_gc_obj.c:585-593 -/
theorem usablePool_spec (h : HeapInv D [] s) (hmap : FreshMap D s type map)
    (hsize : 0 < (D.descrs type).size) (e : gcUsablePool D s type map = some (base, s₁))
    (hfree : ∀ pool, s₁.pools base = some pool → pool.freeCells ≠ []) :
    HeapInv D [] s₁ ∧ (∃ rest, (s₁.stubs type).usablePools = base :: rest) ∧
      s₁ = { s with pools := s₁.pools, stubs := s₁.stubs } ∧
      ∃ pool, PoolBefore D s base pool ∧ s₁.pools base = some pool ∧
        s₁.pools = fun b => if b = base then some pool else s.pools b := by
  rw [gcUsablePool] at e
  cases hu : (s.stubs type).usablePools with
  | cons b rest =>
    rw [hu] at e
    obtain ⟨rfl, rfl⟩ := Prod.mk.inj (Option.some.inj e)
    obtain ⟨-, pool, hpool, rfl, -⟩ :=
      (h.lists.mem type false b).mp (by rw [stubList, hu]; exact List.mem_cons_self)
    refine ⟨h, ⟨rest, hu⟩, rfl, pool, Or.inl ⟨hpool, rest, hu⟩, hpool, funext fun b' => ?_⟩
    split_ifs with he
    · rw [he, hpool]
    · rfl
  | nil =>
    rw [hu] at e
    cases map with
    | none => cases e
    | some b =>
      obtain ⟨rfl, rfl⟩ := Prod.mk.inj (Option.some.inj e)
      obtain ⟨haligned, hnone⟩ := hmap hu b rfl
      have hpool : (s.store b (newPool D type b)).pools b = some (newPool D type b) := if_pos rfl
      refine ⟨⟨fun {b' p} hp => ?_, ?_, ?_⟩, ⟨[], ?_⟩, rfl, newPool D type b,
        Or.inr ⟨hnone, rfl⟩, hpool, rfl⟩
      · by_cases he : b' = b
        · subst he
          obtain rfl := Option.some.inj (hpool.symm.trans hp)
          exact newPool_inv haligned hsize
        · exact h.pool ((if_neg he).symm.trans hp)
      · have hlists := (((PoolLists.unmapped_iff hnone).mpr h.lists).change List.mem_cons_self
          (some (newPool D type b))).push List.not_mem_nil hpool
        rw [listPool, if_neg (hfree _ hpool)] at hlists
        exact hlists
      · have hins := h.bytes.insert hnone (newPool D type b)
        rw [newPool_bytes, Nat.zero_add] at hins
        exact hins
      · exact congrArg MGCPoolStub.usablePools (if_pos rfl) |>.trans (congrArg _ hu)

/-- INTERNAL: a free cell is taken from the first usable pool, and the pool goes to the list
that fits the rest of its free cells.
SOURCE: m_gc_obj.c:615-623 -/
theorem popCell_spec {rest : List Addr} (hpool : s.pools base = some pool)
    (hu : (s.stubs type).usablePools = base :: rest) (e : gcPopCell s type base = .ok (cell, s')) :
    ∃ free, pool.freeCells = cell :: free ∧ s' = { s with
      pools := fun b => if b = base then some { pool with freeCells := free } else s.pools b
      stubs := fun t => if t = type then listPool free base ⟨rest, (s.stubs type).fullPools⟩
        else s.stubs t } := by
  rw [gcPopCell, GCState.load, hpool, Outcome.ok_bind] at e
  cases hf : pool.freeCells with
  | nil =>
    rw [hf] at e
    cases e
  | cons c free =>
    simp only [hf] at e
    have hstub : (s.store base { pool with freeCells := free }).stubs = s.stubs := rfl
    by_cases hnil : free = []
    · rw [if_pos hnil, hstub, hu] at e
      obtain ⟨rfl, rfl⟩ := Prod.mk.inj (Except.ok.inj e)
      refine ⟨free, rfl, ?_⟩
      rw [listPool, if_pos hnil]
      rfl
    · rw [if_neg hnil] at e
      obtain ⟨rfl, rfl⟩ := Prod.mk.inj (Except.ok.inj e)
      refine ⟨free, rfl, ?_⟩
      have hsame : (fun t => if t = type then listPool free base ⟨rest, (s.stubs type).fullPools⟩
          else s.stubs t) = s.stubs := by
        funext t
        split_ifs with ht
        · rw [listPool, if_neg hnil, ht, ← hu]
        · rfl
      rw [hsame]
      rfl

/-- INTERNAL: the mark of the cell that is handed out. -/
theorem poolTook_of_pop {free : List Addr} (h : PoolInv D base pool)
    (hfree : pool.freeCells = cell :: free) : ∃ id,
    cell = cellAddr D pool id ∧ id / 16 < pool.bitmap.length ∧
      gcObjGetId (D.descrs pool.type) { pool with freeCells := free } cell = .ok id ∧
      PoolTook D pool (setPoolMark { pool with freeCells := free } id GC_MARK_WHITE) id := by
  obtain ⟨id, hid, rfl, hm⟩ := (h.mem_free cell).mp (hfree ▸ List.mem_cons_self)
  have hlt : id / 16 < pool.bitmap.length := by
    have hwords := h.words
    have hle := cellNum_le D pool.type
    omega
  refine ⟨id, rfl, hlt, h.getId_cellAddr id, hid, hm, rfl, rfl, setPoolMark_words .., fun i => ?_,
    hfree⟩
  exact poolMark_set rfl hlt i

/-- INTERNAL: only a type with cells of positive size can be allocated. -/
theorem takeCell_size_pos (e : gcTakeCell D s th type base = .ok (cell, oid, s')) :
    0 < (D.descrs type).size := by
  simp only [gcTakeCell, Outcome.bind_eq_ok] at e
  obtain ⟨_, _, ⟨_, _⟩, _, _, _, pool, _, id, hid, _⟩ := e
  by_contra hzero
  unfold gcObjGetId at hid
  split_ifs at hid with h₁ h₂
  exact hzero (Nat.pos_of_ne_zero h₂)

/-- INTERNAL: only a pool with a free cell can be used. -/
theorem takeCell_free (e : gcTakeCell D s th type base = .ok (cell, oid, s'))
    (hpool : s.pools base = some pool) : pool.freeCells ≠ [] := by
  simp only [gcTakeCell, Outcome.bind_eq_ok] at e
  obtain ⟨_, _, ⟨c, s₁⟩, hpop, _⟩ := e
  intro hnil
  rw [gcPopCell, GCState.load, hpool, Outcome.ok_bind, hnil] at hpop
  cases hpop

/-- INTERNAL: the heap after a cell of the first usable pool was handed out. -/
theorem tookCell_heap {rest : List Addr} (h : HeapInv D [] s)
    (hu : (s.stubs pool.type).usablePools = base :: rest) (hpool : s.pools base = some pool)
    (htook : PoolTook D pool pool' id)
    (hpools : s'.pools = fun b => if b = base then some pool' else s.pools b)
    (hstubs : s'.stubs = fun t => if t = pool.type then
      listPool pool'.freeCells base ⟨rest, (s.stubs pool.type).fullPools⟩ else s.stubs t)
    (hsize : s'.allocatedSize = s.allocatedSize + (D.descrs pool.type).size) :
    HeapInv D [] s' := by
  refine ⟨fun {b p} hp => ?_, ?_, ?_⟩
  · have hp' := (congrFun hpools b).symm.trans hp
    by_cases hb : b = base
    · subst hb
      obtain rfl := Option.some.inj ((if_pos rfl).symm.trans hp')
      exact htook.inv (h.pool hpool)
    · exact h.pool ((if_neg hb).symm.trans hp')
  · have hlists := ((h.lists.pop hu).change List.mem_cons_self (some pool')).push
      List.not_mem_nil (if_pos rfl)
    have hboth : (fun t => if t = pool'.type then listPool pool'.freeCells base
          (if pool'.type = pool.type then ⟨rest, (s.stubs pool.type).fullPools⟩
            else s.stubs pool'.type)
        else if t = pool.type then ⟨rest, (s.stubs pool.type).fullPools⟩ else s.stubs t) =
        s'.stubs := by
      funext t
      simp only [hstubs, htook.type_eq, if_true]
      by_cases ht : t = pool.type
      · rw [if_pos ht, if_pos ht]
      · rw [if_neg ht, if_neg ht, if_neg ht]
    have hlists' := hboth ▸ hlists
    rw [← hpools] at hlists'
    exact hlists'
  · have hbytes := htook.bytes
    have hrep := h.bytes.replace hpool (m := s.allocatedSize + (D.descrs pool.type).size)
      (by rw [hbytes, Nat.add_right_comm, Nat.add_assoc])
    rw [← hpools, ← hsize] at hrep
    exact hrep

/-- INTERNAL: a cell of the first usable pool.
SOURCE: m_gc_obj.c:595-636 -/
theorem takeCell_spec {rest : List Addr} (h : HeapInv D [] s)
    (hu : (s.stubs type).usablePools = base :: rest) (hpool : s.pools base = some pool)
    (e : gcTakeCell D s th type base = .ok (cell, oid, s')) :
    ∃ pool' id, pool.type = type ∧ cell = cellAddr D pool id ∧ PoolTook D pool pool' id ∧
      (s'.pools = fun b => if b = base then some pool' else s.pools b) ∧ HeapInv D [] s' ∧
      ∃ self self', s.threadList[th]? = some self ∧
        s'.threadList = s.threadList.set th self' ∧ oid = self.nbTop ∧
        (ThreadInv self → ThreadInv self' ∧
          nbWords self' = nbWords self ++ [cell ||| GC_NB_FL_NO_PTR]) ∧
        s' = { s with
          pools := s'.pools, stubs := s'.stubs, threadList := s'.threadList
          allocatedSize := s.allocatedSize + (D.descrs type).size
          log := s.log ++ [.alloc cell] } := by
  obtain ⟨-, p, hp, rfl, -⟩ :=
    (h.lists.mem type false base).mp (by rw [stubList, hu]; exact List.mem_cons_self)
  obtain rfl := Option.some.inj (hpool.symm.trans hp)
  simp only [gcTakeCell, Outcome.bind_eq_ok] at e
  obtain ⟨self, hself, ⟨c, s₁⟩, hpop, self', hpush, pool₁, hload, id, hid, pool₂, hset, e⟩ := e
  obtain ⟨rfl, hoid, rfl⟩ : c = cell ∧ (nbReserve self).nbTop = oid ∧ _ = s' := by
    obtain ⟨h₁, h₂⟩ := Prod.mk.inj (Except.ok.inj e)
    obtain ⟨h₂, h₃⟩ := Prod.mk.inj h₂
    exact ⟨h₁, h₂, h₃⟩
  obtain ⟨free, hfree, rfl⟩ := popCell_spec hpool hu hpop
  have hself' : s.threadList[th]? = some self := by
    rw [mThreadSelf] at hself
    split at hself
    · cases hself
    · next self₁ h₁ => rw [h₁, Except.ok.inj hself]
  -- the pool that was stored is read back
  obtain rfl : { pool with freeCells := free } = pool₁ :=
    Option.some.inj ((if_pos rfl).symm.trans (load_eq_ok.mp hload))
  obtain ⟨id', rfl, hlt, hid', htook⟩ := poolTook_of_pop (h.pool hpool) hfree
  obtain rfl := Except.ok.inj (hid'.symm.trans hid)
  obtain rfl := (of_setBitmap hset).2
  have hpools : (fun b => if b = base then
        some (setPoolMark { pool with freeCells := free } id' GC_MARK_WHITE)
      else if b = base then some { pool with freeCells := free } else s.pools b) =
      fun b => if b = base then
        some (setPoolMark { pool with freeCells := free } id' GC_MARK_WHITE) else s.pools b := by
    funext b
    by_cases hb : b = base
    · rw [if_pos hb, if_pos hb]
    · rw [if_neg hb, if_neg hb, if_neg hb]
  refine ⟨_, id', rfl, rfl, htook, hpools, tookCell_heap h hu hpool htook hpools rfl rfl, self,
    self', hself', rfl, ?_, fun hinv => ?_, rfl⟩
  · rw [← hoid, nbReserve_top]
  · obtain ⟨hres, hwords⟩ := nbReserve_spec hinv
    obtain ⟨hinv', hwords'⟩ := nbPush_spec hres hpush
    exact ⟨hinv', hwords'.trans (by rw [hwords])⟩

/-! ## The allocation -/

/-- INTERNAL: the marks after an allocation are white or those before. -/
theorem TookCell.mark_cases (h : TookCell D s th type cell oid s') {b : Addr}
    {p : MGCCellPool} (hp : s'.pools b = some p) (id : ℕ) :
    poolMark p id = GC_MARK_WHITE ∨ poolMark p id = GC_MARK_UNUSED ∨
      ∃ q, s.pools b = some q ∧ poolMark p id = poolMark q id := by
  obtain ⟨base, pool, pool', i, hbefore, -, -, -, htook, hpools⟩ := h.pool
  rw [hpools] at hp
  by_cases hb : b = base
  · subst hb
    obtain rfl := Option.some.inj ((if_pos rfl).symm.trans hp)
    rw [htook.mark]
    split_ifs with hid
    · exact Or.inl rfl
    · rcases hbefore.cases with hmapped | ⟨-, hunused⟩
      · exact Or.inr (Or.inr ⟨pool, hmapped, rfl⟩)
      · exact Or.inr (Or.inl (hunused id))
  · exact Or.inr (Or.inr ⟨p, (if_neg hb).symm.trans hp, rfl⟩)

/-- INTERNAL: the cells in use stay near. -/
theorem TookCell.near (h : TookCell D s th type cell oid s') (hp : AllocPlaced D s type map)
    (hn : HeapNear D s) : HeapNear D s' := by
  obtain ⟨base, pool, pool', id, hbefore, hinv, rfl, -, htook, hpools⟩ := h.pool
  intro b p i hpool hused
  rw [hpools] at hpool
  by_cases hb : b = base
  · subst hb
    obtain rfl := Option.some.inj ((if_pos rfl).symm.trans hpool)
    rw [NearAt, htook.type_eq]
    by_cases hi : i = id
    · rw [hi]
      exact nearAt_of_placed hp hbefore hinv htook
    · rw [htook.mark, if_neg hi] at hused
      rcases hbefore.cases with hmapped | ⟨-, hunused⟩
      · exact hn b pool i hmapped hused
      · exact absurd (hunused i) hused
  · exact hn b p i ((if_neg hb).symm.trans hpool) hused

/-- INTERNAL: an allocation keeps the invariant. -/
theorem TookCell.inv (h : TookCell D s th type cell oid s') (hp : AllocPlaced D s type map)
    (hi : GCInv D s) : GCInv D s' := by
  have hrest := h.rest
  have hstatus : s'.status = s.status := by rw [hrest]
  refine ⟨h.heap, h.near hp hi.near, fun b p hp id hm => ?_, fun hst b p hp => ?_, ?_, ?_, ?_, ?_⟩
  · rcases h.mark_cases hp id with hw | hu | ⟨q, hq, hmark⟩
    · exact absurd (hm.symm.trans hw) (by decide)
    · exact absurd (hm.symm.trans hu) (by decide)
    · exact hi.noGray b q hq id (hmark.symm.trans hm)
  · rintro ⟨id, hm⟩
    rcases h.mark_cases hp id with hw | hu | ⟨q, hq, hmark⟩
    · exact absurd (hm.symm.trans hw) (by decide)
    · exact absurd (hm.symm.trans hu) (by decide)
    · exact hi.noBlack (hstatus ▸ hst) b q hq ⟨id, hmark.symm.trans hm⟩
  · rw [hrest]
    exact hi.stack
  · rw [hrest]
    exact hi.need
  · rw [hstatus]
    exact hi.status
  · obtain ⟨self, self', hself, hlist, -, hthread⟩ := h.thread
    intro t ht
    rw [hlist] at ht
    rcases List.mem_or_eq_of_mem_set ht with ht | rfl
    · exact hi.threads t ht
    · exact (hthread (hi.threads self (List.mem_of_getElem? hself))).1

/-- INTERNAL: without a pool there was neither a usable one nor memory for a new one. -/
theorem usablePool_none (e : gcUsablePool D s type map = none) :
    (s.stubs type).usablePools = [] ∧ map = none := by
  rw [gcUsablePool] at e
  cases hu : (s.stubs type).usablePools with
  | nil =>
    rw [hu] at e
    cases map with
    | none => exact ⟨rfl, rfl⟩
    | some b => cases e
  | cons b rest =>
    rw [hu] at e
    cases e

/-- INTERNAL: a cell of a pool that was usable or is new.
SOURCE: m_gc_obj.c:585-636 -/
theorem tookCell_of_usable (h : HeapInv D [] s) (hmap : FreshMap D s type map)
    (hpool : gcUsablePool D s type map = some (base, s₁))
    (htake : gcTakeCell D s₁ th type base = .ok (cell, oid, s₂)) :
    TookCell D s th type cell oid s₂ := by
  obtain ⟨hi₁, ⟨rest, hu⟩, hrest₁, pool, hbefore, hpool₁, hpools₁⟩ := usablePool_spec h hmap
    (takeCell_size_pos htake) hpool fun p hp => takeCell_free htake hp
  obtain ⟨pool', id, htype, hcell, htook, hpools₂, hi₂, self, self', hself, hlist, hoid, hthread,
    hrest₂⟩ := takeCell_spec hi₁ hu hpool₁ htake
  have hpools : s₂.pools = fun b => if b = base then some pool' else s.pools b := by
    rw [hpools₂, hpools₁]
    funext b
    by_cases hb : b = base
    · rw [if_pos hb, if_pos hb]
    · rw [if_neg hb, if_neg hb]
      exact if_neg hb
  have hthreads : s₁.threadList = s.threadList := by rw [hrest₁]
  refine ⟨⟨base, pool, pool', id, hbefore, hi₁.pool hpool₁, htype, hcell, htook, hpools⟩, hi₂,
    ⟨self, self', hthreads ▸ hself, hthreads ▸ hlist, hoid, hthread⟩, ?_⟩
  rw [hrest₁] at hrest₂
  exact hrest₂

/-- INTERNAL: what `gc_alloc_obj` does in a state of a run: nothing when no pool can be mapped;
otherwise it hands out a cell, and then collects when enough is allocated and no other thread
does.
SOURCE: m_gc_obj.c:571-645 -/
theorem allocObj_spec (h : HeapInv D [] s) (hmap : FreshMap D s type map)
    {r : Option (Addr × ℕ)} (e : gcAllocObj D refs n waiting s th type map = .ok (r, s')) :
    (r = none ∧ s' = s ∧ (s.stubs type).usablePools = [] ∧ map = none) ∨
      ∃ cell oid s₂, r = some (cell, oid) ∧ TookCell D s th type cell oid s₂ ∧
        ((collectionNeeded D s₂ ∧ waiting = false ∧
            ∃ b, gcDoCollect D refs n 0 s₂ = .ok (b, s')) ∨
          (¬ (collectionNeeded D s₂ ∧ waiting = false) ∧ s' = s₂)) := by
  rw [gcAllocObj] at e
  cases hpool : gcUsablePool D s type map with
  | none =>
    rw [hpool] at e
    obtain ⟨rfl, rfl⟩ := Prod.mk.inj (Except.ok.inj e)
    exact Or.inl ⟨rfl, rfl, usablePool_none hpool⟩
  | some bs =>
    obtain ⟨base, s₁⟩ := bs
    simp only [hpool, Outcome.bind_eq_ok] at e
    obtain ⟨⟨cell, oid, s₂⟩, htake, e⟩ := e
    have htook := tookCell_of_usable h hmap hpool htake
    refine Or.inr ⟨cell, oid, s₂, ?_⟩
    split_ifs at e with hneed
    · rw [gcCollectObjs] at e
      cases waiting with
      | true =>
        obtain ⟨rfl, rfl⟩ := Prod.mk.inj (Except.ok.inj e)
        refine ⟨rfl, htook, Or.inr ⟨fun hn => ?_, rfl⟩⟩
        cases hn.2
      | false =>
        rw [if_neg (by decide), Outcome.bind_eq_ok] at e
        obtain ⟨s₃, hcollect, e⟩ := e
        rw [Outcome.bind_eq_ok] at hcollect
        obtain ⟨⟨b, s₄⟩, hcollect, e₄⟩ := hcollect
        obtain rfl := Except.ok.inj e₄
        obtain ⟨rfl, rfl⟩ := Prod.mk.inj (Except.ok.inj e)
        exact ⟨rfl, htook, Or.inl ⟨hneed, rfl, b, hcollect⟩⟩
    · obtain ⟨rfl, rfl⟩ := Prod.mk.inj (Except.ok.inj e)
      exact ⟨rfl, htook, Or.inr ⟨fun hn => hneed hn.1, rfl⟩⟩

end Ming.Analysis
