import Mathlib.Algebra.BigOperators.Group.List.Basic
import Ming.Interface.PoolMarks

/-!
# What the cell heap represents

The invariant that ties together the pools, the pool lists of every type and the counter of
allocated bytes. A sweep takes the pools off their lists and puts them back one by one, so
the invariant has a parameter for the pools that are on no list.
-/

set_option autoImplicit false

namespace Ming.Interface

open Ming.Foundation Ming.Model

variable {D : GCConfig} {s : GCState} {pool pool' : MGCCellPool}
variable {base : Addr} {todo : List Addr}

/-- The bytes of the allocated cells of a pool. -/
def poolBytes (D : GCConfig) (pool : MGCCellPool) : ℕ :=
  (D.descrs pool.type).size *
    (List.range (D.cellNum pool.type)).countP fun id => poolMark pool id ≠ GC_MARK_UNUSED

/-- The bytes of the allocated cells of the pool at `base`. -/
def bytesAt (D : GCConfig) (pools : Addr → Option MGCCellPool) (base : Addr) : ℕ :=
  match pools base with
  | none => 0
  | some pool => poolBytes D pool

/-- The allocated cells of all mapped pools have `n` bytes. -/
def HeapBytes (D : GCConfig) (pools : Addr → Option MGCCellPool) (n : ℕ) : Prop :=
  ∃ mapped : List Addr, mapped.Nodup ∧ (∀ base, base ∈ mapped ↔ pools base ≠ none) ∧
    n = (mapped.map (bytesAt D pools)).sum

/-- The list of the pools without a free cell, or of those with one. -/
def stubList (stub : MGCPoolStub) (full : Bool) : List Addr :=
  if full then stub.fullPools else stub.usablePools

/-- Every mapped pool is on one list of its type, once: on the full list when it has no free
cell, otherwise on the usable one. The pools of `todo` are on no list. -/
structure PoolLists (pools : Addr → Option MGCCellPool) (stubs : MGCObjType → MGCPoolStub)
    (todo : List Addr) : Prop where
  nodup : ∀ t, ((stubs t).fullPools ++ (stubs t).usablePools).Nodup
  mem : ∀ t full base, base ∈ stubList (stubs t) full ↔ base ∉ todo ∧
    ∃ pool, pools base = some pool ∧ pool.type = t ∧ decide (pool.freeCells = []) = full

/-- The cell heap, with the pools of `todo` on no list. -/
structure HeapInv (D : GCConfig) (todo : List Addr) (s : GCState) : Prop where
  pool : ∀ {base pool}, s.pools base = some pool → PoolInv D base pool
  lists : PoolLists s.pools s.stubs todo
  bytes : HeapBytes D s.pools s.allocatedSize

/-! ## The bytes of the heap -/

/-- INTERNAL: the bytes of one pool, and those of the others. -/
theorem HeapBytes.erase {pools : Addr → Option MGCCellPool} {n : ℕ} (h : HeapBytes D pools n)
    (hpool : pools base = some pool) : ∃ rest, n = poolBytes D pool + rest ∧
      HeapBytes D (fun b => if b = base then none else pools b) rest := by
  obtain ⟨mapped, hnd, hmem, rfl⟩ := h
  have hbase : base ∈ mapped := (hmem base).mpr (by simp [hpool])
  have hperm := List.perm_cons_erase hbase
  obtain ⟨hnot, hnd'⟩ := List.nodup_cons.mp (hperm.nodup_iff.mp hnd)
  have hmap : (mapped.erase base).map (bytesAt D pools) =
      (mapped.erase base).map (bytesAt D fun b => if b = base then none else pools b) := by
    refine List.map_congr_left fun b hb => ?_
    rw [bytesAt, bytesAt, if_neg fun e : b = base => hnot (e ▸ hb)]
  refine ⟨_, ?_, mapped.erase base, hnd', fun b => ?_, rfl⟩
  · rw [(hperm.map _).sum_eq, List.map_cons, List.sum_cons, hmap, bytesAt, hpool]
  · have hb := (hperm.mem_iff (a := b)).symm.trans (hmem b)
    rw [List.mem_cons] at hb
    by_cases he : b = base
    · simp [he, hnot]
    · simpa [he] using hb

/-- INTERNAL: the bytes with one more pool. -/
theorem HeapBytes.insert {pools : Addr → Option MGCCellPool} {n : ℕ} (h : HeapBytes D pools n)
    (hbase : pools base = none) (pool : MGCCellPool) :
    HeapBytes D (fun b => if b = base then some pool else pools b) (poolBytes D pool + n) := by
  obtain ⟨mapped, hnd, hmem, rfl⟩ := h
  have hnot : base ∉ mapped := fun hb => (hmem base).mp hb hbase
  have hmap : mapped.map (bytesAt D pools) =
      mapped.map (bytesAt D fun b => if b = base then some pool else pools b) := by
    refine List.map_congr_left fun b hb => ?_
    rw [bytesAt, bytesAt, if_neg fun e : b = base => hnot (e ▸ hb)]
  refine ⟨base :: mapped, List.nodup_cons.mpr ⟨hnot, hnd⟩, fun b => ?_, ?_⟩
  · by_cases he : b = base
    · simp [he]
    · simpa [he] using hmem b
  · rw [List.map_cons, List.sum_cons, hmap]
    simp [bytesAt]

/-- INTERNAL: the bytes after one pool has changed. -/
theorem HeapBytes.replace {pools : Addr → Option MGCCellPool} {n m : ℕ}
    (h : HeapBytes D pools n) (hpool : pools base = some pool)
    (hm : m + poolBytes D pool = n + poolBytes D pool') :
    HeapBytes D (fun b => if b = base then some pool' else pools b) m := by
  obtain ⟨rest, rfl, hrest⟩ := h.erase hpool
  have hins := hrest.insert (if_pos rfl) pool'
  have hfun : (fun b => if b = base then some pool' else if b = base then none else pools b) =
      fun b => if b = base then some pool' else pools b := by
    funext b
    by_cases he : b = base
    · simp [he]
    · simp [he]
  rw [hfun] at hins
  rwa [show m = poolBytes D pool' + rest by omega]

/-! ## The lists of pools -/

/-- The lists of a type with a pool put back, `free` being its free list. -/
def listPool (free : List Addr) (base : Addr) (stub : MGCPoolStub) : MGCPoolStub :=
  if free = [] then { stub with fullPools := base :: stub.fullPools }
  else { stub with usablePools := base :: stub.usablePools }

namespace PoolLists

variable {pools pools' : Addr → Option MGCCellPool} {stubs : MGCObjType → MGCPoolStub}
variable {t : MGCObjType} {rest : List Addr}

/-- INTERNAL: a pool of a stub is on one of its two lists. -/
theorem mem_append (stub : MGCPoolStub) : base ∈ stub.fullPools ++ stub.usablePools ↔
    ∃ full, base ∈ stubList stub full := by
  simp [stubList, or_comm]

/-- INTERNAL: a pool that is still to come is on no list. -/
theorem notMem (h : PoolLists pools stubs todo) (hb : base ∈ todo) (t : MGCObjType) :
    base ∉ (stubs t).fullPools ++ (stubs t).usablePools := by
  rw [mem_append]
  rintro ⟨full, hf⟩
  exact ((h.mem t full base).mp hf).1 hb

/-- INTERNAL: the pools on the lists of a type. -/
theorem mem_type (h : PoolLists pools stubs todo) (t : MGCObjType) :
    base ∈ (stubs t).fullPools ++ (stubs t).usablePools ↔
      base ∉ todo ∧ ∃ pool, pools base = some pool ∧ pool.type = t := by
  rw [mem_append]
  constructor
  · rintro ⟨full, hb⟩
    obtain ⟨hnot, pool, hpool, ht, -⟩ := (h.mem t full base).mp hb
    exact ⟨hnot, pool, hpool, ht⟩
  · rintro ⟨hnot, pool, hpool, ht⟩
    exact ⟨_, (h.mem t _ base).mpr ⟨hnot, pool, hpool, ht, rfl⟩⟩

/-- INTERNAL: the lists only look at the type of a pool and whether it has a free cell. -/
theorem congr (h : PoolLists pools stubs todo) (hview : ∀ b,
    (pools' b).map (fun p => (p.type, decide (p.freeCells = []))) =
      (pools b).map fun p => (p.type, decide (p.freeCells = []))) :
    PoolLists pools' stubs todo := by
  refine ⟨h.nodup, fun t full b => (h.mem t full b).trans (and_congr_right fun _ => ?_)⟩
  have hb := hview b
  cases h₁ : pools' b with
  | none => cases h₂ : pools b with
    | none => simp
    | some p => simp [h₁, h₂] at hb
  | some p' => cases h₂ : pools b with
    | none => simp [h₁, h₂] at hb
    | some p =>
      rw [h₁, h₂, Option.map_some, Option.map_some, Option.some.injEq, Prod.mk.injEq] at hb
      simp only [Option.some.injEq, exists_eq_left', hb.1, hb.2]

/-- INTERNAL: a pool that is still to come may change. -/
theorem change (h : PoolLists pools stubs todo) (hb : base ∈ todo) (o : Option MGCCellPool) :
    PoolLists (fun b => if b = base then o else pools b) stubs todo := by
  refine ⟨h.nodup, fun t full b => (h.mem t full b).trans (and_congr_right fun hnot => ?_)⟩
  rw [if_neg fun e : b = base => hnot (e ▸ hb)]

/-- INTERNAL: whether an unmapped pool is to come does not matter. -/
theorem unmapped_iff (hb : pools base = none) :
    PoolLists pools stubs (base :: todo) ↔ PoolLists pools stubs todo := by
  have hiff : ∀ t full b, (b ∉ base :: todo ∧ ∃ pool, pools b = some pool ∧ pool.type = t ∧
      decide (pool.freeCells = []) = full) ↔ b ∉ todo ∧ ∃ pool, pools b = some pool ∧
      pool.type = t ∧ decide (pool.freeCells = []) = full := by
    intro t full b
    refine and_congr_left ?_
    rintro ⟨pool, hp, -⟩
    have hne : b ≠ base := by
      rintro rfl
      rw [hb] at hp
      exact nomatch hp
    rw [List.mem_cons, not_or]
    exact ⟨And.right, fun h => ⟨hne, h⟩⟩
  exact ⟨fun h => ⟨h.nodup, fun t full b => (h.mem t full b).trans (hiff t full b)⟩,
    fun h => ⟨h.nodup, fun t full b => (h.mem t full b).trans (hiff t full b).symm⟩⟩

/-- INTERNAL: a pool is put on the list of its type that fits its free cells. -/
theorem push (h : PoolLists pools stubs (base :: todo)) (hnot : base ∉ todo)
    (hpool : pools base = some pool) :
    PoolLists pools (fun t => if t = pool.type then listPool pool.freeCells base (stubs pool.type)
      else stubs t) todo := by
  have hout := h.notMem List.mem_cons_self
  refine ⟨fun t => ?_, fun t full b => ?_⟩
  · by_cases ht : t = pool.type
    · subst ht
      rw [if_pos rfl, listPool]
      split_ifs with hf
      · exact List.nodup_cons.mpr ⟨hout _, h.nodup _⟩
      · rw [List.perm_middle.nodup_iff]
        exact List.nodup_cons.mpr ⟨hout _, h.nodup _⟩
    · rw [if_neg ht]
      exact h.nodup t
  · have hmem : b ∈ stubList (if t = pool.type then listPool pool.freeCells base (stubs pool.type)
        else stubs t) full ↔
        (b = base ∧ pool.type = t ∧ decide (pool.freeCells = []) = full) ∨
          b ∈ stubList (stubs t) full := by
      by_cases ht : t = pool.type
      · subst ht
        rw [if_pos rfl, listPool, stubList, stubList]
        by_cases hf : pool.freeCells = [] <;> cases full <;> simp [hf]
      · rw [if_neg ht]
        simp [Ne.symm ht]
    rw [hmem, h.mem t full b, List.mem_cons, not_or]
    by_cases hb : b = base
    · subst hb
      simp [hnot, hpool]
    · simp [hb]

/-- INTERNAL: a pool of another type is another pool. -/
theorem ne_of_type (h : PoolLists pools stubs todo) {t' : MGCObjType} {full : Bool} {b : Addr}
    (hb : b ∈ stubList (stubs t') full) (hpool : pools base = some pool) (ht : t' ≠ pool.type) :
    b ≠ base := by
  rintro rfl
  obtain ⟨-, p, hp, hpt, -⟩ := (h.mem t' full b).mp hb
  obtain rfl := Option.some.inj (hpool.symm.trans hp)
  exact ht hpt.symm

/-- INTERNAL: the first usable pool is taken off its list. -/
theorem pop (h : PoolLists pools stubs todo) (hu : (stubs t).usablePools = base :: rest) :
    PoolLists pools (fun t' => if t' = t then ⟨rest, (stubs t).fullPools⟩ else stubs t')
      (base :: todo) := by
  have hnd := h.nodup t
  rw [hu, List.perm_middle.nodup_iff, List.nodup_cons, List.mem_append, not_or] at hnd
  obtain ⟨hnot, pool, hpool, rfl, hfree⟩ :=
    (h.mem t false base).mp (by rw [stubList, hu]; exact List.mem_cons_self)
  refine ⟨fun t' => ?_, fun t' full b => ?_⟩
  · by_cases ht : t' = pool.type
    · subst ht
      rw [if_pos rfl]
      exact hnd.2
    · rw [if_neg ht]
      exact h.nodup t'
  · rw [List.mem_cons, not_or, and_assoc, ← h.mem t' full b]
    by_cases ht : t' = pool.type
    · subst ht
      rw [if_pos rfl]
      cases full with
      | true => exact ⟨fun hb => ⟨fun e => hnd.1.1 (e ▸ hb), hb⟩, And.right⟩
      | false =>
        rw [stubList, stubList, hu]
        exact ⟨fun hb => ⟨fun e => hnd.1.2 (e ▸ hb), List.mem_cons_of_mem _ hb⟩,
          fun ⟨hne, hb⟩ => (List.mem_cons.mp hb).resolve_left hne⟩
    · rw [if_neg ht]
      exact ⟨fun hb => ⟨h.ne_of_type hb hpool ht, hb⟩, And.right⟩

/-- INTERNAL: all pools of a type are taken off their lists. -/
theorem takeAll (h : PoolLists pools stubs []) (t : MGCObjType) :
    PoolLists pools (fun t' => if t' = t then ⟨[], []⟩ else stubs t')
      ((stubs t).fullPools ++ (stubs t).usablePools) := by
  refine ⟨fun t' => ?_, fun t' full b => ?_⟩
  · by_cases ht : t' = t
    · rw [if_pos ht]
      exact List.nodup_nil
    · rw [if_neg ht]
      exact h.nodup t'
  · rw [h.mem_type]
    by_cases ht : t' = t
    · subst ht
      rw [if_pos rfl]
      refine ⟨fun hb => ?_, ?_⟩
      · cases full <;> exact absurd hb List.not_mem_nil
      · rintro ⟨hno, p, hp, hpt, -⟩
        exact absurd ⟨List.not_mem_nil, p, hp, hpt⟩ hno
    · rw [if_neg ht, h.mem t' full b]
      refine ⟨fun ⟨_, p, hp, hpt, hf⟩ => ⟨?_, p, hp, hpt, hf⟩,
        fun ⟨_, hb⟩ => ⟨List.not_mem_nil, hb⟩⟩
      rintro ⟨-, q, hq, hqt⟩
      obtain rfl := Option.some.inj (hp.symm.trans hq)
      exact ht (hpt.symm.trans hqt)

end PoolLists

end Ming.Interface
