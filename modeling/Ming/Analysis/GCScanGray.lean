import Ming.Analysis.GCMarkLoop

/-!
# The search for gray cells

`gc_scan_gray` goes through types, lists, words and marks, and leaves all four loops at the first
cell that finds the stack full. It does the same as pushing the addresses of the gray cells one
after the other, in the order of types, lists and cell numbers.
-/

set_option autoImplicit false

namespace Ming.Analysis

open Ming.Foundation Ming.Model Ming.Interface

variable {D : GCConfig} {s s' : GCState} {pool : MGCCellPool} {base : Addr} {ptrs : List Addr}
variable {ids words : List ℕ} {n : ℕ} {pools : Addr → Option MGCCellPool}

/-- A pool as `gc_alloc_pool` lays it out, with marks of any colour on its cells. -/
structure PoolColoured (D : GCConfig) (base : Addr) (pool : MGCCellPool) : Prop where
  begin_eq : pool.begin = base + poolHeaderSize + D.bitmapSize pool.type
  words : pool.bitmap.length = D.bitmapWords pool.type
  padding : ∀ id, D.cellNum pool.type ≤ id → poolMark pool id = GC_MARK_UNUSED

/-- The gray cells of the listed pools, by pool and number. -/
def GrayCell (D : GCConfig) (s : GCState) (cell : Addr × ℕ) : Prop :=
  (∃ type, cell.1 ∈ listedPools s type) ∧ ∃ pool, s.pools cell.1 = some pool ∧
    cell.2 < D.cellNum pool.type ∧ poolMark pool cell.2 = GC_MARK_GRAY

/-- The call of `gc_scan_gray`: the stack is empty, a pool is on the lists of its own type, once,
no two pools share memory, and the bitmap word of a gray cell begins less than `2 ^ 32` bytes
behind the first cell. -/
structure ScanReady (D : GCConfig) (s : GCState) : Prop where
  need : s.needScanGray = true
  empty : s.grayStack = []
  mapped : ∀ type, ∀ base ∈ listedPools s type, ∃ pool, s.pools base = some pool ∧
    pool.type = type ∧ PoolColoured D base pool
  nodup : ∀ type, (listedPools s type).Nodup
  apart : ∀ type, ∀ base ∈ listedPools s type, ∀ type', ∀ base' ∈ listedPools s type',
    base = base' ∨ base + D.poolSize ≤ base' ∨ base' + D.poolSize ≤ base
  near : ∀ cell, GrayCell D s cell → ∀ pool, s.pools cell.1 = some pool → NearAt D pool cell.2

/-- The address of a cell. -/
def cellAt (D : GCConfig) (pools : Addr → Option MGCCellPool) (cell : Addr × ℕ) : Addr :=
  (pools cell.1).elim 0 fun pool => cellAddr D pool cell.2

/-- The gray cells take up memory. -/
def GrayCellsSized (D : GCConfig) (s : GCState) : Prop :=
  ∀ cell, GrayCell D s cell → ∀ pool, s.pools cell.1 = some pool → 0 < (D.descrs pool.type).size

/-- What a search for gray cells leaves behind. -/
structure GrayRescanned (D : GCConfig) (s s' : GCState) : Prop where
  colours : s'.pools = s.pools
  cells : ∃ cells : List (Addr × ℕ), cells.Nodup ∧ (∀ cell ∈ cells, GrayCell D s cell) ∧
    s'.grayStack = cells.map (cellAt D s.pools)
  room : s'.grayStack.length ≤ D.grayStackSize
  distinct : GrayCellsSized D s → s'.grayStack.Nodup
  exact : (s'.needScanGray = false ∧
      ∀ cell, GrayCell D s cell → cellAt D s.pools cell ∈ s'.grayStack) ∨
    (s'.needScanGray = true ∧ s'.grayStack.length = D.grayStackSize)

/-- INTERNAL: the address of a cell of a mapped pool. -/
theorem cellAt_of_pool {cell : Addr × ℕ} (hp : pools cell.1 = some pool) :
    cellAt D pools cell = cellAddr D pool cell.2 := by
  rw [cellAt, hp, Option.elim_some]

/-! ## Pushing several addresses -/

/-- The addresses one after the other, up to the first that finds the stack full. -/
def pushGrays (D : GCConfig) : List Addr → GCState → Bool × GCState
  | [], s => (true, s)
  | ptr :: ptrs, s =>
    if (gcPushGrayStack D s ptr).1 then pushGrays D ptrs (gcPushGrayStack D s ptr).2
    else gcPushGrayStack D s ptr

/-- INTERNAL: first some addresses, then others. -/
theorem pushGrays_append (D : GCConfig) (l r : List Addr) (s : GCState) :
    pushGrays D (l ++ r) s =
      if (pushGrays D l s).1 then pushGrays D r (pushGrays D l s).2 else pushGrays D l s := by
  induction l generalizing s with
  | nil => rfl
  | cons ptr l ih =>
    rw [List.cons_append, pushGrays, pushGrays]
    by_cases h : (gcPushGrayStack D s ptr).1 = true
    · rw [if_pos h, if_pos h]
      exact ih _
    · rw [if_neg h, if_neg h, if_neg h]

/-- INTERNAL: the stack takes what it has room for.
SOURCE: m_gc_obj.c:188-198 -/
theorem pushGrays_eq (h : s.grayStack.length ≤ D.grayStackSize) :
    pushGrays D ptrs s =
      (decide (ptrs.length ≤ D.grayStackSize - s.grayStack.length),
        { s with
          grayStack := (ptrs.take (D.grayStackSize - s.grayStack.length)).reverse ++ s.grayStack
          needScanGray := s.needScanGray ||
            decide (D.grayStackSize - s.grayStack.length < ptrs.length) }) := by
  induction ptrs generalizing s with
  | nil => simp [pushGrays]
  | cons ptr ptrs ih =>
    rw [pushGrays, gcPushGrayStack]
    by_cases hfull : s.grayStack.length = D.grayStackSize
    · rw [if_pos hfull, if_neg Bool.false_ne_true, hfull]
      simp
    · have hroom : D.grayStackSize - s.grayStack.length =
          D.grayStackSize - (s.grayStack.length + 1) + 1 := by omega
      have hnext : (ptr :: s.grayStack).length ≤ D.grayStackSize := by
        rw [List.length_cons]
        omega
      have hrest := ih (s := { s with grayStack := ptr :: s.grayStack }) hnext
      rw [if_neg hfull, if_pos rfl]
      refine hrest.trans ?_
      rw [hroom]
      simp

/-- INTERNAL: neither pools nor lists change. -/
theorem pushGrays_frame (D : GCConfig) (ptrs : List Addr) (s : GCState) :
    (pushGrays D ptrs s).2.pools = s.pools ∧ (pushGrays D ptrs s).2.stubs = s.stubs := by
  induction ptrs generalizing s with
  | nil => exact ⟨rfl, rfl⟩
  | cons ptr ptrs ih =>
    have hpush : (gcPushGrayStack D s ptr).2.pools = s.pools ∧
        (gcPushGrayStack D s ptr).2.stubs = s.stubs := by
      rw [gcPushGrayStack]
      split_ifs <;> exact ⟨rfl, rfl⟩
    rw [pushGrays]
    split_ifs
    · obtain ⟨hpools, hstubs⟩ := ih (gcPushGrayStack D s ptr).2
      exact ⟨hpools.trans hpush.1, hstubs.trans hpush.2⟩
    · exact hpush

/-- INTERNAL: a loop that goes on when everything was pushed. -/
theorem pushed_bind {f : GCState → Outcome (Bool × GCState)} {g : GCState → Bool × GCState}
    (hfg : ∀ s, f s = .ok (g s)) (p : Bool × GCState) :
    (if p.1 = true then f p.2 else .ok (false, p.2)) = .ok (if p.1 = true then g p.2 else p) := by
  obtain ⟨b, s⟩ := p
  cases b with
  | true => exact hfg s
  | false => rfl

/-- INTERNAL: a loop that ends when something was not pushed. -/
theorem pushed_bind_not {f : GCState → Outcome (Bool × GCState)} {g : GCState → Bool × GCState}
    (hfg : ∀ s, f s = .ok (g s)) (p : Bool × GCState) :
    (if p.1 = false then .ok (false, p.2) else f p.2) = .ok (if p.1 = true then g p.2 else p) := by
  obtain ⟨b, s⟩ := p
  cases b with
  | true => exact hfg s
  | false => rfl

/-! ## The words of a bitmap -/

/-- The addresses that the loops compute for the gray cells among the given ones. -/
def grayAddrs (D : GCConfig) (pool : MGCCellPool) (ids : List ℕ) : List Addr :=
  (ids.filter fun id => poolMark pool id = GC_MARK_GRAY).map
    (loopAddr (D.descrs pool.type) pool.begin)

/-- INTERNAL: first some cells, then others. -/
theorem grayAddrs_append (D : GCConfig) (pool : MGCCellPool) (ids ids' : List ℕ) :
    grayAddrs D pool (ids ++ ids') = grayAddrs D pool ids ++ grayAddrs D pool ids' := by
  rw [grayAddrs, List.filter_append, List.map_append]
  rfl

/-- INTERNAL: unused cells are not gray. -/
theorem grayAddrs_unused (h : ∀ id ∈ ids, poolMark pool id = GC_MARK_UNUSED) :
    grayAddrs D pool ids = [] := by
  rw [grayAddrs, List.map_eq_nil_iff]
  refine List.filter_eq_nil_iff.mpr fun id hid => ?_
  rw [h id hid]
  decide

/-- INTERNAL: one mark.
SOURCE: m_gc_obj.c:304-308 -/
theorem pushGrays_mark (D : GCConfig) (pool : MGCCellPool) (id : ℕ) (s : GCState) :
    (if poolMark pool id = GC_MARK_GRAY then
        gcPushGrayStack D s (loopAddr (D.descrs pool.type) pool.begin id)
      else (true, s)) = pushGrays D (grayAddrs D pool [id]) s := by
  by_cases hg : poolMark pool id = GC_MARK_GRAY
  · have hone : grayAddrs D pool [id] = [loopAddr (D.descrs pool.type) pool.begin id] := by
      simp [grayAddrs, hg]
    rw [if_pos hg, hone, pushGrays]
    by_cases hp : (gcPushGrayStack D s (loopAddr (D.descrs pool.type) pool.begin id)).1 = true
    · rw [if_pos hp, pushGrays, ← hp]
    · rw [if_neg hp]
  · have hnone : grayAddrs D pool [id] = [] := by
      rw [grayAddrs, List.filter_singleton, decide_eq_false hg]
      rfl
    rw [if_neg hg, hnone, pushGrays]

/-- INTERNAL: the marks left in a word, from its mark `j` on. The cells behind the last mark that
is not zero are not visited, and none of them is gray.
SOURCE: m_gc_obj.c:296-316 -/
theorem scanWordGray_eq {w : BitVec 32} {k j : ℕ} (hjk : j + (k + 1) = 16)
    (hw : ∀ i, j ≤ i → i < 16 → poolMark pool (16 * n + i) = getField 2 w i) :
    gcScanWordGray D (D.descrs pool.type) (k + 1) s (w >>> (2 * j))
        (loopAddr (D.descrs pool.type) pool.begin (16 * n + j)) =
      .ok (pushGrays D (grayAddrs D pool (List.range' (16 * n + j) (k + 1))) s) := by
  induction k generalizing j s with
  | zero =>
    have hlast : w >>> (2 * j) >>> 2 = 0 := by
      rw [← BitVec.shiftRight_add]
      exact BitVec.ushiftRight_eq_zero (by omega)
    rw [gcScanWordGray, show w >>> (2 * j) &&& 3 = getField 2 w j from rfl,
      ← hw j le_rfl (by omega), pushGrays_mark, List.range'_one]
    simp only [hlast, if_true]
    refine (pushed_bind_not (g := fun s => (true, s)) (fun s => rfl) _).trans ?_
    refine congrArg Except.ok (ite_eq_right_iff.mpr fun hp => ?_)
    rw [← hp]
  | succ k ih =>
    have hnext : w >>> (2 * j) >>> 2 = w >>> (2 * (j + 1)) := by
      rw [← BitVec.shiftRight_add]
      rfl
    have haddr : loopAddr (D.descrs pool.type) pool.begin (16 * n + j) +
        (D.descrs pool.type).size =
        loopAddr (D.descrs pool.type) pool.begin (16 * n + (j + 1)) := loopAddr_succ (by omega)
    have hrest : ∀ s : GCState, (if w >>> (2 * (j + 1)) = 0 then
        (.ok (true, s) : Outcome (Bool × GCState))
        else gcScanWordGray D (D.descrs pool.type) (k + 1) s (w >>> (2 * (j + 1)))
          (loopAddr (D.descrs pool.type) pool.begin (16 * n + (j + 1)))) =
        .ok (pushGrays D (grayAddrs D pool (List.range' (16 * n + (j + 1)) (k + 1))) s) := by
      intro s
      by_cases hz : w >>> (2 * (j + 1)) = 0
      · have hunused : grayAddrs D pool (List.range' (16 * n + (j + 1)) (k + 1)) = [] := by
          refine grayAddrs_unused fun id hid => ?_
          obtain ⟨i, hi, rfl⟩ := List.mem_range'.mp hid
          rw [Nat.one_mul, Nat.add_assoc, hw _ (by omega) (by omega), ← getField_shiftRight, hz]
          exact getField_zero 2 _
        rw [if_pos hz, hunused]
        rfl
      · rw [if_neg hz]
        exact ih (by omega) fun i hji hi => hw i (by omega) hi
    rw [gcScanWordGray, show w >>> (2 * j) &&& 3 = getField 2 w j from rfl,
      ← hw j le_rfl (by omega), pushGrays_mark, hnext, haddr, List.range'_succ,
      show 16 * n + j + 1 = 16 * n + (j + 1) from rfl]
    refine (pushed_bind_not hrest _).trans (congrArg Except.ok ?_)
    rw [← pushGrays_append, ← grayAddrs_append, List.singleton_append]

/-- INTERNAL: the words of a bitmap, also those that are skipped.
SOURCE: m_gc_obj.c:295-321 -/
theorem scanWordsGray_eq (hwords : ∀ n ∈ words, n < pool.bitmap.length) :
    gcScanWordsGray D (D.descrs pool.type) pool words s =
      .ok (pushGrays D (grayAddrs D pool (words.flatMap fun n => List.range' (16 * n) 16)) s) := by
  induction words generalizing s with
  | nil => rfl
  | cons n words ih =>
    have hn := hwords n List.mem_cons_self
    have hrest := fun s : GCState => ih (s := s) fun m hm => hwords m (List.mem_cons_of_mem _ hm)
    have hmarks : ∀ i, 0 ≤ i → i < 16 →
        poolMark pool (16 * n + i) = getField 2 pool.bitmap[n] i := fun i _ hi =>
      poolMark_word hn hi
    rw [gcScanWordsGray, List.getElem?_eq_getElem hn, List.flatMap_cons, grayAddrs_append,
      pushGrays_append]
    by_cases hz : pool.bitmap[n] = 0
    · have hunused : grayAddrs D pool (List.range' (16 * n) 16) = [] := by
        refine grayAddrs_unused fun id hid => ?_
        obtain ⟨i, hi, rfl⟩ := List.mem_range'.mp hid
        rw [Nat.one_mul, hmarks i (Nat.zero_le _) hi, hz]
        exact getField_zero 2 _
      rw [hunused]
      simp only [hz, ne_eq, not_true, if_false]
      exact hrest s
    · have hword : gcScanWordGray D (D.descrs pool.type) 16 s pool.bitmap[n]
          (wordAddr (D.descrs pool.type) pool.begin n) =
            .ok (pushGrays D (grayAddrs D pool (List.range' (16 * n) 16)) s) := by
        have h := scanWordGray_eq (D := D) (s := s) (k := 15) (j := 0) (by decide) hmarks
        simpa [loopAddr_first] using h
      simp only [ne_eq, hz, not_false_iff, if_true]
      rw [hword, Outcome.ok_bind]
      exact pushed_bind hrest _

/-- INTERNAL: the cells of the words are those of the bitmap. -/
theorem flatMap_words (m : ℕ) :
    (List.range m).flatMap (fun n => List.range' (16 * n) 16) = List.range (16 * m) := by
  induction m with
  | zero => rfl
  | succ m ih =>
    rw [List.range_succ, List.flatMap_append, ih, List.flatMap_singleton, range_word]

/-! ## Pools, lists and types -/

/-- The gray cells of a pool. -/
def grayCellsIn (D : GCConfig) (pools : Addr → Option MGCCellPool) (base : Addr) :
    List (Addr × ℕ) :=
  (pools base).elim [] fun pool =>
    ((List.range (16 * D.bitmapWords pool.type)).filter fun id =>
      poolMark pool id = GC_MARK_GRAY).map fun id => (base, id)

/-- The gray cells of several pools. -/
def grayCells (D : GCConfig) (pools : Addr → Option MGCCellPool) (bases : List Addr) :
    List (Addr × ℕ) :=
  bases.flatMap (grayCellsIn D pools)

/-- A pool is mapped, with a bitmap of the size of its type and gray cells that are near. -/
def Scannable (D : GCConfig) (pools : Addr → Option MGCCellPool) (base : Addr) : Prop :=
  ∃ pool, pools base = some pool ∧ pool.bitmap.length = D.bitmapWords pool.type ∧
    ∀ id, poolMark pool id = GC_MARK_GRAY → NearAt D pool id

/-- INTERNAL: one pool.
SOURCE: m_gc_obj.c:280-324 -/
theorem scanPoolGray_eq (h : Scannable D s.pools base) : gcScanPoolGray D s base =
    .ok (pushGrays D ((grayCellsIn D s.pools base).map (cellAt D s.pools)) s) := by
  obtain ⟨pool, hpool, hlen, hnear⟩ := h
  have hload : s.load base = .ok pool := by
    rw [GCState.load, hpool]
  have haddrs : (grayCellsIn D s.pools base).map (cellAt D s.pools) =
      grayAddrs D pool (List.range (16 * D.bitmapWords pool.type)) := by
    rw [grayCellsIn, hpool, Option.elim_some, List.map_map, grayAddrs]
    refine List.map_congr_left fun id hid => (cellAt_of_pool hpool).trans ?_
    rw [loopAddr_near (hnear id (by simpa using (List.mem_filter.mp hid).2))]
    rfl
  rw [gcScanPoolGray, hload, Outcome.ok_bind, haddrs, ← flatMap_words]
  apply scanWordsGray_eq
  intro n hn
  rw [hlen]
  exact List.mem_range.mp hn

/-- INTERNAL: the pools of a list. The state changes along the list, the pools do not.
SOURCE: m_gc_obj.c:338-347 -/
theorem scanPoolsGray_eq {bases : List Addr} (hp : s.pools = pools)
    (h : ∀ base ∈ bases, Scannable D pools base) : gcScanPoolsGray D bases s =
      .ok (pushGrays D ((grayCells D pools bases).map (cellAt D pools)) s) := by
  induction bases generalizing s with
  | nil => rfl
  | cons base bases ih =>
    subst hp
    rw [gcScanPoolsGray, scanPoolGray_eq (h base List.mem_cons_self), Outcome.ok_bind, grayCells,
      List.flatMap_cons, List.map_append, pushGrays_append]
    have hpools := (pushGrays_frame D ((grayCellsIn D s.pools base).map (cellAt D s.pools)) s).1
    generalize pushGrays D ((grayCellsIn D s.pools base).map (cellAt D s.pools)) s = p at hpools ⊢
    obtain ⟨b, s₁⟩ := p
    cases b with
    | false => rfl
    | true => exact ih hpools fun c hc => h c (List.mem_cons_of_mem _ hc)

/-- INTERNAL: first some pools, then others. -/
theorem grayCells_append (D : GCConfig) (pools : Addr → Option MGCCellPool)
    (bases bases' : List Addr) :
    grayCells D pools (bases ++ bases') = grayCells D pools bases ++ grayCells D pools bases' :=
  List.flatMap_append

/-- INTERNAL: the types. Pools and lists do not change.
SOURCE: m_gc_obj.c:335-348 -/
theorem scanTypesGray_eq {types : List MGCObjType} {stubs : MGCObjType → MGCPoolStub}
    (hp : s.pools = pools) (hs : s.stubs = stubs)
    (h : ∀ type ∈ types, ∀ base ∈ (stubs type).fullPools ++ (stubs type).usablePools,
      Scannable D pools base) :
    gcScanTypesGray D types s = .ok (pushGrays D ((grayCells D pools (types.flatMap fun type =>
      (stubs type).fullPools ++ (stubs type).usablePools)).map (cellAt D pools)) s) := by
  induction types generalizing s with
  | nil => rfl
  | cons type types ih =>
    have hlisted := h type List.mem_cons_self
    rw [gcScanTypesGray, hs, scanPoolsGray_eq hp fun base hb =>
      hlisted base (List.mem_append_left _ hb), Outcome.ok_bind, List.flatMap_cons,
      List.append_assoc, grayCells_append, List.map_append, pushGrays_append]
    have hframe := pushGrays_frame D
      ((grayCells D pools (stubs type).fullPools).map (cellAt D pools)) s
    generalize pushGrays D
      ((grayCells D pools (stubs type).fullPools).map (cellAt D pools)) s = p at hframe ⊢
    obtain ⟨b, s₁⟩ := p
    rw [hp, hs] at hframe
    cases b with
    | false => rfl
    | true =>
      simp only [Bool.true_eq_false, if_false, if_true]
      rw [hframe.2, scanPoolsGray_eq hframe.1 fun base hb =>
        hlisted base (List.mem_append_right _ hb), Outcome.ok_bind, grayCells_append,
        List.map_append, pushGrays_append]
      have hframe' := pushGrays_frame D
        ((grayCells D pools (stubs type).usablePools).map (cellAt D pools)) s₁
      generalize pushGrays D
        ((grayCells D pools (stubs type).usablePools).map (cellAt D pools)) s₁ = q at hframe' ⊢
      obtain ⟨c, s₂⟩ := q
      rw [hframe.1, hframe.2] at hframe'
      cases c with
      | false => rfl
      | true => exact ih hframe'.1 hframe'.2 fun t ht => h t (List.mem_cons_of_mem _ ht)

/-! ## The gray cells of the listed pools -/

/-- INTERNAL: the gray cells of several pools, one by one. -/
theorem mem_grayCells {bases : List Addr} {cell : Addr × ℕ} : cell ∈ grayCells D pools bases ↔
    cell.1 ∈ bases ∧ ∃ pool, pools cell.1 = some pool ∧
      cell.2 < 16 * D.bitmapWords pool.type ∧ poolMark pool cell.2 = GC_MARK_GRAY := by
  have hmem : ∀ base, cell ∈ grayCellsIn D pools base ↔ cell.1 = base ∧ ∃ pool,
      pools base = some pool ∧ cell.2 < 16 * D.bitmapWords pool.type ∧
        poolMark pool cell.2 = GC_MARK_GRAY := by
    intro base
    rw [grayCellsIn]
    cases pools base with
    | none => simp
    | some pool =>
      simp only [Option.elim_some, List.mem_map, List.mem_filter, List.mem_range,
        decide_eq_true_eq, Option.some.injEq, exists_eq_left', Prod.ext_iff]
      constructor
      · rintro ⟨id, hid, hbase, rfl⟩
        exact ⟨hbase.symm, hid⟩
      · rintro ⟨hbase, hid⟩
        exact ⟨cell.2, hid, hbase.symm, rfl⟩
  simp only [grayCells, List.mem_flatMap, hmem]
  constructor
  · rintro ⟨base, hb, rfl, hpool⟩
    exact ⟨hb, hpool⟩
  · rintro ⟨hb, hpool⟩
    exact ⟨cell.1, hb, rfl, hpool⟩

/-- INTERNAL: different pools have different cells. -/
theorem nodup_grayCells {bases : List Addr} (h : bases.Nodup) :
    (grayCells D pools bases).Nodup := by
  have hfst : ∀ base, ∀ cell ∈ grayCellsIn D pools base, cell.1 = base := by
    intro base cell hcell
    have hsingle : cell ∈ grayCells D pools [base] := by
      rw [grayCells, List.flatMap_singleton]
      exact hcell
    exact List.mem_singleton.mp (mem_grayCells.mp hsingle).1
  refine List.nodup_flatMap.mpr ⟨fun base _ => ?_, h.imp fun hne cell hc hc' => ?_⟩
  · rw [grayCellsIn]
    cases pools base with
    | none => exact List.nodup_nil
    | some pool => exact (List.nodup_range.filter _).map fun _ _ e => (Prod.mk.inj e).2
  · exact hne ((hfst _ cell hc).symm.trans (hfst _ cell hc'))

namespace ScanReady

/-- INTERNAL: the pools are scanned once. -/
theorem nodup_pools (h : ScanReady D s) : (gcObjTypes.flatMap (listedPools s)).Nodup := by
  refine List.nodup_flatMap.mpr ⟨fun type _ => h.nodup type, ?_⟩
  have htypes : gcObjTypes.Nodup := by decide
  refine htypes.imp fun {t t'} hne base hb hb' => hne ?_
  obtain ⟨pool, hpool, ht, -⟩ := h.mapped t base hb
  obtain ⟨pool', hpool', ht', -⟩ := h.mapped t' base hb'
  rw [← ht, ← ht', Option.some.inj (hpool.symm.trans hpool')]

/-- INTERNAL: the cells are scanned once. -/
theorem nodup_cells (h : ScanReady D s) :
    (grayCells D s.pools (gcObjTypes.flatMap (listedPools s))).Nodup :=
  nodup_grayCells h.nodup_pools

/-- INTERNAL: a gray mark in a listed pool is the mark of a cell. -/
theorem grayCell (h : ScanReady D s) {type : MGCObjType} {id : ℕ} (hb : base ∈ listedPools s type)
    (hp : s.pools base = some pool) (hg : poolMark pool id = GC_MARK_GRAY) :
    GrayCell D s (base, id) := by
  refine ⟨⟨type, hb⟩, pool, hp, ?_, hg⟩
  obtain ⟨pool', hpool', -, hcol⟩ := h.mapped type base hb
  obtain rfl := Option.some.inj (hp.symm.trans hpool')
  by_contra hid
  rw [hcol.padding _ (Nat.le_of_not_lt hid)] at hg
  exact absurd hg (by decide)

/-- INTERNAL: the gray cells are those that are scanned. -/
theorem mem_cells (h : ScanReady D s) {cell : Addr × ℕ} :
    cell ∈ grayCells D s.pools (gcObjTypes.flatMap (listedPools s)) ↔ GrayCell D s cell := by
  have htypes : ∀ type, type ∈ gcObjTypes := by
    intro type
    cases type <;> decide
  rw [mem_grayCells, GrayCell]
  constructor
  · rintro ⟨hb, pool, hpool, -, hg⟩
    obtain ⟨type, -, hb⟩ := List.mem_flatMap.mp hb
    exact h.grayCell hb hpool hg
  · rintro ⟨⟨type, hb⟩, pool, hpool, hid, hg⟩
    have hwords := cellNum_le D pool.type
    exact ⟨List.mem_flatMap.mpr ⟨type, htypes type, hb⟩, pool, hpool, by omega, hg⟩

/-- INTERNAL: gray cells that take up memory have different addresses. -/
theorem cellAt_inj (h : ScanReady D s) (hsize : GrayCellsSized D s) {cell cell' : Addr × ℕ}
    (hc : GrayCell D s cell) (hc' : GrayCell D s cell')
    (heq : cellAt D s.pools cell = cellAt D s.pools cell') : cell = cell' := by
  have hpool : ∀ cell, GrayCell D s cell → ∃ pool, s.pools cell.1 = some pool ∧
      cellAt D s.pools cell = cellAddr D pool cell.2 ∧
      cell.1 ≤ cellAt D s.pools cell ∧ cellAt D s.pools cell < cell.1 + D.poolSize := by
    intro cell hgray
    have hcell := hgray
    obtain ⟨⟨type, hb⟩, pool, hpool, hid, -⟩ := hcell
    obtain ⟨pool', hpool', -, hcol⟩ := h.mapped type _ hb
    obtain rfl := Option.some.inj (hpool.symm.trans hpool')
    have haddr : cellAt D s.pools cell = cellAddr D pool cell.2 := cellAt_of_pool hpool
    refine ⟨pool, hpool, haddr, ?_⟩
    rw [haddr]
    exact cellAddr_bounds hcol.begin_eq (hsize cell hgray pool hpool) hid
  obtain ⟨pool, hp, haddr, hlow, hhigh⟩ := hpool cell hc
  obtain ⟨pool', hp', haddr', hlow', hhigh'⟩ := hpool cell' hc'
  obtain ⟨type, hb⟩ := hc.1
  obtain ⟨type', hb'⟩ := hc'.1
  -- an address in two pools would be in memory that they share
  have hfst : cell.1 = cell'.1 := by
    rcases h.apart type _ hb type' _ hb' with hsame | hbefore | hbehind
    · exact hsame
    · rw [heq] at hhigh
      exact absurd hlow' (Nat.not_le.mpr (hhigh.trans_le hbefore))
    · rw [heq] at hlow
      exact absurd hlow (Nat.not_le.mpr (hhigh'.trans_le hbehind))
  rw [← hfst] at hp'
  obtain rfl := Option.some.inj (hp.symm.trans hp')
  rw [haddr, haddr'] at heq
  exact Prod.ext hfst (cellAddr_inj_of_size (hsize cell hc pool hp) heq)

/-- INTERNAL: `gc_scan_gray` pushes the gray cells that the stack has room for.
SOURCE: m_gc_obj.c:326-349 -/
theorem scanGray_eq (h : ScanReady D s) : gcScanGray D s = .ok { s with
    grayStack := (((grayCells D s.pools (gcObjTypes.flatMap (listedPools s))).take
      D.grayStackSize).reverse).map (cellAt D s.pools)
    needScanGray := decide (D.grayStackSize <
      (grayCells D s.pools (gcObjTypes.flatMap (listedPools s))).length) } := by
  have hscan : ∀ type ∈ gcObjTypes, ∀ base ∈ listedPools s type, Scannable D s.pools base := by
    intro type _ base hb
    obtain ⟨pool, hpool, -, hcol⟩ := h.mapped type base hb
    exact ⟨pool, hpool, hcol.words, fun id hg => h.near _ (h.grayCell hb hpool hg) pool hpool⟩
  have htypes : gcScanTypesGray D gcObjTypes { s with needScanGray := false } =
      .ok (pushGrays D ((grayCells D s.pools (gcObjTypes.flatMap (listedPools s))).map
        (cellAt D s.pools)) { s with needScanGray := false }) := scanTypesGray_eq rfl rfl hscan
  have hroom : s.grayStack.length ≤ D.grayStackSize := by
    rw [h.empty]
    exact Nat.zero_le _
  have hneed : ¬ s.needScanGray = false := by
    rw [h.need]
    decide
  rw [gcScanGray, if_neg hneed, htypes, Outcome.ok_bind,
    pushGrays_eq (s := { s with needScanGray := false }) hroom]
  simp [h.empty, List.map_take]

end ScanReady

/-! ## The search -/

/-- INTERNAL: what the search leaves behind, from the cells that it pushed. -/
theorem scanGray_spec (h : ScanReady D s) :
    ∃ s', gcScanGray D s = .ok s' ∧ GrayRescanned D s s' := by
  have hnd := h.nodup_cells
  have hmem : ∀ cell, cell ∈ grayCells D s.pools (gcObjTypes.flatMap (listedPools s)) ↔
      GrayCell D s cell := fun cell => h.mem_cells
  refine ⟨_, h.scanGray_eq, ?_⟩
  generalize grayCells D s.pools (gcObjTypes.flatMap (listedPools s)) = cells at hnd hmem ⊢
  have hpushed : ((cells.take D.grayStackSize).reverse).Nodup :=
    List.nodup_reverse.mpr (hnd.sublist (List.take_sublist _ _))
  have hgray : ∀ cell ∈ (cells.take D.grayStackSize).reverse, GrayCell D s cell :=
    fun cell hcell => (hmem cell).mp (List.mem_of_mem_take (List.mem_reverse.mp hcell))
  constructor
  · rfl
  · exact ⟨_, hpushed, hgray, rfl⟩
  · simp only [List.length_map, List.length_reverse, List.length_take]
    exact Nat.min_le_left _ _
  · intro hsize
    apply hpushed.map_on
    intro cell hcell cell' hcell'
    exact h.cellAt_inj hsize (hgray cell hcell) (hgray cell' hcell')
  · by_cases hlen : D.grayStackSize < cells.length
    · refine Or.inr ⟨decide_eq_true hlen, ?_⟩
      simp only [List.length_map, List.length_reverse, List.length_take]
      exact Nat.min_eq_left hlen.le
    · refine Or.inl ⟨decide_eq_false hlen, fun cell hcell => ?_⟩
      apply List.mem_map_of_mem
      rw [List.mem_reverse, List.take_of_length_le (Nat.le_of_not_lt hlen)]
      exact (hmem cell).mpr hcell

/-- INTERNAL: in a heap between two operations every pool is on a list of its type. -/
theorem mem_listedPools (h : HeapInv D [] s) {type : MGCObjType} {base : Addr} :
    base ∈ listedPools s type ↔ ∃ pool, s.pools base = some pool ∧ pool.type = type := by
  rw [listedPools, h.lists.mem_type]
  simp

/-- INTERNAL: two pools at multiples of the pool size share no memory. -/
theorem apart_of_aligned {base base' : ℕ} (h : D.poolSize ∣ base) (h' : D.poolSize ∣ base') :
    base = base' ∨ base + D.poolSize ≤ base' ∨ base' + D.poolSize ≤ base := by
  have hend : D.poolSize ∣ base + D.poolSize := Nat.dvd_add h (Nat.dvd_refl _)
  have hend' : D.poolSize ∣ base' + D.poolSize := Nat.dvd_add h' (Nat.dvd_refl _)
  rcases Nat.lt_trichotomy base base' with hlt | heq | hgt
  · exact Or.inr (Or.inl (Nat.le_of_lt_add_of_dvd (by omega) hend h'))
  · exact Or.inl heq
  · exact Or.inr (Or.inr (Nat.le_of_lt_add_of_dvd (by omega) hend' h))

/-- INTERNAL: a heap between two operations is ready for the search. -/
theorem scanReady_of_heapInv (h : HeapInv D [] s) (hn : HeapNear D s)
    (hneed : s.needScanGray = true) (hempty : s.grayStack = []) : ScanReady D s := by
  refine ⟨hneed, hempty, ?_, h.lists.nodup, ?_, ?_⟩
  · intro type base hb
    obtain ⟨pool, hp, ht⟩ := (mem_listedPools h).mp hb
    have hinv := h.pool hp
    exact ⟨pool, hp, ht, hinv.begin_eq, hinv.words, hinv.padding⟩
  · intro type base hb type' base' hb'
    obtain ⟨pool, hp, -⟩ := (mem_listedPools h).mp hb
    obtain ⟨pool', hp', -⟩ := (mem_listedPools h).mp hb'
    exact apart_of_aligned (h.pool hp).aligned (h.pool hp').aligned
  · rintro ⟨base, id⟩ ⟨-, pool, hp, -, hg⟩ pool' hp'
    obtain rfl := Option.some.inj (hp.symm.trans hp')
    refine hn base pool id hp ?_
    rw [hg]
    decide

/-- INTERNAL: in a heap between two operations the search restores the gray stack as the marking
leaves it.
SOURCE: m_gc_obj.c:326-376 -/
theorem grayStackOk_of_scanGray (h : HeapInv D [] s) (hn : HeapNear D s)
    (hneed : s.needScanGray = true) (hempty : s.grayStack = []) :
    ∃ s', gcScanGray D s = .ok s' ∧ GrayStackOk D s' := by
  have hready := scanReady_of_heapInv h hn hneed hempty
  obtain ⟨s', e, hs⟩ := scanGray_spec hready
  refine ⟨s', e, ?_, ?_, ?_, ?_, ?_⟩
  · exact hs.distinct fun cell _ pool hp => (h.pool hp).size_pos
  · exact hs.room
  · intro ptr hptr
    obtain ⟨cells, -, hgray, hstack⟩ := hs.cells
    rw [hstack] at hptr
    obtain ⟨cell, hc, rfl⟩ := List.mem_map.mp hptr
    obtain ⟨-, pool, hp, -, hg⟩ := hgray cell hc
    exact ⟨cell.1, pool, cell.2, (congrFun hs.colours _).trans hp, cellAt_of_pool hp, hg⟩
  · intro hdone base pool id hp hg
    rw [hs.colours] at hp
    have haddr : cellAt D s.pools (base, id) = cellAddr D pool id := cellAt_of_pool hp
    rw [← haddr]
    rcases hs.exact with hex | hfull
    · exact hex.2 _ (hready.grayCell ((mem_listedPools h).mpr ⟨pool, hp, rfl⟩) hp hg)
    · rw [hfull.1] at hdone
      cases hdone
  · intro hnil hagain hnone
    rcases hs.exact with hex | hfull
    · rw [hex.1] at hagain
      cases hagain
    · have hpos := D.grayStackSize_pos
      rw [hnil] at hfull
      exact absurd hfull.2 hpos.ne

/-! ## Two gray cells -/

/-- A pool with two gray cells. -/
def twoGrayPool (type : MGCObjType) : MGCCellPool :=
  setPoolMark (setPoolMark (newPool defaultConfig type 4096) 0 GC_MARK_GRAY) 1 GC_MARK_GRAY

/-- A heap with that pool, after the gray stack has overflowed. -/
def twoGrayHeap (type : MGCObjType) : GCState :=
  { gcObjStartup with
    pools := fun base => if base = 4096 then some (twoGrayPool type) else none
    stubs := fun t => if t = type then ⟨[], [4096]⟩ else ⟨[], []⟩
    needScanGray := true
    status := .markObj }

/-- INTERNAL: the marks of the pool. -/
theorem twoGrayPool_mark {type : MGCObjType} (h : 1 < defaultConfig.cellNum type) (id : ℕ) :
    poolMark (twoGrayPool type) id =
      if id = 1 then GC_MARK_GRAY else if id = 0 then GC_MARK_GRAY else GC_MARK_UNUSED := by
  have hwords := cellNum_le defaultConfig type
  have hlen : (newPool defaultConfig type 4096).bitmap.length = defaultConfig.bitmapWords type :=
    List.length_replicate
  rw [twoGrayPool, poolMark_set rfl (by rw [setPoolMark_words, hlen]; omega),
    poolMark_set rfl (by rw [hlen]; omega), newPool_mark]

/-- INTERNAL: no other cell is gray. -/
theorem twoGrayHeap_only {type : MGCObjType} (h : 1 < defaultConfig.cellNum type)
    {cell : Addr × ℕ} (hc : GrayCell defaultConfig (twoGrayHeap type) cell) :
    cell ∈ [(4096, 0), (4096, 1)] := by
  obtain ⟨-, pool, hp, -, hg⟩ := hc
  have hbase : cell.1 = 4096 := by
    by_contra hne
    have hnone := (if_neg hne).symm.trans hp
    cases hnone
  have hpool : twoGrayPool type = pool := by
    rw [hbase] at hp
    exact Option.some.inj hp
  rw [← hpool, twoGrayPool_mark h] at hg
  split_ifs at hg with h₁ h₀
  · exact List.mem_cons_of_mem _ (List.mem_singleton.mpr (Prod.ext hbase h₁))
  · exact List.mem_cons.mpr (Or.inl (Prod.ext hbase h₀))
  · exact absurd hg (by decide)

/-- INTERNAL: the heap is ready for the search. -/
theorem twoGrayHeap_ready {type : MGCObjType} (h : 1 < defaultConfig.cellNum type) :
    ScanReady defaultConfig (twoGrayHeap type) := by
  have hlists : ∀ t, listedPools (twoGrayHeap type) t = if t = type then [4096] else [] := by
    intro t
    by_cases ht : t = type
    · simp [listedPools, twoGrayHeap, ht]
    · simp [listedPools, twoGrayHeap, ht]
  refine ⟨rfl, rfl, fun t base hb => ?_, fun t => ?_, fun t base hb t' base' hb' => ?_,
    fun cell hc pool hp => ?_⟩
  · rw [hlists] at hb
    split_ifs at hb with ht
    · obtain rfl := List.mem_singleton.mp hb
      refine ⟨twoGrayPool type, rfl, ht.symm, rfl, ?_, fun id hid => ?_⟩
      · rw [twoGrayPool, setPoolMark_words, setPoolMark_words]
        exact List.length_replicate
      · have hid' : defaultConfig.cellNum type ≤ id := hid
        rw [twoGrayPool_mark h, if_neg (by omega), if_neg (by omega)]
    · exact absurd hb List.not_mem_nil
  · rw [hlists]
    split_ifs
    · exact List.nodup_singleton _
    · exact List.nodup_nil
  · rw [hlists] at hb hb'
    split_ifs at hb hb'
    · exact Or.inl ((List.mem_singleton.mp hb).trans (List.mem_singleton.mp hb').symm)
    · exact absurd hb' List.not_mem_nil
    · exact absurd hb List.not_mem_nil
    · exact absurd hb List.not_mem_nil
  · -- both cells belong to the first word
    have hid : cell.2 / 16 = 0 := by
      have hcell := twoGrayHeap_only h hc
      simp only [List.mem_cons, List.not_mem_nil, or_false] at hcell
      rcases hcell with rfl | rfl <;> rfl
    rw [NearAt, hid, Nat.zero_mul]
    decide

/-- INTERNAL: both cells are gray. -/
theorem twoGrayHeap_cell {type : MGCObjType} (h : 1 < defaultConfig.cellNum type) {id : ℕ}
    (hid : id = 0 ∨ id = 1) : GrayCell defaultConfig (twoGrayHeap type) (4096, id) := by
  have hlisted : 4096 ∈ listedPools (twoGrayHeap type) type := by
    simp [listedPools, twoGrayHeap]
  refine ⟨⟨type, hlisted⟩, twoGrayPool type, rfl, ?_, ?_⟩
  · exact Nat.lt_of_le_of_lt (by omega) h
  · rw [twoGrayPool_mark h]
    split_ifs with h₁ h₀
    · rfl
    · rfl
    · omega

/-- **The search for gray cells is exact.** For any pools on the lists of their types, any marks
that leave the gray cells near and any stack it returns, leaves the marks alone and pushes the
addresses of distinct gray cells; these are distinct addresses when the gray cells take up memory.
Either the flag is clear and every gray cell of every listed pool is on the stack, or it is set
and the stack is full.
SOURCE: m_gc_obj.c:182-198, 280-349 -/
theorem gray_rescan (h : ScanReady D s) :
    ∃ s', gcScanGray D s = .ok s' ∧ GrayRescanned D s s' :=
  scanGray_spec h

/-- Two gray objects are found again. -/
theorem gray_rescan_objects : ∃ s', gcScanGray defaultConfig (twoGrayHeap .object) = .ok s' ∧
    GrayRescanned defaultConfig (twoGrayHeap .object) s' :=
  gray_rescan (twoGrayHeap_ready (by decide +kernel))

/-- Two gray arrays have one address.
SOURCE: m_array.h:34-35 -/
theorem gray_rescan_counterexample : ¬ ∀ (D : GCConfig) (s : GCState), ScanReady D s →
    ∃ s', gcScanGray D s = .ok s' ∧ s'.grayStack.Nodup := by
  intro hall
  have hnum : 1 < defaultConfig.cellNum .array := by decide +kernel
  have hready := twoGrayHeap_ready hnum
  obtain ⟨s', e, hstack⟩ := hall defaultConfig (twoGrayHeap .array) hready
  obtain rfl := Except.ok.inj (e.symm.trans hready.scanGray_eq)
  have hnd := hready.nodup_cells
  have hmem : ∀ cell, _ ↔ GrayCell defaultConfig (twoGrayHeap .array) cell :=
    fun cell => hready.mem_cells
  generalize grayCells defaultConfig (twoGrayHeap .array).pools
    (gcObjTypes.flatMap (listedPools (twoGrayHeap .array))) = cells at hstack hnd hmem
  -- the two cells are all that is scanned, and the stack has room for them
  have hfirst : (4096, 0) ∈ cells := (hmem _).mpr (twoGrayHeap_cell hnum (Or.inl rfl))
  have hsecond : (4096, 1) ∈ cells := (hmem _).mpr (twoGrayHeap_cell hnum (Or.inr rfl))
  have hsub : cells ⊆ [(4096, 0), (4096, 1)] := fun cell hcell =>
    twoGrayHeap_only hnum ((hmem cell).mp hcell)
  have hlen : cells.length ≤ defaultConfig.grayStackSize :=
    (List.subperm_of_subset hnd hsub).length_le.trans (by decide)
  simp only [List.take_of_length_le hlen] at hstack
  have heq := List.inj_on_of_nodup_map hstack (List.mem_reverse.mpr hfirst)
    (List.mem_reverse.mpr hsecond) rfl
  exact absurd heq (by decide)

end Ming.Analysis
