import Ming.Analysis.GCSweepPool

/-!
# What the sweep does, whatever addresses it computes

A sweep ends when every pool on a list is mapped, has the type of the list, a bitmap of the
right size and no gray cell: nothing in it depends on the addresses that it pushes on the free
lists and hands to the finalizers. The addresses of the white cells of a pool are therefore a
parameter of what is said here.
-/

set_option autoImplicit false

namespace Ming.Analysis

open Ming.Foundation Ming.Model Ming.Interface

variable {D : GCConfig} {s s' s'' : GCState} {pool pool' : MGCCellPool}
variable {base : Addr} {bases bases' : List Addr} {cells : MGCCellPool → List Addr}
variable {t : MGCObjType}

/-- The addresses that the sweep of a pool computes for its white cells. -/
def loopCells (D : GCConfig) (pool : MGCCellPool) : List Addr :=
  (whiteIds pool (List.range (D.cellNum pool.type))).map
    (loopAddr (D.descrs pool.type) pool.begin)

/-- Some cell of the pool is black. -/
def HasBlack (pool : MGCCellPool) : Prop := ∃ id, poolMark pool id = GC_MARK_BLACK

/-- No cell of a mapped pool is gray. -/
def NoGray (s : GCState) : Prop :=
  ∀ base pool, s.pools base = some pool → ∀ id, poolMark pool id ≠ GC_MARK_GRAY

/-- `pool'` is `pool` with every cell swept; `cells` gives the addresses of the white ones. -/
structure PoolSweptAs (cells : MGCCellPool → List Addr) (pool pool' : MGCCellPool) : Prop where
  begin_eq : pool'.begin = pool.begin
  type_eq : pool'.type = pool.type
  words : pool'.bitmap.length = pool.bitmap.length
  mark : ∀ id, poolMark pool' id = sweptMark (poolMark pool id)
  free : pool'.freeCells = (cells pool).reverse ++ pool.freeCells

/-- The finalizers that the sweep of a pool runs. -/
def finalsAs (cells : MGCCellPool → List Addr) (s : GCState) (base : Addr) : List GCEvent :=
  match s.pools base with
  | none => []
  | some pool => (cells pool).map (.final pool.type)

/-- `s'` is `s` with the pools of `bases` swept. Pool lists and the counter of allocated bytes
are not spoken of. -/
structure PoolsSweptAs (cells : MGCCellPool → List Addr) (bases : List Addr) (s s' : GCState) :
    Prop where
  swept : ∀ base ∈ bases, ∃ pool, s.pools base = some pool ∧
    (HasBlack pool → ∃ pool', s'.pools base = some pool' ∧ PoolSweptAs cells pool pool') ∧
    (¬ HasBlack pool → s'.pools base = none)
  other : ∀ base, base ∉ bases → s'.pools base = s.pools base
  log : s'.log = s.log ++ bases.flatMap (finalsAs cells s)
  grayStack : s'.grayStack = s.grayStack
  needScanGray : s'.needScanGray = s.needScanGray
  threadList : s'.threadList = s.threadList
  rootHash : s'.rootHash = s.rootHash

/-- The pool at `base` has the type `t`, a bitmap of the right size and no gray cell. -/
def Sweepable (D : GCConfig) (s : GCState) (t : MGCObjType) (base : Addr) : Prop :=
  ∃ pool, s.pools base = some pool ∧ pool.type = t ∧ BitmapFits D pool ∧
    ∀ id, poolMark pool id ≠ GC_MARK_GRAY

/-- The pools of a type in the order in which they are scanned and swept. -/
def listedPools (s : GCState) (type : MGCObjType) : List Addr :=
  (s.stubs type).fullPools ++ (s.stubs type).usablePools

/-! ## One pool -/

/-- INTERNAL: the cells behind the last one are not white. -/
theorem whiteIds_words (h : BitmapFits D pool) :
    whiteIds pool (List.range (16 * D.bitmapWords pool.type)) =
      whiteIds pool (List.range (D.cellNum pool.type)) := by
  obtain ⟨k, hk⟩ := Nat.exists_eq_add_of_le (cellNum_le D pool.type)
  have hnil : whiteIds pool ((List.range k).map fun i => D.cellNum pool.type + i) = [] := by
    refine List.filter_eq_nil_iff.mpr fun id hid => ?_
    obtain ⟨i, -, rfl⟩ := List.mem_map.mp hid
    rw [h.padding _ (Nat.le_add_right _ _)]
    decide
  rw [hk, List.range_add, whiteIds, List.filter_append]
  exact (congrArg _ hnil).trans (List.append_nil _)

/-- INTERNAL: the words of a pool's bitmap.
SOURCE: m_gc_obj.c:379-432 -/
theorem sweepBitmap_loop (h : BitmapFits D pool) (hg : ∀ id, poolMark pool id ≠ GC_MARK_GRAY)
    (size : ℕ) (log : List GCEvent) :
    ∃ sw, (List.range (D.bitmapWords pool.type)).foldlM (gcSweepWordAt (D.descrs pool.type))
        ⟨pool, false, size, log⟩ = .ok sw ∧ PoolSweptAs (loopCells D) pool sw.pool ∧
      (sw.haveBlack = true ↔ HasBlack pool) ∧
      sw.allocatedSize = size - (D.descrs pool.type).size * (loopCells D pool).length ∧
      sw.log = log ++ (loopCells D pool).map (.final pool.type) := by
  have hlt : ∀ id ∈ List.range (16 * D.bitmapWords pool.type), id / 16 < pool.bitmap.length := by
    intro id hid
    have hid' := List.mem_range.mp hid
    have hwords := h.words
    omega
  have hout : ∀ id, id ∉ List.range (16 * D.bitmapWords pool.type) →
      poolMark pool id = GC_MARK_UNUSED := by
    intro id hid
    rw [List.mem_range, Nat.not_lt] at hid
    exact h.padding id (Nat.le_trans (cellNum_le D pool.type) hid)
  have hsw := sweepWords_eq (D.descrs pool.type) ⟨pool, false, size, log⟩
    (m := D.bitmapWords pool.type) (Nat.le_of_eq h.words.symm) hg
  obtain ⟨hbegin, htype, hwords⟩ := sweepCells_header (D.descrs pool.type)
    (List.range (16 * D.bitmapWords pool.type)) ⟨pool, false, size, log⟩
  obtain ⟨hfree, hsize, hlog⟩ := sweepCells_white (D.descrs pool.type)
    ⟨pool, false, size, log⟩ hlt List.nodup_range
  have hblack := sweepCells_haveBlack (D.descrs pool.type)
    ⟨pool, false, size, log⟩ hlt List.nodup_range
  have hmark := sweepCells_mark (D.descrs pool.type)
    ⟨pool, false, size, log⟩ hlt List.nodup_range
  simp only [whiteIds_words h] at hfree hsize hlog
  refine ⟨_, hsw, ⟨hbegin, htype, hwords, fun id => ?_, ?_⟩, hblack.trans ?_, ?_, ?_⟩
  · rw [hmark]
    split_ifs with hid
    · rfl
    · rw [hout id hid]
      rfl
  · rw [hfree]
    rfl
  · simp only [Bool.false_eq_true, false_or]
    refine ⟨fun ⟨id, _, hb⟩ => ⟨id, hb⟩, fun ⟨id, hb⟩ => ⟨id, ?_, hb⟩⟩
    by_contra hid
    rw [hout id hid] at hb
    exact absurd hb (by decide)
  · rw [hsize, loopCells, List.length_map]
  · rw [hlog, loopCells, List.map_map]
    rfl

/-- The state when the words of the pool at `base` are done. -/
abbrev wordsDone (s : GCState) (base : Addr) (sw : GCSweep) : GCState :=
  { s.store base sw.pool with allocatedSize := sw.allocatedSize, log := sw.log }

/-- INTERNAL: what follows the words of a pool's bitmap: the pool goes on the list that fits its
free cells, or is unmapped.
SOURCE: m_gc_obj.c:433-441 -/
theorem sweepPool_eq {sw : GCSweep} (hpool : s.pools base = some pool)
    (hsw : (List.range (D.bitmapWords pool.type)).foldlM (gcSweepWordAt (D.descrs pool.type))
      ⟨pool, false, s.allocatedSize, s.log⟩ = .ok sw) :
    gcSweepPool D pool.type s base = .ok (if sw.haveBlack then
        (wordsDone s base sw).setStub pool.type
          (listPool sw.pool.freeCells base (s.stubs pool.type))
      else gcFreePool (wordsDone s base sw) base) := by
  rw [gcSweepPool, GCState.load, hpool]
  simp only [Outcome.ok_bind, hsw]
  by_cases hb : sw.haveBlack
  · rw [if_pos hb, if_pos hb, listPool]
    by_cases hfree : sw.pool.freeCells = []
    · rw [if_pos hfree, if_pos hfree]
      rfl
    · rw [if_neg hfree, if_neg hfree]
      rfl
  · rw [if_neg hb, if_neg hb]
    rfl

/-- INTERNAL: the sweep of one pool.
SOURCE: m_gc_obj.c:379-441 -/
theorem sweepPool_loop (h : Sweepable D s t base) : ∃ s', gcSweepPool D t s base = .ok s' ∧
    PoolsSweptAs (loopCells D) [base] s s' ∧ ∀ t', t' ≠ t → s'.stubs t' = s.stubs t' := by
  obtain ⟨pool, hpool, rfl, hfits, hg⟩ := h
  obtain ⟨sw, hsw, hswept, hblack, -, hlog⟩ := sweepBitmap_loop hfits hg s.allocatedSize s.log
  have hfinals : sw.log = s.log ++ [base].flatMap (finalsAs (loopCells D) s) := by
    rw [hlog, List.flatMap_singleton, finalsAs, hpool]
  have hrun := sweepPool_eq hpool hsw
  by_cases hb : HasBlack pool
  · rw [if_pos (hblack.mpr hb)] at hrun
    refine ⟨_, hrun, ⟨fun b hbase => ?_, fun b hbase => ?_, hfinals, rfl, rfl, rfl, rfl⟩,
      fun t' ht => if_neg ht⟩
    · obtain rfl := List.mem_singleton.mp hbase
      exact ⟨pool, hpool, fun _ => ⟨sw.pool, if_pos rfl, hswept⟩, fun hnb => absurd hb hnb⟩
    · exact if_neg fun e => hbase (List.mem_singleton.mpr e)
  · rw [if_neg fun e => hb (hblack.mp e)] at hrun
    refine ⟨_, hrun, ⟨fun b hbase => ?_, fun b hbase => ?_, hfinals, rfl, rfl, rfl, rfl⟩,
      fun t' _ => rfl⟩
    · obtain rfl := List.mem_singleton.mp hbase
      exact ⟨pool, hpool, fun hb' => absurd hb' hb, fun _ => if_pos rfl⟩
    · have e : b ≠ base := fun e => hbase (List.mem_singleton.mpr e)
      exact (if_neg e).trans (if_neg e)

/-! ## Several pools -/

/-- INTERNAL: no pool at all. -/
theorem PoolsSweptAs.nil (cells : MGCCellPool → List Addr) (s : GCState) :
    PoolsSweptAs cells [] s s :=
  ⟨fun _ hb => absurd hb List.not_mem_nil, fun _ _ => rfl, by simp, rfl, rfl, rfl, rfl⟩

/-- INTERNAL: first some pools, then others. -/
theorem PoolsSweptAs.append (h : PoolsSweptAs cells bases s s')
    (h' : PoolsSweptAs cells bases' s' s'') (hdisj : ∀ b ∈ bases, b ∉ bases') :
    PoolsSweptAs cells (bases ++ bases') s s'' := by
  have hfinals : ∀ b ∈ bases', finalsAs cells s' b = finalsAs cells s b := by
    intro b hb
    rw [finalsAs, finalsAs, h.other b fun hb' => hdisj b hb' hb]
  refine ⟨fun b hb => ?_, fun b hb => ?_, ?_,
    h'.grayStack.trans h.grayStack, h'.needScanGray.trans h.needScanGray,
    h'.threadList.trans h.threadList, h'.rootHash.trans h.rootHash⟩
  · by_cases hb₁ : b ∈ bases
    · obtain ⟨p, hp, hkept, hgone⟩ := h.swept b hb₁
      rw [h'.other b (hdisj b hb₁)]
      exact ⟨p, hp, hkept, hgone⟩
    · obtain ⟨p, hp, hswept⟩ := h'.swept b ((List.mem_append.mp hb).resolve_left hb₁)
      exact ⟨p, (h.other b hb₁).symm.trans hp, hswept⟩
  · rw [List.mem_append, not_or] at hb
    exact (h'.other b hb.2).trans (h.other b hb.1)
  · rw [h'.log, h.log, List.flatMap_append, List.append_assoc]
    congr 2
    exact List.flatMap_congr hfinals

/-- INTERNAL: a swept heap has no gray cell either. -/
theorem PoolsSweptAs.noGray (h : PoolsSweptAs cells bases s s') (hg : NoGray s) : NoGray s' := by
  intro b p hp id
  by_cases hb : b ∈ bases
  · obtain ⟨q, hq, hkept, hgone⟩ := h.swept b hb
    by_cases hblack : HasBlack q
    · obtain ⟨p', hp', hs⟩ := hkept hblack
      obtain rfl := Option.some.inj (hp.symm.trans hp')
      rw [hs.mark]
      exact sweptMark_ne_gray (hg b q hq id)
    · exact nomatch (hgone hblack).symm.trans hp
  · exact hg b p ((h.other b hb).symm.trans hp) id

/-- INTERNAL: the pools of one type, in any order. The induction is on the pools that are still
to come.
SOURCE: m_gc_obj.c:455-474 -/
theorem sweepPools_loop (hnd : bases.Nodup) (h : ∀ b ∈ bases, Sweepable D s t b) :
    ∃ s', bases.foldlM (gcSweepPool D t) s = .ok s' ∧ PoolsSweptAs (loopCells D) bases s s' ∧
      ∀ t', t' ≠ t → s'.stubs t' = s.stubs t' := by
  induction bases generalizing s with
  | nil => exact ⟨s, rfl, PoolsSweptAs.nil _ s, fun _ _ => rfl⟩
  | cons b bases ih =>
    obtain ⟨hb, hnd⟩ := List.nodup_cons.mp hnd
    obtain ⟨s₁, e₁, hs₁, hst₁⟩ := sweepPool_loop (h b List.mem_cons_self)
    have hrest : ∀ b' ∈ bases, Sweepable D s₁ t b' := by
      intro b' hb'
      rw [Sweepable, hs₁.other b' fun e => hb (List.mem_singleton.mp e ▸ hb')]
      exact h b' (List.mem_cons_of_mem _ hb')
    obtain ⟨s₂, e₂, hs₂, hst₂⟩ := ih hnd hrest
    refine ⟨s₂, ?_, hs₁.append hs₂ fun b' hb' => List.mem_singleton.mp hb' ▸ hb,
      fun t' ht => (hst₂ t' ht).trans (hst₁ t' ht)⟩
    rw [List.foldlM_cons, e₁]
    exact e₂

/-- INTERNAL: the object types. A pool has one type, so it is swept once.
SOURCE: m_gc_obj.c:444-480 -/
theorem sweepTypes_loop {types : List MGCObjType} (hnd : types.Nodup)
    (hlists : ∀ t ∈ types, (listedPools s t).Nodup)
    (h : ∀ t ∈ types, ∀ b ∈ listedPools s t, Sweepable D s t b) :
    ∃ s', types.foldlM (gcSweepType D) s = .ok s' ∧
      PoolsSweptAs (loopCells D) (types.flatMap (listedPools s)) s s' := by
  induction types generalizing s with
  | nil => exact ⟨s, rfl, PoolsSweptAs.nil _ s⟩
  | cons t types ih =>
    obtain ⟨ht, hnd⟩ := List.nodup_cons.mp hnd
    obtain ⟨s₁, e₁, hs₁, hst₁⟩ := sweepPools_loop (s := s.setStub t ⟨[], []⟩)
      (hlists t List.mem_cons_self) (h t List.mem_cons_self)
    have htype : gcSweepType D s t = .ok s₁ := by
      rw [listedPools, List.foldlM_append] at e₁
      exact e₁
    have hs₁' : PoolsSweptAs (loopCells D) (listedPools s t) s s₁ :=
      ⟨hs₁.swept, hs₁.other, hs₁.log, hs₁.grayStack, hs₁.needScanGray, hs₁.threadList,
        hs₁.rootHash⟩
    have hne : ∀ t' ∈ types, t' ≠ t := fun t' ht' e => ht (e ▸ ht')
    have hsame : ∀ t' ∈ types, listedPools s₁ t' = listedPools s t' := by
      intro t' ht'
      rw [listedPools, hst₁ t' (hne t' ht'), listedPools]
      simp only [GCState.setStub, if_neg (hne t' ht')]
    -- the pools of the other types are other pools
    have hapart : ∀ t' ∈ types, ∀ b ∈ listedPools s t', b ∉ listedPools s t := by
      intro t' ht' b hb hb'
      obtain ⟨p, hp, hpt, -⟩ := h t' (List.mem_cons_of_mem _ ht') b hb
      obtain ⟨q, hq, hqt, -⟩ := h t List.mem_cons_self b hb'
      obtain rfl := Option.some.inj (hp.symm.trans hq)
      exact hne t' ht' (hpt.symm.trans hqt)
    obtain ⟨s₂, e₂, hs₂⟩ := ih (s := s₁) hnd
      (fun t' ht' => by rw [hsame t' ht']; exact hlists t' (List.mem_cons_of_mem _ ht'))
      (fun t' ht' b hb => by
        rw [hsame t' ht'] at hb
        rw [Sweepable, hs₁'.other b (hapart t' ht' b hb)]
        exact h t' (List.mem_cons_of_mem _ ht') b hb)
    have hbases : types.flatMap (listedPools s₁) = types.flatMap (listedPools s) :=
      List.flatMap_congr hsame
    rw [hbases] at hs₂
    refine ⟨s₂, ?_, ?_⟩
    · rw [List.foldlM_cons, htype]
      exact e₂
    · rw [List.flatMap_cons]
      refine hs₁'.append hs₂ fun b hb hb' => ?_
      obtain ⟨t', ht', hb'⟩ := List.mem_flatMap.mp hb'
      exact hapart t' ht' b hb' hb

/-- INTERNAL: the sweep of the heap ends, whatever the addresses that it computes.
SOURCE: m_gc_obj.c:444-480 -/
theorem sweep_loop (hlists : ∀ t, (listedPools s t).Nodup)
    (h : ∀ t, ∀ b ∈ listedPools s t, Sweepable D s t b) : ∃ s', gcSweep D s = .ok s' ∧
      PoolsSweptAs (loopCells D) (gcObjTypes.flatMap (listedPools s)) s s' := by
  have hnd : gcObjTypes.Nodup := by decide
  obtain ⟨s', e, hs⟩ := sweepTypes_loop hnd (fun t _ => hlists t) fun t _ => h t
  refine ⟨{ s' with lastAllocatedSize := s'.allocatedSize }, ?_, hs.swept, hs.other, hs.log,
    hs.grayStack, hs.needScanGray, hs.threadList, hs.rootHash⟩
  rw [gcSweep, e]
  rfl

end Ming.Analysis
