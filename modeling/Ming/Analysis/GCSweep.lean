import Ming.Analysis.GCSweepLoop

/-!
# The sweep of the heap

The sweep of a pool keeps the invariant of the heap with the pool back on a list or unmapped,
so the whole sweep, which takes all pools of a type off their lists first, keeps it too. What
has become of every pool is said by `PoolsSwept`.
-/

set_option autoImplicit false

namespace Ming.Analysis

open Ming.Foundation Ming.Model Ming.Interface

variable {D : GCConfig} {s s' s'' : GCState} {pool pool' : MGCCellPool} {id : ℕ}
variable {base : Addr} {bases bases' todo : List Addr}

/-- The addresses of the white cells of a pool. -/
def whiteCells (D : GCConfig) (pool : MGCCellPool) : List Addr :=
  (whiteIds pool (List.range (D.cellNum pool.type))).map (cellAddr D pool)

/-- `pool'` is `pool` with every cell swept. -/
abbrev PoolSwept (D : GCConfig) : MGCCellPool → MGCCellPool → Prop := PoolSweptAs (whiteCells D)

/-- The finalizers that the sweep of a pool runs. -/
abbrev finals (D : GCConfig) : GCState → Addr → List GCEvent := finalsAs (whiteCells D)

/-- `s'` is `s` with the pools of `bases` swept. Pool lists and the counter of allocated bytes
are determined by the invariant of the heap. -/
abbrev PoolsSwept (D : GCConfig) : List Addr → GCState → GCState → Prop :=
  PoolsSweptAs (whiteCells D)

/-- Every cell in use is near the first cell of its pool. -/
def HeapNear (D : GCConfig) (s : GCState) : Prop :=
  ∀ base pool id, s.pools base = some pool → poolMark pool id ≠ GC_MARK_UNUSED →
    NearAt D pool id

/-! ## A swept pool -/

/-- INTERNAL: a cell is unused after a sweep when it was unused or white before. -/
theorem sweptMark_eq_unused {mark : BitVec 32} :
    sweptMark mark = GC_MARK_UNUSED ↔ mark = GC_MARK_UNUSED ∨ mark = GC_MARK_WHITE := by
  unfold sweptMark
  split_ifs with h₁ h₂
  · simp [h₁]
  · simp [h₂]
  · exact ⟨Or.inl, fun h => h.resolve_right h₁⟩

/-- INTERNAL: no cell is black after a sweep. -/
theorem sweptMark_ne_black (mark : BitVec 32) : sweptMark mark ≠ GC_MARK_BLACK := by
  unfold sweptMark
  split_ifs with h₁ h₂
  · decide
  · decide
  · exact h₂

/-- INTERNAL: the white cells are those whose mark is white. -/
theorem mem_whiteCells {a : Addr} : a ∈ whiteCells D pool ↔
    ∃ id < D.cellNum pool.type, a = cellAddr D pool id ∧ poolMark pool id = GC_MARK_WHITE := by
  simp only [whiteCells, whiteIds, List.mem_map, List.mem_filter, List.mem_range,
    decide_eq_true_eq, and_assoc]
  refine exists_congr fun id => and_congr_right fun _ => ?_
  rw [and_comm, eq_comm]

/-- INTERNAL: no white cell is met twice. -/
theorem nodup_whiteCells (h : PoolInv D base pool) : (whiteCells D pool).Nodup :=
  List.Nodup.map (fun _ _ e => h.cellAddr_inj e) (List.nodup_range.filter _)

/-- INTERNAL: the addresses of near cells are computed as they are. -/
theorem loopCells_near (h : ∀ id, poolMark pool id = GC_MARK_WHITE → NearAt D pool id) :
    loopCells D pool = whiteCells D pool := by
  refine List.map_congr_left fun id hid => loopAddr_near (h id ?_)
  simpa using (List.mem_filter.mp hid).2

/-- INTERNAL: sweeping a pool keeps its invariant. -/
theorem PoolSwept.inv (hs : PoolSwept D pool pool') (h : PoolInv D base pool) :
    PoolInv D base pool' := by
  have haddr : ∀ id, cellAddr D pool' id = cellAddr D pool id := fun id => by
    rw [cellAddr, cellAddr, hs.begin_eq, hs.type_eq]
  refine ⟨h.aligned, hs.type_eq ▸ h.size_pos, ?_, ?_, fun id hid => ?_, ?_, fun a => ?_⟩
  · rw [hs.begin_eq, hs.type_eq]
    exact h.begin_eq
  · rw [hs.words, hs.type_eq]
    exact h.words
  · rw [hs.mark, h.padding id (hs.type_eq ▸ hid)]
    rfl
  · rw [hs.free, List.nodup_append]
    refine ⟨List.nodup_reverse.mpr (nodup_whiteCells h), h.free_nodup, fun a ha b hb e => ?_⟩
    obtain ⟨i, -, rfl, hi⟩ := mem_whiteCells.mp (List.mem_reverse.mp ha)
    obtain ⟨j, -, hj, hmark⟩ := (h.mem_free b).mp hb
    obtain rfl := h.cellAddr_inj (e.trans hj)
    rw [hmark] at hi
    exact absurd hi (by decide)
  · rw [hs.free, List.mem_append, List.mem_reverse, mem_whiteCells, h.mem_free, hs.type_eq]
    constructor
    · rintro (⟨i, hi, rfl, hm⟩ | ⟨i, hi, rfl, hm⟩)
      · exact ⟨i, hi, (haddr i).symm, by rw [hs.mark, sweptMark_eq_unused]; exact Or.inr hm⟩
      · exact ⟨i, hi, (haddr i).symm, by rw [hs.mark, sweptMark_eq_unused]; exact Or.inl hm⟩
    · rintro ⟨i, hi, rfl, hm⟩
      rw [hs.mark, sweptMark_eq_unused] at hm
      rcases hm with hm | hm
      · exact Or.inr ⟨i, hi, haddr i, hm⟩
      · exact Or.inl ⟨i, hi, haddr i, hm⟩

/-- INTERNAL: the bytes that a sweep frees. -/
theorem PoolSwept.bytes (hs : PoolSwept D pool pool') : poolBytes D pool =
    poolBytes D pool' + (D.descrs pool.type).size * (whiteCells D pool).length := by
  have hcount : ∀ ids : List ℕ, ids.countP (fun id => poolMark pool id ≠ GC_MARK_UNUSED) =
      ids.countP (fun id => poolMark pool' id ≠ GC_MARK_UNUSED) + (whiteIds pool ids).length := by
    intro ids
    induction ids with
    | nil => rfl
    | cons id ids ih =>
      rw [List.countP_cons, List.countP_cons, ih, whiteIds_cons, hs.mark]
      rcases poolMark_cases pool id with hm | hm | hm | hm
      · simp [hm, sweptMark]
      · simp [hm, sweptMark, Nat.add_assoc]
      · simp [hm, sweptMark, Nat.add_right_comm]
      · simp [hm, sweptMark, Nat.add_right_comm]
  rw [poolBytes, poolBytes, hs.type_eq, hcount, whiteCells, List.length_map, Nat.mul_add]

/-- INTERNAL: a pool without a black cell holds nothing after its sweep. -/
theorem PoolSwept.bytes_zero (hs : PoolSwept D pool pool') (hb : ¬ HasBlack pool)
    (hg : ∀ id, poolMark pool id ≠ GC_MARK_GRAY) : poolBytes D pool' = 0 := by
  rw [poolBytes, List.countP_eq_zero.mpr, Nat.mul_zero]
  intro id _
  have hu : poolMark pool' id = GC_MARK_UNUSED := by
    rw [hs.mark, sweptMark_eq_unused]
    rcases poolMark_cases pool id with hm | hm | hm | hm
    · exact Or.inl hm
    · exact Or.inr hm
    · exact absurd hm (hg id)
    · exact absurd ⟨id, hm⟩ hb
  rw [hu]
  decide

/-- INTERNAL: the words of a pool's bitmap, when its white cells are near.
SOURCE: m_gc_obj.c:379-432 -/
theorem sweepBitmap_eq (h : PoolInv D base pool) (hg : ∀ id, poolMark pool id ≠ GC_MARK_GRAY)
    (hnear : ∀ id, poolMark pool id = GC_MARK_WHITE → NearAt D pool id) (size : ℕ)
    (log : List GCEvent) :
    ∃ sw, (List.range (D.bitmapWords pool.type)).foldlM (gcSweepWordAt (D.descrs pool.type))
        ⟨pool, false, size, log⟩ = .ok sw ∧ PoolSwept D pool sw.pool ∧
      (sw.haveBlack = true ↔ HasBlack pool) ∧
      sw.allocatedSize = size - (D.descrs pool.type).size * (whiteCells D pool).length ∧
      sw.log = log ++ (whiteCells D pool).map (.final pool.type) := by
  obtain ⟨sw, e, hs, hblack, hsize, hlog⟩ := sweepBitmap_loop h.bitmapFits hg size log
  rw [← loopCells_near hnear]
  refine ⟨sw, e, ⟨hs.begin_eq, hs.type_eq, hs.words, hs.mark, ?_⟩, hblack, hsize, hlog⟩
  rw [← loopCells_near hnear]
  exact hs.free

/-- INTERNAL: a white cell is in use. -/
theorem HeapNear.white (h : HeapNear D s) (hpool : s.pools base = some pool) :
    ∀ id, poolMark pool id = GC_MARK_WHITE → NearAt D pool id := by
  intro id hw
  refine h base pool id hpool ?_
  rw [hw]
  decide

/-- INTERNAL: the sweep of a heap without a gray cell ends, wherever its cells lie.
SOURCE: m_gc_obj.c:444-480 -/
theorem sweep_returns (h : HeapInv D [] s) (hg : NoGray s) : ∃ s', gcSweep D s = .ok s' ∧
    PoolsSweptAs (loopCells D) (gcObjTypes.flatMap (listedPools s)) s s' := by
  refine sweep_loop h.lists.nodup fun t b hb => ?_
  obtain ⟨-, pool, hpool, ht⟩ := (h.lists.mem_type t).mp hb
  exact ⟨pool, hpool, ht, (h.pool hpool).bitmapFits, hg b pool hpool⟩

/-- INTERNAL: the sweep of a pool that is on no list puts it back, or unmaps it.
SOURCE: m_gc_obj.c:379-441 -/
theorem sweepPool_spec (h : HeapInv D (base :: todo) s) (hnot : base ∉ todo)
    (hpool : s.pools base = some pool) (hg : ∀ id, poolMark pool id ≠ GC_MARK_GRAY)
    (hnear : ∀ id, poolMark pool id = GC_MARK_WHITE → NearAt D pool id) :
    ∃ s', gcSweepPool D pool.type s base = .ok s' ∧ HeapInv D todo s' ∧
      PoolsSwept D [base] s s' := by
  obtain ⟨sw, hsw, hswept, hblack, hsize, hlog⟩ :=
    sweepBitmap_eq (h.pool hpool) hg hnear s.allocatedSize s.log
  obtain ⟨rest, hrest, hothers⟩ := h.bytes.erase hpool
  have hfreed := hswept.bytes
  have hbytes : sw.allocatedSize + poolBytes D pool = s.allocatedSize + poolBytes D sw.pool := by
    omega
  have hfinals : sw.log = s.log ++ [base].flatMap (finals D s) := by
    rw [hlog, List.flatMap_singleton, finals, finalsAs, hpool]
  have hrun := sweepPool_eq hpool hsw
  by_cases hb : HasBlack pool
  · -- the pool goes back on the list that fits its free cells
    rw [if_pos (hblack.mpr hb)] at hrun
    refine ⟨_, hrun, ⟨fun {b p} hp => ?_, ?_, ?_⟩, ?_⟩
    · by_cases e : b = base
      · subst e
        obtain rfl := Option.some.inj ((if_pos rfl).symm.trans hp)
        exact hswept.inv (h.pool hpool)
      · exact h.pool ((if_neg e).symm.trans hp)
    · have hlists := (h.lists.change List.mem_cons_self (some sw.pool)).push hnot (if_pos rfl)
      rwa [hswept.type_eq] at hlists
    · exact h.bytes.replace hpool hbytes
    · refine ⟨fun b hbase => ?_, fun b hbase => ?_, hfinals, rfl, rfl, rfl, rfl⟩
      · obtain rfl := List.mem_singleton.mp hbase
        exact ⟨pool, hpool, fun _ => ⟨sw.pool, if_pos rfl, hswept⟩, fun hnb => absurd hb hnb⟩
      · exact if_neg fun e => hbase (List.mem_singleton.mpr e)
  · -- the pool holds nothing any more
    have hzero := hswept.bytes_zero hb hg
    have hpools : (fun b => if b = base then none else
        if b = base then some sw.pool else s.pools b) =
        fun b => if b = base then none else s.pools b := by
      funext b
      by_cases e : b = base
      · rw [if_pos e, if_pos e]
      · rw [if_neg e, if_neg e, if_neg e]
    rw [if_neg fun e => hb (hblack.mp e)] at hrun
    refine ⟨_, hrun, ⟨fun {b p} hp => ?_, ?_, ?_⟩, ?_⟩
    · have hp' := (congrFun hpools b).symm.trans hp
      by_cases e : b = base
      · cases (if_pos e).symm.trans hp'
      · exact h.pool ((if_neg e).symm.trans hp')
    · have hlists := (PoolLists.unmapped_iff (if_pos rfl)).mp
        (h.lists.change List.mem_cons_self none)
      rwa [← hpools] at hlists
    · rw [← hpools] at hothers
      rwa [show rest = sw.allocatedSize by omega] at hothers
    · refine ⟨fun b hbase => ?_, fun b hbase => ?_, hfinals, rfl, rfl, rfl, rfl⟩
      · obtain rfl := List.mem_singleton.mp hbase
        exact ⟨pool, hpool, fun hb' => absurd hb' hb, fun _ => if_pos rfl⟩
      · have e : b ≠ base := fun e => hbase (List.mem_singleton.mpr e)
        exact (if_neg e).trans (if_neg e)

/-! ## Several pools -/

/-- INTERNAL: a cell that is in use after a sweep was in use before. -/
theorem PoolsSwept.near (h : PoolsSwept D bases s s') (hn : HeapNear D s) : HeapNear D s' := by
  intro b p id hp hused
  by_cases hb : b ∈ bases
  · obtain ⟨q, hq, hkept, hgone⟩ := h.swept b hb
    by_cases hblack : HasBlack q
    · obtain ⟨p', hp', hs⟩ := hkept hblack
      obtain rfl := Option.some.inj (hp.symm.trans hp')
      rw [NearAt, hs.type_eq]
      refine hn b q id hq fun hu => hused ?_
      rw [hs.mark, sweptMark_eq_unused]
      exact Or.inl hu
    · exact nomatch (hgone hblack).symm.trans hp
  · exact hn b p id ((h.other b hb).symm.trans hp) hused

/-- INTERNAL: the pools of one type, all off their lists. The induction is on the pools that
are still to come. -/
theorem sweepPools_spec {t : MGCObjType} (h : HeapInv D bases s) (hnd : bases.Nodup)
    (htype : ∀ b ∈ bases, ∃ pool, s.pools b = some pool ∧ pool.type = t) (hg : NoGray s)
    (hn : HeapNear D s) : ∃ s', bases.foldlM (gcSweepPool D t) s = .ok s' ∧ HeapInv D [] s' ∧
      PoolsSwept D bases s s' := by
  induction bases generalizing s with
  | nil => exact ⟨s, rfl, h, PoolsSweptAs.nil _ s⟩
  | cons b bases ih =>
    obtain ⟨hb, hnd⟩ := List.nodup_cons.mp hnd
    obtain ⟨pool, hpool, rfl⟩ := htype b List.mem_cons_self
    obtain ⟨s₁, e₁, h₁, hs₁⟩ := sweepPool_spec h hb hpool (hg b pool hpool) (hn.white hpool)
    have hother : ∀ b' ∈ bases, s₁.pools b' = s.pools b' := fun b' hb' =>
      hs₁.other b' fun e => hb (List.mem_singleton.mp e ▸ hb')
    obtain ⟨s₂, e₂, h₂, hs₂⟩ := ih h₁ hnd
      (fun b' hb' => (hother b' hb').symm ▸ htype b' (List.mem_cons_of_mem _ hb')) (hs₁.noGray hg)
      (hs₁.near hn)
    refine ⟨s₂, ?_, h₂, hs₁.append hs₂ fun b' hb' => List.mem_singleton.mp hb' ▸ hb⟩
    rw [List.foldlM_cons, e₁]
    exact e₂

/-- INTERNAL: all pools of one type.
SOURCE: m_gc_obj.c:455-474 -/
theorem sweepType_spec (h : HeapInv D [] s) (hg : NoGray s) (hn : HeapNear D s)
    (t : MGCObjType) :
    ∃ s' bases, gcSweepType D s t = .ok s' ∧ HeapInv D [] s' ∧ bases.Nodup ∧
      (∀ b, b ∈ bases ↔ ∃ pool, s.pools b = some pool ∧ pool.type = t) ∧
      PoolsSwept D bases s s' := by
  have hmem : ∀ b, b ∈ (s.stubs t).fullPools ++ (s.stubs t).usablePools ↔
      ∃ pool, s.pools b = some pool ∧ pool.type = t := fun b => by
    rw [h.lists.mem_type]
    exact and_iff_right List.not_mem_nil
  obtain ⟨s', e, h', hs⟩ := sweepPools_spec (s := s.setStub t ⟨[], []⟩) (t := t)
    ⟨h.pool, h.lists.takeAll t, h.bytes⟩ (h.lists.nodup t) (fun b hb => (hmem b).mp hb) hg hn
  refine ⟨s', _, ?_, h', h.lists.nodup t, hmem, hs.swept, hs.other, hs.log, hs.grayStack,
    hs.needScanGray, hs.threadList, hs.rootHash⟩
  rw [List.foldlM_append] at e
  exact e

/-- INTERNAL: all pools of several types. -/
theorem sweepTypes_spec {types : List MGCObjType} (h : HeapInv D [] s) (hg : NoGray s)
    (hn : HeapNear D s) (hnd : types.Nodup) : ∃ s' bases, types.foldlM (gcSweepType D) s = .ok s' ∧
      HeapInv D [] s' ∧ bases.Nodup ∧
      (∀ b, b ∈ bases ↔ ∃ pool, s.pools b = some pool ∧ pool.type ∈ types) ∧
      PoolsSwept D bases s s' := by
  induction types generalizing s with
  | nil => exact ⟨s, [], rfl, h, List.nodup_nil, by simp, PoolsSweptAs.nil _ s⟩
  | cons t types ih =>
    obtain ⟨ht, hnd⟩ := List.nodup_cons.mp hnd
    obtain ⟨s₁, bases₁, e₁, h₁, hnd₁, hmem₁, hs₁⟩ := sweepType_spec h hg hn t
    obtain ⟨s₂, bases₂, e₂, h₂, hnd₂, hmem₂, hs₂⟩ := ih h₁ (hs₁.noGray hg) (hs₁.near hn) hnd
    have hdisj : ∀ b ∈ bases₁, b ∉ bases₂ := by
      intro b hb₁ hb₂
      obtain ⟨p, hp, hpt⟩ := (hmem₁ b).mp hb₁
      obtain ⟨p₁, hp₁, hp₁t⟩ := (hmem₂ b).mp hb₂
      obtain ⟨q, hq, hkept, hgone⟩ := hs₁.swept b hb₁
      obtain rfl := Option.some.inj (hp.symm.trans hq)
      by_cases hblack : HasBlack p
      · obtain ⟨p', hp', hswept⟩ := hkept hblack
        obtain rfl := Option.some.inj (hp'.symm.trans hp₁)
        exact ht (hpt ▸ hswept.type_eq ▸ hp₁t)
      · exact nomatch (hgone hblack).symm.trans hp₁
    refine ⟨s₂, bases₁ ++ bases₂, ?_, h₂, ?_, fun b => ?_, hs₁.append hs₂ hdisj⟩
    · rw [List.foldlM_cons, e₁]
      exact e₂
    · exact List.nodup_append.mpr ⟨hnd₁, hnd₂, fun a ha b hb e => hdisj a ha (e ▸ hb)⟩
    · rw [List.mem_append]
      by_cases hb : b ∈ bases₁
      · obtain ⟨p, hp, hpt⟩ := (hmem₁ b).mp hb
        exact iff_of_true (Or.inl hb) ⟨p, hp, hpt ▸ List.mem_cons_self⟩
      · have hne : ∀ pool, s.pools b = some pool → pool.type ≠ t := fun pool hp hpt =>
          hb ((hmem₁ b).mpr ⟨pool, hp, hpt⟩)
        rw [hmem₂ b, hs₁.other b hb, or_iff_right hb]
        refine exists_congr fun pool => and_congr_right fun hp => ?_
        rw [List.mem_cons, or_iff_right (hne pool hp)]

/-- INTERNAL: the sweep of the heap.
SOURCE: m_gc_obj.c:444-480 -/
theorem sweep_spec (h : HeapInv D [] s) (hg : NoGray s) (hn : HeapNear D s) :
    ∃ s' bases, gcSweep D s = .ok s' ∧ HeapInv D [] s' ∧ bases.Nodup ∧
      (∀ b, b ∈ bases ↔ s.pools b ≠ none) ∧ PoolsSwept D bases s s' ∧
      s'.lastAllocatedSize = s'.allocatedSize := by
  have hall : ∀ t, t ∈ gcObjTypes := fun t => by cases t <;> decide
  have hnodup : gcObjTypes.Nodup := by decide
  obtain ⟨s', bases, e, h', hnd, hmem, hs⟩ := sweepTypes_spec h hg hn hnodup
  refine ⟨{ s' with lastAllocatedSize := s'.allocatedSize }, bases, ?_,
    ⟨h'.pool, h'.lists, h'.bytes⟩,
    hnd, fun b => (hmem b).trans ?_, ⟨hs.swept, hs.other, hs.log, hs.grayStack, hs.needScanGray,
      hs.threadList, hs.rootHash⟩, rfl⟩
  · rw [gcSweep, e]
    rfl
  · rw [Option.ne_none_iff_exists']
    exact exists_congr fun pool => and_iff_left (hall _)

end Ming.Analysis
