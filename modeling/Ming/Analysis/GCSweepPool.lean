import Ming.Interface.CellHeap

/-!
# The sweep of one pool

`gc_sweep_pool` goes through the bitmap word by word, skips words that are zero and leaves a
word as soon as the marks that remain are zero. It does the same as a sweep that visits every
cell by its number; what that sweep does to marks, free list, counter and finalizers is then
read off.
-/

set_option autoImplicit false

namespace Ming.Analysis

open Ming.Foundation Ming.Model Ming.Interface

variable {D : GCConfig} {descr : MGCObjDescr} {sw : GCSweep} {pool : MGCCellPool}
variable {id id' n : ℕ} {ids : List ℕ}

/-- What a sweep makes of a mark. -/
def sweptMark (mark : BitVec 32) : BitVec 32 :=
  if mark = GC_MARK_WHITE then GC_MARK_UNUSED
  else if mark = GC_MARK_BLACK then GC_MARK_WHITE
  else mark

/-- The address that the loops over a bitmap compute for the cell with number `id`. -/
def loopAddr (descr : MGCObjDescr) (begin : Addr) (id : ℕ) : Addr :=
  wordAddr descr begin (id / 16) + id % 16 * descr.size

/-- INTERNAL: the first cell of a word. -/
theorem loopAddr_first (descr : MGCObjDescr) (begin : Addr) (n : ℕ) :
    loopAddr descr begin (16 * n) = wordAddr descr begin n := by
  rw [loopAddr, Nat.mul_div_cancel_left n (by decide), Nat.mul_mod_right, Nat.zero_mul,
    Nat.add_zero]

/-- INTERNAL: the next cell of a word. -/
theorem loopAddr_succ {descr : MGCObjDescr} {begin : Addr} {n j : ℕ} (hj : j + 1 < 16) :
    loopAddr descr begin (16 * n + j) + descr.size = loopAddr descr begin (16 * n + (j + 1)) := by
  rw [loopAddr, loopAddr, (by omega : (16 * n + j) / 16 = n),
    (by omega : (16 * n + (j + 1)) / 16 = n), (by omega : (16 * n + j) % 16 = j),
    (by omega : (16 * n + (j + 1)) % 16 = j + 1), Nat.add_assoc, ← Nat.succ_mul]

/-- INTERNAL: a product that does not wrap gives the address of the cell. -/
theorem loopAddr_near {descr : MGCObjDescr} {begin : Addr}
    (h : id / 16 * (16 * descr.size) < 2 ^ 32) :
    loopAddr descr begin id = begin + id * descr.size := by
  have hword : 16 * (id / 16) * descr.size = id / 16 * (16 * descr.size) := by
    rw [Nat.mul_comm 16, Nat.mul_assoc]
  rw [loopAddr, wordAddr, hword, Nat.mod_eq_of_lt h, Nat.add_assoc, ← hword, ← Nat.add_mul,
    Nat.div_add_mod]

/-- The sweep of the cell with number `id`. -/
def sweepCell (descr : MGCObjDescr) (sw : GCSweep) (id : ℕ) : GCSweep :=
  if poolMark sw.pool id = GC_MARK_WHITE then
    { sw with
      log := sw.log ++ [.final sw.pool.type (loopAddr descr sw.pool.begin id)]
      pool := { setPoolMark sw.pool id GC_MARK_UNUSED with
        freeCells := loopAddr descr sw.pool.begin id :: sw.pool.freeCells }
      allocatedSize := sw.allocatedSize - descr.size }
  else if poolMark sw.pool id = GC_MARK_BLACK then
    { sw with pool := setPoolMark sw.pool id GC_MARK_WHITE, haveBlack := true }
  else sw

/-- The sweep of several cells. -/
def sweepCells (descr : MGCObjDescr) (ids : List ℕ) (sw : GCSweep) : GCSweep :=
  ids.foldl (sweepCell descr) sw

/-- The white cells among the given ones. -/
def whiteIds (pool : MGCCellPool) (ids : List ℕ) : List ℕ :=
  ids.filter fun id => poolMark pool id = GC_MARK_WHITE

/-- INTERNAL: the white cells of a first cell and the others. -/
theorem whiteIds_cons (pool : MGCCellPool) (id : ℕ) (ids : List ℕ) :
    whiteIds pool (id :: ids) = if poolMark pool id = GC_MARK_WHITE
      then id :: whiteIds pool ids else whiteIds pool ids := by
  rw [whiteIds, List.filter_cons]
  simp [whiteIds]

/-! ## One cell -/

/-- INTERNAL: a visit leaves the header alone. -/
theorem sweepCell_header (descr : MGCObjDescr) (sw : GCSweep) (id : ℕ) :
    (sweepCell descr sw id).pool.begin = sw.pool.begin ∧
      (sweepCell descr sw id).pool.type = sw.pool.type ∧
      (sweepCell descr sw id).pool.bitmap.length = sw.pool.bitmap.length := by
  unfold sweepCell
  split_ifs
  · exact ⟨rfl, rfl, setPoolMark_words ..⟩
  · exact ⟨rfl, rfl, setPoolMark_words ..⟩
  · exact ⟨rfl, rfl, rfl⟩

/-- INTERNAL: a visit writes the mark of its own cell only. -/
theorem sweepCell_mark (descr : MGCObjDescr) (h : id / 16 < sw.pool.bitmap.length) (id' : ℕ) :
    poolMark (sweepCell descr sw id).pool id' =
      if id' = id then sweptMark (poolMark sw.pool id) else poolMark sw.pool id' := by
  unfold sweepCell sweptMark
  by_cases hw : poolMark sw.pool id = GC_MARK_WHITE
  · rw [if_pos hw, if_pos hw]
    exact poolMark_set rfl h id'
  · rw [if_neg hw, if_neg hw]
    by_cases hb : poolMark sw.pool id = GC_MARK_BLACK
    · rw [if_pos hb, if_pos hb]
      exact poolMark_set rfl h id'
    · rw [if_neg hb, if_neg hb]
      split_ifs with hid
      · rw [hid]
      · rfl

/-- INTERNAL: a cell that is not in use is left alone.
SOURCE: m_gc_obj.c:396-418 -/
theorem sweepCell_unused (h : poolMark sw.pool id = GC_MARK_UNUSED) :
    sweepCell descr sw id = sw := by
  rw [sweepCell, h, if_neg (by decide), if_neg (by decide)]

/-- INTERNAL: the marks of several cells that are all unused. -/
theorem sweepCells_unused (h : ∀ id ∈ ids, poolMark sw.pool id = GC_MARK_UNUSED) :
    sweepCells descr ids sw = sw := by
  induction ids with
  | nil => rfl
  | cons id ids ih =>
    rw [sweepCells, List.foldl_cons, sweepCell_unused (h id List.mem_cons_self)]
    exact ih fun i hi => h i (List.mem_cons_of_mem _ hi)

/-- INTERNAL: several visits leave the header alone. -/
theorem sweepCells_header (descr : MGCObjDescr) (ids : List ℕ) (sw : GCSweep) :
    (sweepCells descr ids sw).pool.begin = sw.pool.begin ∧
      (sweepCells descr ids sw).pool.type = sw.pool.type ∧
      (sweepCells descr ids sw).pool.bitmap.length = sw.pool.bitmap.length := by
  induction ids generalizing sw with
  | nil => exact ⟨rfl, rfl, rfl⟩
  | cons id ids ih =>
    obtain ⟨h₁, h₂, h₃⟩ := ih (sweepCell descr sw id)
    obtain ⟨e₁, e₂, e₃⟩ := sweepCell_header descr sw id
    exact ⟨h₁.trans e₁, h₂.trans e₂, h₃.trans e₃⟩

/-- INTERNAL: the marks after several visits. -/
theorem sweepCells_mark (descr : MGCObjDescr) (sw : GCSweep)
    (hlt : ∀ id ∈ ids, id / 16 < sw.pool.bitmap.length) (hnd : ids.Nodup) (id' : ℕ) :
    poolMark (sweepCells descr ids sw).pool id' =
      if id' ∈ ids then sweptMark (poolMark sw.pool id') else poolMark sw.pool id' := by
  induction ids generalizing sw with
  | nil => simp [sweepCells]
  | cons id ids ih =>
    obtain ⟨hid, hnd⟩ := List.nodup_cons.mp hnd
    have hword := (sweepCell_header descr sw id).2.2
    have hmark := sweepCell_mark descr (hlt id List.mem_cons_self)
    have htail := ih (sweepCell descr sw id)
      (fun i hi => hword.symm ▸ hlt i (List.mem_cons_of_mem _ hi)) hnd
    rw [sweepCells, List.foldl_cons]
    refine htail.trans ?_
    rw [hmark]
    by_cases he : id' = id
    · subst he
      simp [hid]
    · simp [he]

/-! ## The words of a bitmap -/

/-- INTERNAL: the body of the loop is the visit of a cell.
SOURCE: m_gc_obj.c:403-421 -/
theorem sweepMark_eq (descr : MGCObjDescr) (sw : GCSweep) (id : ℕ)
    (hg : poolMark sw.pool id ≠ GC_MARK_GRAY) :
    gcSweepMark descr (id / 16) (loopAddr descr sw.pool.begin id) (2 * (id % 16))
      (poolMark sw.pool id) sw = .ok (sweepCell descr sw id) := by
  unfold gcSweepMark sweepCell
  by_cases hw : poolMark sw.pool id = GC_MARK_WHITE
  · rw [if_pos hw, if_pos hw]
    have hclear : (fun w : BitVec 32 => w &&& ~~~(3#32 <<< (2 * (id % 16)))) =
        fun w => setField 2 w (id % 16) GC_MARK_UNUSED := by
      funext w
      simp [setField, fieldMask_two]
    rw [hclear]
    rfl
  · rw [if_neg hw, if_neg hw]
    by_cases hb : poolMark sw.pool id = GC_MARK_BLACK
    · rw [if_pos hb, if_pos hb]
      rfl
    · rw [if_neg hb, if_neg hb, if_neg hg]

/-- INTERNAL: the rest of a word, from its mark `j` on. The marks behind the last one that is
not zero are not visited, and a visit would not change them.
SOURCE: m_gc_obj.c:400-428 -/
theorem sweepWord_eq (descr : MGCObjDescr) {w : BitVec 32} {k j : ℕ} (hjk : j + (k + 1) = 16)
    (hn : n < sw.pool.bitmap.length)
    (hw : ∀ i, j ≤ i → i < 16 → poolMark sw.pool (16 * n + i) = getField 2 w i)
    (hg : ∀ i, j ≤ i → i < 16 → getField 2 w i ≠ GC_MARK_GRAY) :
    gcSweepWord descr n (k + 1) (w >>> (2 * j)) (loopAddr descr sw.pool.begin (16 * n + j))
      (2 * j) sw = .ok (sweepCells descr (List.range' (16 * n + j) (k + 1)) sw) := by
  induction k generalizing j sw with
  | zero =>
    have hj : j = 15 := by omega
    subst hj
    have hlast : w >>> (2 * 15) >>> 2 = 0 := by
      rw [← BitVec.shiftRight_add]
      exact BitVec.ushiftRight_eq_zero (by decide)
    have hmark := sweepMark_eq descr sw (16 * n + 15)
      (by rw [hw 15 (by decide) (by decide)]; exact hg 15 (by decide) (by decide))
    rw [(by omega : (16 * n + 15) / 16 = n), (by omega : (16 * n + 15) % 16 = 15),
      hw 15 (by decide) (by decide)] at hmark
    rw [gcSweepWord, show w >>> (2 * 15) &&& 3 = getField 2 w 15 from rfl, hmark,
      Outcome.ok_bind, if_pos hlast]
    rfl
  | succ k ih =>
    have hmark := sweepMark_eq descr sw (16 * n + j)
      (by rw [hw j le_rfl (by omega)]; exact hg j le_rfl (by omega))
    rw [(by omega : (16 * n + j) / 16 = n), (by omega : (16 * n + j) % 16 = j),
      hw j le_rfl (by omega)] at hmark
    have hnext : w >>> (2 * j) >>> 2 = w >>> (2 * (j + 1)) := by
      rw [← BitVec.shiftRight_add]
      rfl
    obtain ⟨hbegin, -, hwords⟩ := sweepCell_header descr sw (16 * n + j)
    have hrest : ∀ i, j + 1 ≤ i → i < 16 →
        poolMark (sweepCell descr sw (16 * n + j)).pool (16 * n + i) = getField 2 w i := by
      intro i hji hi
      rw [sweepCell_mark descr (by omega), if_neg (by omega), hw i (by omega) hi]
    rw [gcSweepWord, show w >>> (2 * j) &&& 3 = getField 2 w j from rfl, hmark, Outcome.ok_bind,
      hnext, List.range'_succ, sweepCells, List.foldl_cons]
    by_cases hz : w >>> (2 * (j + 1)) = 0
    · -- all marks that remain are unused
      rw [if_pos hz]
      refine congrArg Except.ok (sweepCells_unused fun id hid => ?_).symm
      obtain ⟨i, hi, rfl⟩ := List.mem_range'.mp hid
      rw [Nat.one_mul, Nat.add_assoc, Nat.add_assoc, hrest _ (by omega) (by omega),
        ← Nat.add_assoc, ← getField_shiftRight, hz]
      exact getField_zero 2 _
    · rw [if_neg hz, loopAddr_succ (by omega), ← hbegin]
      exact ih (by omega) (hwords.symm ▸ hn) hrest fun i hji hi => hg i (by omega) hi

/-- INTERNAL: a word of the bitmap, also one that is skipped.
SOURCE: m_gc_obj.c:394-432 -/
theorem sweepWordAt_eq (hn : n < sw.pool.bitmap.length)
    (hg : ∀ id, poolMark sw.pool id ≠ GC_MARK_GRAY) :
    gcSweepWordAt descr sw n = .ok (sweepCells descr (List.range' (16 * n) 16) sw) := by
  have hmarks : ∀ i, 0 ≤ i → i < 16 →
      poolMark sw.pool (16 * n + i) = getField 2 sw.pool.bitmap[n] i := fun i _ hi =>
    poolMark_word hn hi
  rw [gcSweepWordAt, List.getElem?_eq_getElem hn]
  by_cases hz : sw.pool.bitmap[n] = 0
  · simp only [hz, ne_eq, not_true, if_false]
    refine congrArg Except.ok (sweepCells_unused fun id hid => ?_).symm
    obtain ⟨i, hi, rfl⟩ := List.mem_range'.mp hid
    rw [Nat.one_mul, hmarks i (Nat.zero_le _) hi, hz]
    exact getField_zero 2 _
  · simp only [ne_eq, hz, not_false_iff, if_true]
    have h := sweepWord_eq descr (k := 15) (j := 0) (by decide) hn hmarks
      fun i h0 hi => hmarks i h0 hi ▸ hg _
    simpa [loopAddr_first] using h

/-- INTERNAL: a sweep never makes a cell gray. -/
theorem sweptMark_ne_gray {mark : BitVec 32} (h : mark ≠ GC_MARK_GRAY) :
    sweptMark mark ≠ GC_MARK_GRAY := by
  unfold sweptMark
  split_ifs
  · decide
  · decide
  · exact h

/-- INTERNAL: the cells of one more word. -/
theorem range_word (m : ℕ) :
    List.range (16 * (m + 1)) = List.range (16 * m) ++ List.range' (16 * m) 16 := by
  rw [List.range_eq_range', List.range_eq_range', Nat.mul_succ]
  have happend : List.range' 0 (16 * m) ++ List.range' (0 + 1 * (16 * m)) 16 =
      List.range' 0 (16 * m + 16) := List.range'_append
  simpa using happend.symm

/-- INTERNAL: the words from the first on, as visits of the cells in order.
SOURCE: m_gc_obj.c:390-432 -/
theorem sweepWords_eq (descr : MGCObjDescr) (sw : GCSweep) {m : ℕ} (hm : m ≤ sw.pool.bitmap.length)
    (hg : ∀ id, poolMark sw.pool id ≠ GC_MARK_GRAY) :
    (List.range m).foldlM (gcSweepWordAt descr) sw =
      .ok (sweepCells descr (List.range (16 * m)) sw) := by
  induction m with
  | zero => rfl
  | succ m ih =>
    have hlt : ∀ id ∈ List.range (16 * m), id / 16 < sw.pool.bitmap.length := by
      intro id hid
      have hid' := List.mem_range.mp hid
      omega
    have hwords := (sweepCells_header descr (List.range (16 * m)) sw).2.2
    have hgray : ∀ id, poolMark (sweepCells descr (List.range (16 * m)) sw).pool id ≠
        GC_MARK_GRAY := by
      intro id
      rw [sweepCells_mark descr sw hlt List.nodup_range]
      split_ifs
      · exact sweptMark_ne_gray (hg id)
      · exact hg id
    have hcells : sweepCells descr (List.range (16 * (m + 1))) sw =
        sweepCells descr (List.range' (16 * m) 16) (sweepCells descr (List.range (16 * m)) sw) := by
      rw [range_word, sweepCells, List.foldl_append]
      rfl
    rw [List.range_succ, List.foldlM_append, ih (by omega), Outcome.ok_bind, hcells,
      List.foldlM_cons, sweepWordAt_eq (by omega) hgray]
    rfl

/-! ## What the visits did -/

/-- INTERNAL: the sweep of one cell leaves the marks of the others. -/
theorem whiteIds_sweepCell (hid : id ∉ ids) (h : id / 16 < sw.pool.bitmap.length) :
    whiteIds (sweepCell descr sw id).pool ids = whiteIds sw.pool ids := by
  refine List.filter_congr fun i hi => ?_
  rw [sweepCell_mark descr h, if_neg fun e : i = id => hid (e ▸ hi)]

/-- INTERNAL: free list, counter and finalizers after several visits. -/
theorem sweepCells_white (descr : MGCObjDescr) (sw : GCSweep)
    (hlt : ∀ id ∈ ids, id / 16 < sw.pool.bitmap.length) (hnd : ids.Nodup) :
    (sweepCells descr ids sw).pool.freeCells =
        ((whiteIds sw.pool ids).map (loopAddr descr sw.pool.begin)).reverse ++
          sw.pool.freeCells ∧
      (sweepCells descr ids sw).allocatedSize =
        sw.allocatedSize - descr.size * (whiteIds sw.pool ids).length ∧
      (sweepCells descr ids sw).log = sw.log ++ (whiteIds sw.pool ids).map fun id =>
        .final sw.pool.type (loopAddr descr sw.pool.begin id) := by
  induction ids generalizing sw with
  | nil => simp [sweepCells, whiteIds]
  | cons id ids ih =>
    obtain ⟨hid, hnd⟩ := List.nodup_cons.mp hnd
    have hltid := hlt id List.mem_cons_self
    obtain ⟨hbegin, htype, hwords⟩ := sweepCell_header descr sw id
    obtain ⟨hfree, hsize, hlog⟩ := ih (sweepCell descr sw id)
      (fun i hi => hwords.symm ▸ hlt i (List.mem_cons_of_mem _ hi)) hnd
    rw [whiteIds_sweepCell hid hltid] at hfree hsize hlog
    rw [hbegin] at hfree hlog
    rw [htype] at hlog
    have hhead := whiteIds_cons sw.pool id ids
    by_cases hw : poolMark sw.pool id = GC_MARK_WHITE
    · rw [if_pos hw] at hhead
      have hcell : sweepCell descr sw id = { sw with
          log := sw.log ++ [.final sw.pool.type (loopAddr descr sw.pool.begin id)]
          pool := { setPoolMark sw.pool id GC_MARK_UNUSED with
            freeCells := loopAddr descr sw.pool.begin id :: sw.pool.freeCells }
          allocatedSize := sw.allocatedSize - descr.size } := by
        rw [sweepCell, if_pos hw]
      refine ⟨?_, ?_, ?_⟩
      · rw [sweepCells, List.foldl_cons]
        refine hfree.trans ?_
        rw [hhead, hcell]
        simp
      · rw [sweepCells, List.foldl_cons]
        refine hsize.trans ?_
        rw [hhead, hcell, List.length_cons, Nat.mul_succ, Nat.sub_sub,
          Nat.add_comm descr.size]
      · rw [sweepCells, List.foldl_cons]
        refine hlog.trans ?_
        rw [hhead, hcell]
        simp
    · rw [if_neg hw] at hhead
      have hcell : (sweepCell descr sw id).pool.freeCells = sw.pool.freeCells ∧
          (sweepCell descr sw id).allocatedSize = sw.allocatedSize ∧
          (sweepCell descr sw id).log = sw.log := by
        rw [sweepCell, if_neg hw]
        split_ifs <;> exact ⟨rfl, rfl, rfl⟩
      rw [hcell.1] at hfree
      rw [hcell.2.1] at hsize
      rw [hcell.2.2] at hlog
      rw [hhead]
      exact ⟨hfree, hsize, hlog⟩

/-- INTERNAL: whether a black cell was met. -/
theorem sweepCells_haveBlack (descr : MGCObjDescr) (sw : GCSweep)
    (hlt : ∀ id ∈ ids, id / 16 < sw.pool.bitmap.length) (hnd : ids.Nodup) :
    (sweepCells descr ids sw).haveBlack = true ↔
      sw.haveBlack = true ∨ ∃ id ∈ ids, poolMark sw.pool id = GC_MARK_BLACK := by
  induction ids generalizing sw with
  | nil => simp [sweepCells]
  | cons id ids ih =>
    obtain ⟨hid, hnd⟩ := List.nodup_cons.mp hnd
    have hltid := hlt id List.mem_cons_self
    have hwords := (sweepCell_header descr sw id).2.2
    have htail := ih (sweepCell descr sw id)
      (fun i hi => hwords.symm ▸ hlt i (List.mem_cons_of_mem _ hi)) hnd
    have hmark : (∃ i ∈ ids, poolMark (sweepCell descr sw id).pool i = GC_MARK_BLACK) ↔
        ∃ i ∈ ids, poolMark sw.pool i = GC_MARK_BLACK := by
      refine exists_congr fun i => and_congr_right fun hi => ?_
      rw [sweepCell_mark descr hltid, if_neg fun e : i = id => hid (e ▸ hi)]
    have hhead : (sweepCell descr sw id).haveBlack = true ↔
        sw.haveBlack = true ∨ poolMark sw.pool id = GC_MARK_BLACK := by
      rw [sweepCell]
      split_ifs with h₁ h₂
      · simp [h₁]
      · simp [h₂]
      · exact ⟨Or.inl, fun h => h.resolve_right h₂⟩
    rw [sweepCells, List.foldl_cons]
    refine htail.trans ?_
    rw [hmark, hhead]
    simp [or_assoc]

end Ming.Analysis
