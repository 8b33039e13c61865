import Mathlib.Logic.Relation
import Ming.Analysis.GCPhaseRuns

/-!
# What a collection keeps

A collection of an idle heap sweeps exactly the allocated cells that the root set does not
blacken directly. Cells whose type holds pointers are blackened by a flagged new-born entry
only, and no cell is ever scanned, so a cell that is held in any other way is swept.
-/

set_option autoImplicit false

namespace Ming.Analysis

open Ming.Foundation Ming.Model Ming.Interface

variable {D : GCConfig} {s s' s₁ : GCState} {acts : List GCAction} {ω : ℕ → GCWorld}
variable {refs : Addr → List Addr} {n : ℕ} {flags : BitVec 32} {b : Bool} {t : MGCObjType}

/-- A cell: the base of its pool and its number. -/
abbrev Cell := Addr × ℕ

/-- The cell is allocated. -/
def IsAllocated (s : GCState) (c : Cell) : Prop :=
  ∃ pool, s.pools c.1 = some pool ∧ poolMark pool c.2 ≠ GC_MARK_UNUSED

/-- The type of the cell holds no pointers. -/
def PointerFree (D : GCConfig) (s : GCState) (c : Cell) : Prop :=
  ∃ pool, s.pools c.1 = some pool ∧ ¬ (D.descrs pool.type).hasPtr

/-- A new-born entry below the top of a listed thread is for the cell. -/
def NewBorn (D : GCConfig) (s : GCState) (c : Cell) : Prop :=
  ∃ word ∈ allNbWords s, PointsTo D s (nbRoot word).1 c.1 c.2

/-- Such an entry is for the cell, and flagged as not initialized. -/
def Flagged (D : GCConfig) (s : GCState) (c : Cell) : Prop :=
  ∃ word ∈ allNbWords s, word &&& GC_NB_FL_NO_PTR ≠ 0 ∧ PointsTo D s (nbRoot word).1 c.1 c.2

/-- A node of the root hash is for the cell. -/
def Rooted (D : GCConfig) (s : GCState) (c : Cell) : Prop :=
  ∃ ptr ∈ s.rootHash, PointsTo D s ptr c.1 c.2

/-- The root set holds the cell. -/
def Held (D : GCConfig) (s : GCState) (c : Cell) : Prop := NewBorn D s c ∨ Rooted D s c

/-- The cell `c` references the cell `c'`. -/
def References (D : GCConfig) (refs : Addr → List Addr) (s : GCState) (c c' : Cell) : Prop :=
  ∃ pool, s.pools c.1 = some pool ∧ ∃ ptr ∈ refs (cellAddr D pool c.2), PointsTo D s ptr c'.1 c'.2

/-- A cell that a collection has to keep: held by the root set, or referenced through a chain
from a held cell that is not flagged as not initialized. -/
def Protected (D : GCConfig) (refs : Addr → List Addr) (s : GCState) (c : Cell) : Prop :=
  Held D s c ∨ ∃ c₀, Held D s c₀ ∧ ¬ Flagged D s c₀ ∧
    Relation.TransGen (References D refs s) c₀ c

/-- The events of the log since `s`. -/
def eventsSince (s s' : GCState) : List GCEvent := s'.log.drop s.log.length

/-- The cell, which was there in `s`, has been swept between `s` and `s'`. -/
def Swept (D : GCConfig) (s s' : GCState) (c : Cell) : Prop :=
  ∃ pool, s.pools c.1 = some pool ∧ c.2 < D.cellNum pool.type ∧
    .final pool.type (cellAddr D pool c.2) ∈ eventsSince s s'

/-! ## The root set -/

/-- INTERNAL: the marks differ. -/
theorem gray_ne_black : GC_MARK_GRAY ≠ GC_MARK_BLACK := by decide

/-- INTERNAL: the root set blackens a cell directly by a flagged entry, or when the type of a
held cell holds no pointers. -/
theorem rootBlackens_iff {c : Cell} : RootBlackens D s c.1 c.2 ↔
    Flagged D s c ∨ (Held D s c ∧ PointerFree D s c) := by
  have hpool : ∀ {ptr base id}, PointsTo D s ptr base id → ∃ pool, s.pools base = some pool :=
    fun h => h.2.imp fun _ hp => hp.1
  constructor
  · rintro ⟨root, hroot, hpoints, pool, hmapped, hc⟩
    rcases List.mem_append.mp hroot with hroot | hroot
    · obtain ⟨word, hword, rfl⟩ := List.mem_map.mp hroot
      by_cases hflag : word &&& GC_NB_FL_NO_PTR ≠ 0
      · exact Or.inl ⟨word, hword, hflag, hpoints⟩
      · rw [nbRoot, if_neg hflag] at hc
        exact Or.inr ⟨Or.inl ⟨word, hword, hpoints⟩, pool, hmapped, hc.resolve_left gray_ne_black⟩
    · obtain ⟨ptr, hptr, rfl⟩ := List.mem_map.mp hroot
      exact Or.inr ⟨Or.inr ⟨ptr, hptr, hpoints⟩, pool, hmapped, hc.resolve_left gray_ne_black⟩
  · rintro (⟨word, hword, hflag, hpoints⟩ | ⟨⟨word, hword, hpoints⟩ | ⟨ptr, hptr, hpoints⟩, pool,
      hmapped, hfree⟩)
    · obtain ⟨pool, hmapped⟩ := hpool hpoints
      refine ⟨nbRoot word, List.mem_append_left _ (List.mem_map_of_mem hword), hpoints, pool,
        hmapped, Or.inl ?_⟩
      rw [nbRoot, if_pos hflag]
    · exact ⟨nbRoot word, List.mem_append_left _ (List.mem_map_of_mem hword), hpoints, pool,
        hmapped, Or.inr hfree⟩
    · exact ⟨_, List.mem_append_right _ (List.mem_map_of_mem hptr), hpoints, pool, hmapped,
        Or.inr hfree⟩

/-! ## What is swept -/

/-- INTERNAL: the log of a call that sweeps. -/
theorem Collected.events_swept (h : Collected D flags s s₁ s') (hs : Sweeps s flags) :
    ∃ bases, bases.Nodup ∧ (∀ b, b ∈ bases ↔ s₁.pools b ≠ none) ∧ PoolsSwept D bases s₁ s' ∧
      eventsSince s s' = (if MarksRoots s flags then [.markRoot] else []) ++
        bases.flatMap (finals D s₁) := by
  obtain ⟨-, bases, hnd, hmem, hswept⟩ := h.swept hs
  refine ⟨bases, hnd, hmem, hswept, ?_⟩
  rw [eventsSince, hswept.log]
  split_ifs with hm
  · rw [(h.marked hm).2.log, rootsBegun, List.append_assoc, List.drop_left]
  · rw [h.unmarked hm, List.drop_left, List.nil_append]

/-- INTERNAL: a cell is finalized exactly when it is white after marking. -/
theorem Collected.final_mem_iff (h : Collected D flags s s₁ s') (hs : Sweeps s flags)
    {a : Addr} : .final t a ∈ eventsSince s s' ↔
      ∃ base pool, s₁.pools base = some pool ∧ pool.type = t ∧ a ∈ whiteCells D pool := by
  obtain ⟨bases, -, hmem, -, hlog⟩ := h.events_swept hs
  have hmark : GCEvent.final t a ∉ (if MarksRoots s flags then [GCEvent.markRoot] else []) := by
    split_ifs <;> simp
  rw [hlog, List.mem_append, or_iff_right hmark, List.mem_flatMap]
  constructor
  · rintro ⟨base, -, hfinal⟩
    rw [finals, finalsAs] at hfinal
    cases hpool : s₁.pools base with
    | none => simp [hpool] at hfinal
    | some pool =>
      simp only [hpool, List.mem_map, GCEvent.final.injEq] at hfinal
      obtain ⟨a', ha', ht, rfl⟩ := hfinal
      exact ⟨base, pool, hpool, ht, ha'⟩
  · rintro ⟨base, pool, hpool, rfl, ha⟩
    refine ⟨base, (hmem base).mpr (by simp [hpool]), ?_⟩
    rw [finals, finalsAs]
    simp [hpool, ha]

/-- INTERNAL: the marks of an idle heap between marking and sweeping. -/
theorem Collected.mark_of_idle (h : Collected D 0 s s₁ s') (hi : GCInv D s)
    (hidle : s.status = .idle) : (∀ base, s.pools base = none → s₁.pools base = none) ∧
    ∀ base pool, s.pools base = some pool → ∃ pool₁, s₁.pools base = some pool₁ ∧
      pool₁.type = pool.type ∧ (∀ id, cellAddr D pool₁ id = cellAddr D pool id) ∧
      ∀ id, poolMark pool₁ id = GC_MARK_WHITE ↔
        poolMark pool id ≠ GC_MARK_UNUSED ∧ ¬ RootBlackens D s base id := by
  have hmarks : MarksRoots s 0 := ⟨hidle, by decide⟩
  have hb := (h.marked hmarks).2
  refine ⟨hb.unmapped, fun base pool hpool => ?_⟩
  obtain ⟨pool₁, hpool₁, hbl⟩ := hb.mapped base pool hpool
  refine ⟨pool₁, hpool₁, hbl.type_eq, fun id => ?_, fun id => ?_⟩
  · rw [cellAddr, cellAddr, hbl.begin_eq, hbl.type_eq]
  · -- an idle heap has white cells only
    have hcolour : poolMark pool id ≠ GC_MARK_UNUSED ↔ poolMark pool id = GC_MARK_WHITE := by
      constructor
      · exact fun hu => hi.heapOk.idle hidle base pool id hpool hu
      · intro hw
        rw [hw]
        decide
    rw [hcolour]
    by_cases hp : poolMark pool id = GC_MARK_WHITE ∧ RootBlackens D s base id
    · rw [hbl.black id hp.1 hp.2]
      exact iff_of_false (by decide) fun hn => hn.2 hp.2
    · rw [hbl.same id hp]
      exact ⟨fun hw => ⟨hw, fun hr => hp ⟨hw, hr⟩⟩, And.left⟩

/-- INTERNAL: a collection of an idle heap sweeps the allocated cells that the root set does
not blacken directly. -/
theorem swept_iff (hi : GCInv D s) (hidle : s.status = .idle)
    (e : gcDoCollect D refs n 0 s = .ok (b, s')) (c : Cell) :
    Swept D s s' c ↔ IsAllocated s c ∧ ¬ RootBlackens D s c.1 c.2 := by
  obtain ⟨s₁, hc⟩ := collect_spec hi e
  have hs : Sweeps s 0 := Or.inr ⟨Or.inl hidle, Or.inr (by decide)⟩
  obtain ⟨hunmapped, hmapped⟩ := hc.mark_of_idle hi hidle
  constructor
  · rintro ⟨pool, hpool, hlt, hfinal⟩
    obtain ⟨base, pool₁, hpool₁, htype, hwhite⟩ := (hc.final_mem_iff hs).mp hfinal
    obtain ⟨id, hid, haddr, hm⟩ := mem_whiteCells.mp hwhite
    cases hq : s.pools base with
    | none => exact nomatch (hunmapped base hq).symm.trans hpool₁
    | some q =>
      obtain ⟨q₁, hq₁, hqt, hqa, hqm⟩ := hmapped base q hq
      obtain rfl := Option.some.inj (hpool₁.symm.trans hq₁)
      -- the address determines the cell
      have hbase : c.1 = base := by
        rw [← (hi.heap.pool hpool).getPool_cellAddr hlt, haddr,
          (hc.heap.pool hpool₁).getPool_cellAddr hid]
      subst hbase
      obtain rfl := Option.some.inj (hq.symm.trans hpool)
      rw [hqa] at haddr
      obtain rfl := (hi.heap.pool hpool).cellAddr_inj haddr
      obtain ⟨hu, hr⟩ := (hqm c.2).mp hm
      exact ⟨⟨q, hpool, hu⟩, hr⟩
  · rintro ⟨⟨pool, hpool, hu⟩, hr⟩
    obtain ⟨pool₁, hpool₁, htype, haddr, hmark⟩ := hmapped c.1 pool hpool
    have hlt : c.2 < D.cellNum pool.type := by
      by_contra hge
      exact hu ((hi.heap.pool hpool).padding c.2 (Nat.le_of_not_lt hge))
    refine ⟨pool, hpool, hlt, (hc.final_mem_iff hs).mpr ⟨c.1, pool₁, hpool₁, htype, ?_⟩⟩
    exact mem_whiteCells.mpr ⟨c.2, htype ▸ hlt, (haddr c.2).symm, (hmark c.2).mpr ⟨hu, hr⟩⟩

/-! ## The newest cell -/

/-- INTERNAL: the cell that was handed out last is allocated, white, and has a flagged entry. -/
theorem TookCell.newest {th oid : ℕ} {cell : Addr} (h : TookCell D s th t cell oid s')
    (hth : ThreadsInv s) : ∃ base pool id, s'.pools base = some pool ∧ pool.type = t ∧
      cell = cellAddr D pool id ∧ poolMark pool id = GC_MARK_WHITE ∧ 8 ∣ cell ∧
      PointsTo D s' cell base id ∧ cell ||| GC_NB_FL_NO_PTR ∈ allNbWords s' := by
  obtain ⟨base, pool, pool', id, -, hinv, htype, hcell, htook, hpools⟩ := h.pool
  have hpool' : s'.pools base = some pool' := (congrFun hpools base).trans (if_pos rfl)
  have hinv' := htook.inv hinv
  have hcell' : cell = cellAddr D pool' id := by
    rw [hcell, cellAddr, cellAddr, htook.begin_eq, htook.type_eq]
  have hlt : id < D.cellNum pool'.type := htook.type_eq ▸ htook.lt
  obtain ⟨self, self', hself, hlist, -, hthread⟩ := h.thread
  refine ⟨base, pool', id, hpool', htook.type_eq.trans htype, hcell', ?_,
    hcell' ▸ hinv'.aligned_cellAddr id, ⟨?_, pool', hpool', ?_⟩, ?_⟩
  · rw [htook.mark, if_pos rfl]
  · rw [hcell', hinv'.getPool_cellAddr hlt]
  · rw [hcell', hinv'.getId_cellAddr]
  · rw [allNbWords, hlist]
    refine (mem_flatMap_set hself).2.1 ?_
    rw [(hthread (hth self (List.mem_of_getElem? hself))).2]
    exact List.mem_append_right _ (List.mem_singleton.mpr rfl)

/-- **What a collection has to keep, it keeps exactly when the root set blackens it
directly.** In every state of a run in which the threads come between the cases of earlier
collections as they like, a complete collection of an idle heap sweeps no cell that is held by the
root set, or referenced through a chain from an initialized held cell, if and only if every such
cell that is allocated has a flagged new-born entry, or is itself held and of a type without
pointers; unless the mark of some root cannot be read, when no collection completes.
SOURCE: m_gc_obj.c:200-278, 351-376, 378-522 -/
theorem collect_sound_iff (h : GCWorldRun D acts ω) (hp : WorldPlaced D acts ω)
    (hn : n ≤ acts.length) (hidle : (ω n).heap.status = .idle) (refs : Addr → List Addr) :
    (∀ fuel b s', gcDoCollect D refs fuel 0 (ω n).heap = .ok (b, s') →
        ∀ c, Swept D (ω n).heap s' c → ¬ Protected D refs (ω n).heap c) ↔
      (RootsResolve D (ω n).heap → ∀ c, IsAllocated (ω n).heap c →
        Protected D refs (ω n).heap c →
          Flagged D (ω n).heap c ∨ (Held D (ω n).heap c ∧ PointerFree D (ω n).heap c)) := by
  have hi := world_inv h hp hn
  constructor
  · intro hsound hroots c halloc hprot
    obtain ⟨⟨b, s'⟩, e⟩ := collect_ok hi refs 0 fun _ => hroots
    by_contra hnot
    rw [← rootBlackens_iff] at hnot
    exact hsound 1 b s' e c ((swept_iff hi hidle e c).mpr ⟨halloc, hnot⟩) hprot
  · intro hcond fuel b s' e c hswept hprot
    obtain ⟨halloc, hnot⟩ := (swept_iff hi hidle e c).mp hswept
    obtain ⟨s₁, hc⟩ := collect_spec hi e
    have hroots := (hc.marked ⟨hidle, by decide⟩).1
    exact hnot (rootBlackens_iff.mpr (hcond hroots c halloc hprot))

/-- The predicate holds of every allocated cell of a listed pool. -/
def allCells (D : GCConfig) (s : GCState) (P : Cell → Bool) : Bool :=
  gcObjTypes.all fun t => (listedPools s t).all fun base => (List.range (D.cellNum t)).all fun id =>
    hasMark s base id GC_MARK_UNUSED || P (base, id)

/-- INTERNAL: these are all allocated cells. -/
theorem allCells_spec (h : HeapInv D [] s) {P : Cell → Bool} (hall : allCells D s P = true)
    {c : Cell} (hc : IsAllocated s c) : P c = true := by
  obtain ⟨pool, hpool, hused⟩ := hc
  simp only [allCells, List.all_eq_true, Bool.or_eq_true, List.mem_range] at hall
  refine (hall pool.type (by cases pool.type <;> decide) c.1 ?_ c.2 ?_).resolve_left ?_
  · exact (h.lists.mem_type _).mpr ⟨List.not_mem_nil, pool, hpool, rfl⟩
  · by_contra hge
    exact hused ((h.pool hpool).padding c.2 (Nat.le_of_not_lt hge))
  · simpa [hasMark, hpool] using hused

/-- The cell whose mark belongs to the pointer. -/
def target (D : GCConfig) (s : GCState) (ptr : Addr) : Option Cell :=
  (s.pools (gcObjGetPool D ptr)).bind fun pool =>
    match gcObjGetId (D.descrs pool.type) pool ptr with
    | .error _ => none
    | .ok id => some (gcObjGetPool D ptr, id)

/-- INTERNAL: that is the one the pointer points to. -/
theorem target_iff {ptr : Addr} {c : Cell} :
    target D s ptr = some c ↔ PointsTo D s ptr c.1 c.2 := by
  rw [target, PointsTo]
  cases hpool : s.pools (gcObjGetPool D ptr) with
  | none =>
    refine iff_of_false (Option.some_ne_none c).symm ?_
    rintro ⟨hbase, pool, hp, -⟩
    rw [hbase, hpool] at hp
    cases hp
  | some pool =>
    rw [Option.bind_some]
    cases hid : gcObjGetId (D.descrs pool.type) pool ptr with
    | error x =>
      refine iff_of_false (Option.some_ne_none c).symm ?_
      rintro ⟨hbase, q, hq, e⟩
      rw [hbase, hpool] at hq
      obtain rfl := Option.some.inj hq
      cases hid.symm.trans e
    | ok id =>
      simp only [Option.some.injEq]
      constructor
      · rintro rfl
        exact ⟨rfl, pool, hpool, hid⟩
      · rintro ⟨hbase, q, hq, e⟩
        rw [hbase, hpool] at hq
        obtain rfl := Option.some.inj hq
        exact Prod.ext hbase.symm (Except.ok.inj (hid.symm.trans e))

/-- The root set holds the cell. -/
def isHeld (D : GCConfig) (s : GCState) (c : Cell) : Bool :=
  (allNbWords s).any (fun word => decide (target D s (nbRoot word).1 = some c)) ||
    s.rootHash.any fun ptr => decide (target D s ptr = some c)

/-- The cell has a flagged entry, or is held and of a type without pointers. -/
def isBlackened (D : GCConfig) (s : GCState) (c : Cell) : Bool :=
  (allNbWords s).any (fun word => decide (word &&& GC_NB_FL_NO_PTR ≠ 0 ∧
    target D s (nbRoot word).1 = some c)) ||
      (isHeld D s c && (s.pools c.1).any fun pool => decide ¬ (D.descrs pool.type).hasPtr)

/-- INTERNAL: the check of a held cell. -/
theorem isHeld_iff {c : Cell} : isHeld D s c = true ↔ Held D s c := by
  simp [isHeld, Held, NewBorn, Rooted, target_iff]

/-- INTERNAL: the check of a cell that the root set blackens. -/
theorem isBlackened_spec {c : Cell} (h : isBlackened D s c = true) :
    Flagged D s c ∨ (Held D s c ∧ PointerFree D s c) := by
  rw [isBlackened, Bool.or_eq_true, Bool.and_eq_true, isHeld_iff] at h
  refine h.imp (fun h => ?_) (And.imp_right fun h => ?_)
  · simpa [Flagged, target_iff] using h
  · obtain ⟨pool, hpool, hfree⟩ := (Option.any_eq_true _ _).mp h
    exact ⟨pool, hpool, of_decide_eq_true hfree⟩

/-- INTERNAL: without references only what is held is protected. -/
theorem held_of_protected {c : Cell} (h : Protected D (fun _ => []) s c) : Held D s c := by
  rcases h with h | ⟨c₀, -, -, hchain⟩
  · exact h
  · obtain ⟨_, -, _, -, ptr, hptr, -⟩ := Relation.TransGen.tail'_iff.mp hchain
    exact absurd hptr List.not_mem_nil

/-- A thread that registers itself during a collection; then four cells of three types, one with
a flagged entry, one that is a root and of a type without pointers, and two that nothing holds. -/
def mixedActs : List GCAction :=
  [.op (.alloc 0 .object (some 8192) false), .op (.run 0 false), .case, .op .threadEnter, .case,
    .case, .case, .op (.alloc 1 .double (some 4096) false),
    .op (.alloc 0 .string (some 12288) false), .op (.alloc 1 .double none false),
    .op (.setNbLevel 1 0), .op (.setNbLevel 0 1), .op (.setRoots [4264])]

/-- A collection keeps the held cells of a heap with cells of several types. -/
theorem collect_sound_iff_mixed : ∃ ω, GCWorldRun defaultConfig mixedActs ω ∧
    ∀ fuel b s', gcDoCollect defaultConfig (fun _ => []) fuel 0 (ω 13).heap = .ok (b, s') →
      ∀ c, Swept defaultConfig (ω 13).heap s' c →
        ¬ Protected defaultConfig (fun _ => []) (ω 13).heap c := by
  have hc : worldChecked defaultConfig (fun _ => []) (fun _ _ => true)
      (fun w => decide (w.heap.status = .idle) && allCells defaultConfig w.heap fun c =>
        !isHeld defaultConfig w.heap c || isBlackened defaultConfig w.heap c)
      mixedActs gcWorldStartup = true := by
    decide +kernel
  obtain ⟨ω, hrun, hplaced, -, hlast⟩ := world_of_checked (startup_inv defaultConfig) hc
  have hi := world_inv (n := 13) hrun hplaced le_rfl
  rw [Bool.and_eq_true, decide_eq_true_eq] at hlast
  refine ⟨ω, hrun, (collect_sound_iff (n := 13) hrun hplaced le_rfl hlast.1 _).mpr
    fun _ c halloc hprot => isBlackened_spec ?_⟩
  have hcell := allCells_spec hi.heap hlast.2 halloc
  rw [Bool.or_eq_true, Bool.not_eq_true'] at hcell
  refine hcell.resolve_left ?_
  rw [Bool.not_eq_false]
  exact isHeld_iff.mpr (held_of_protected hprot)

/-- An object of a type with pointers, after `m_gc_add_obj`. -/
def initializedActs : List GCAction :=
  [.op (.alloc 0 .object (some 4096) false), .op (.addObj 0 0)]

/-- An initialized object of a type with pointers is swept while its new-born entry is below
the top of its thread.
SOURCE: m_gc_obj.c:212-220 -/
theorem collect_sound_counterexample : ¬ ∀ (D : GCConfig) (acts : List GCAction)
    (ω : ℕ → GCWorld) (n : ℕ), GCWorldRun D acts ω → WorldPlaced D acts ω → n ≤ acts.length →
    (ω n).heap.status = .idle →
    ∀ refs fuel b s', gcDoCollect D refs fuel 0 (ω n).heap = .ok (b, s') →
      ∀ c, Swept D (ω n).heap s' c → ¬ Protected D refs (ω n).heap c := by
  intro hall
  have hc : worldChecked defaultConfig (fun _ => []) (fun _ _ => true)
      (fun w => decide (w.heap.status = .idle) && isHeld defaultConfig w.heap (4096, 0) &&
      (gcDoCollect defaultConfig (fun _ => []) 1 0 w.heap).check fun r =>
        (w.heap.pools 4096).any fun pool => decide (0 < defaultConfig.cellNum pool.type ∧
          .final pool.type (cellAddr defaultConfig pool 0) ∈ eventsSince w.heap r.2))
      initializedActs gcWorldStartup = true := by
    decide +kernel
  obtain ⟨ω, hrun, hplaced, -, hlast⟩ := world_of_checked (startup_inv defaultConfig) hc
  rw [Bool.and_eq_true, Bool.and_eq_true, decide_eq_true_eq] at hlast
  obtain ⟨⟨hidle, hheld⟩, hswept⟩ := hlast
  obtain ⟨⟨b, s'⟩, e, hswept⟩ := Outcome.exists_of_check hswept
  obtain ⟨pool, hpool, hfinal⟩ := (Option.any_eq_true _ _).mp hswept
  exact hall defaultConfig _ ω _ hrun hplaced le_rfl hidle _ _ b s' e (4096, 0)
    ⟨pool, hpool, of_decide_eq_true hfinal⟩ (Or.inl (isHeld_iff.mp hheld))

end Ming.Analysis
