import Ming.Interface.CellHeap
import Ming.Interface.NewBornStack

/-!
# Marking the roots

`gc_mark_with_color` blackens a white cell when it is asked to, or when its type holds no
pointers; asked to make a cell of another type gray, it leaves it white. The marks after
`gc_mark_root` are therefore those before with the directly blackened cells made black.
-/

set_option autoImplicit false

namespace Ming.Analysis

open Ming.Foundation Ming.Model Ming.Interface

variable {D : GCConfig} {s s' s'' : GCState} {pool pool' : MGCCellPool} {id : ℕ}
variable {ptr base : Addr} {color : BitVec 32} {P Q : Addr → ℕ → Prop}

/-- `ptr` lies in the cell `id` of the pool at `base`, as `gc_obj_get_pool` and `gc_obj_get_id`
compute it. -/
def PointsTo (D : GCConfig) (s : GCState) (ptr base : Addr) (id : ℕ) : Prop :=
  base = gcObjGetPool D ptr ∧
    ∃ pool, s.pools base = some pool ∧ gcObjGetId (D.descrs pool.type) pool ptr = .ok id

/-- The mark that belongs to `ptr` can be read: the pool is mapped, and the number lies in its
bitmap. -/
def Resolves (D : GCConfig) (s : GCState) (ptr : Addr) : Prop :=
  ∃ base id pool, PointsTo D s ptr base id ∧ s.pools base = some pool ∧
    id / 16 < pool.bitmap.length

/-- Marking `ptr` with `color` blackens the cell if it is white. -/
def Blackens (D : GCConfig) (s : GCState) (root : Addr × BitVec 32) (base : Addr) (id : ℕ) :
    Prop :=
  PointsTo D s root.1 base id ∧
    ∃ pool, s.pools base = some pool ∧ (root.2 = GC_MARK_BLACK ∨ ¬ (D.descrs pool.type).hasPtr)

/-- `pool'` is `pool` with the white cells of `P` made black. -/
structure PoolBlackened (P : ℕ → Prop) (pool pool' : MGCCellPool) : Prop where
  freeCells : pool'.freeCells = pool.freeCells
  begin_eq : pool'.begin = pool.begin
  type_eq : pool'.type = pool.type
  words : pool'.bitmap.length = pool.bitmap.length
  black : ∀ id, poolMark pool id = GC_MARK_WHITE → P id → poolMark pool' id = GC_MARK_BLACK
  same : ∀ id, ¬ (poolMark pool id = GC_MARK_WHITE ∧ P id) → poolMark pool' id = poolMark pool id

/-- `s'` is `s` with the white cells of `P` made black. -/
structure Blackened (P : Addr → ℕ → Prop) (s s' : GCState) : Prop where
  unmapped : ∀ base, s.pools base = none → s'.pools base = none
  mapped : ∀ base pool, s.pools base = some pool →
    ∃ pool', s'.pools base = some pool' ∧ PoolBlackened (P base) pool pool'
  stubs : s'.stubs = s.stubs
  grayStack : s'.grayStack = s.grayStack
  needScanGray : s'.needScanGray = s.needScanGray
  allocatedSize : s'.allocatedSize = s.allocatedSize
  lastAllocatedSize : s'.lastAllocatedSize = s.lastAllocatedSize
  threadList : s'.threadList = s.threadList
  rootHash : s'.rootHash = s.rootHash
  log : s'.log = s.log

/-! ## Blackening in general -/

/-- INTERNAL: nothing is blackened. -/
theorem PoolBlackened.refl {P : ℕ → Prop} (pool : MGCCellPool) (h : ∀ id, ¬ P id) :
    PoolBlackened P pool pool :=
  ⟨rfl, rfl, rfl, rfl, fun id _ hp => absurd hp (h id), fun _ _ => rfl⟩

/-- INTERNAL: nothing is blackened in any pool. -/
theorem Blackened.refl (s : GCState) (h : ∀ base id, ¬ P base id) : Blackened P s s :=
  ⟨fun _ hb => hb, fun base pool hp => ⟨pool, hp, PoolBlackened.refl pool (h base)⟩,
    rfl, rfl, rfl, rfl, rfl, rfl, rfl, rfl⟩

/-- INTERNAL: first some cells of a pool, then others. -/
theorem PoolBlackened.trans {P Q : ℕ → Prop} {pool'' : MGCCellPool}
    (h : PoolBlackened P pool pool') (h' : PoolBlackened Q pool' pool'') :
    PoolBlackened (fun id => P id ∨ Q id) pool pool'' := by
  refine ⟨h'.freeCells.trans h.freeCells, h'.begin_eq.trans h.begin_eq,
    h'.type_eq.trans h.type_eq, h'.words.trans h.words, fun id hw hpq => ?_, fun id hn => ?_⟩
  · by_cases hp : P id
    · have hb := h.black id hw hp
      rw [h'.same id fun hq => absurd (hb.symm.trans hq.1) (by decide), hb]
    · have hs := h.same id fun hq => hp hq.2
      exact h'.black id (hs.trans hw) (hpq.resolve_left hp)
  · have hs := h.same id fun hp => hn ⟨hp.1, Or.inl hp.2⟩
    rw [h'.same id fun hq => hn ⟨hs.symm.trans hq.1, Or.inr hq.2⟩, hs]

/-- INTERNAL: first some cells, then others. -/
theorem Blackened.trans (h : Blackened P s s') (h' : Blackened Q s' s'') :
    Blackened (fun base id => P base id ∨ Q base id) s s'' := by
  refine ⟨fun b hb => h'.unmapped b (h.unmapped b hb), fun b p hp => ?_, h'.stubs.trans h.stubs,
    h'.grayStack.trans h.grayStack, h'.needScanGray.trans h.needScanGray,
    h'.allocatedSize.trans h.allocatedSize, h'.lastAllocatedSize.trans h.lastAllocatedSize,
    h'.threadList.trans h.threadList, h'.rootHash.trans h.rootHash, h'.log.trans h.log⟩
  obtain ⟨p', hp', hb⟩ := h.mapped b p hp
  obtain ⟨p'', hp'', hb'⟩ := h'.mapped b p' hp'
  exact ⟨p'', hp'', hb.trans hb'⟩

/-- INTERNAL: the same cells, named in another way. -/
theorem Blackened.congr (h : Blackened P s s') (hpq : ∀ base id, P base id ↔ Q base id) :
    Blackened Q s s' := by
  obtain rfl : P = Q := funext fun b => funext fun i => propext (hpq b i)
  exact h

/-- INTERNAL: where a pointer points to does not depend on marks. -/
theorem Blackened.pointsTo_iff (h : Blackened P s s') (ptr base : Addr) (id : ℕ) :
    PointsTo D s' ptr base id ↔ PointsTo D s ptr base id := by
  refine and_congr_right fun _ => ?_
  cases hpool : s.pools base with
  | none => simp [h.unmapped base hpool]
  | some pool =>
    obtain ⟨pool', hpool', hb⟩ := h.mapped base pool hpool
    simp [hpool', gcObjGetId, hb.type_eq, hb.begin_eq]

/-- INTERNAL: what marking a root blackens does not depend on marks. -/
theorem Blackened.blackens_iff (h : Blackened P s s') (root : Addr × BitVec 32) (base : Addr)
    (id : ℕ) : Blackens D s' root base id ↔ Blackens D s root base id := by
  refine and_congr (h.pointsTo_iff root.1 base id) ?_
  cases hpool : s.pools base with
  | none => simp [h.unmapped base hpool]
  | some pool =>
    obtain ⟨pool', hpool', hb⟩ := h.mapped base pool hpool
    simp [hpool', hb.type_eq]

/-- INTERNAL: whether a mark can be read does not depend on marks. -/
theorem Blackened.resolves_iff (h : Blackened P s s') (ptr : Addr) :
    Resolves D s' ptr ↔ Resolves D s ptr := by
  refine exists_congr fun base => exists_congr fun id => ?_
  simp only [h.pointsTo_iff]
  cases hpool : s.pools base with
  | none => simp [h.unmapped base hpool]
  | some pool =>
    obtain ⟨pool', hpool', hb⟩ := h.mapped base pool hpool
    simp [hpool', hb.words]

/-- INTERNAL: black cells are not unused. -/
theorem PoolBlackened.unused_iff {P : ℕ → Prop} (h : PoolBlackened P pool pool') (id : ℕ) :
    poolMark pool' id = GC_MARK_UNUSED ↔ poolMark pool id = GC_MARK_UNUSED := by
  by_cases hb : poolMark pool id = GC_MARK_WHITE ∧ P id
  · rw [h.black id hb.1 hb.2, hb.1]
    decide
  · rw [h.same id hb]

/-- INTERNAL: blackening a pool keeps its invariant. -/
theorem PoolBlackened.inv {P : ℕ → Prop} (h : PoolBlackened P pool pool')
    (hp : PoolInv D base pool) : PoolInv D base pool' := by
  have haddr : ∀ id, cellAddr D pool' id = cellAddr D pool id := fun id => by
    rw [cellAddr, cellAddr, h.begin_eq, h.type_eq]
  refine ⟨hp.aligned, h.type_eq ▸ hp.size_pos, ?_, ?_, fun id hid => ?_,
    h.freeCells ▸ hp.free_nodup,
    fun a => ?_⟩
  · rw [h.begin_eq, h.type_eq, hp.begin_eq]
  · rw [h.words, h.type_eq, hp.words]
  · rw [h.unused_iff, hp.padding id (h.type_eq ▸ hid)]
  · rw [h.freeCells, h.type_eq, hp.mem_free]
    simp only [haddr, h.unused_iff]

/-- INTERNAL: blackening keeps the invariant of the heap. -/
theorem Blackened.heapInv {todo : List Addr} (h : Blackened P s s') (hi : HeapInv D todo s) :
    HeapInv D todo s' := by
  have hpools : ∀ b, (s'.pools b = none ∧ s.pools b = none) ∨
      ∃ p p', s.pools b = some p ∧ s'.pools b = some p' ∧
        PoolBlackened (P b) p p' := by
    intro b
    cases hb : s.pools b with
    | none => exact Or.inl ⟨h.unmapped b hb, rfl⟩
    | some p =>
      obtain ⟨p', hp', hbl⟩ := h.mapped b p hb
      exact Or.inr ⟨p, p', rfl, hp', hbl⟩
  refine ⟨fun {b p'} hp' => ?_, ?_, ?_⟩
  · rcases hpools b with ⟨hn, -⟩ | ⟨p, q, hp, hq, hbl⟩
    · exact nomatch hn.symm.trans hp'
    · obtain rfl := Option.some.inj (hq.symm.trans hp')
      exact hbl.inv (hi.pool hp)
  · rw [h.stubs]
    refine hi.lists.congr fun b => ?_
    rcases hpools b with ⟨hn, hn'⟩ | ⟨p, q, hp, hq, hbl⟩
    · rw [hn, hn']
    · rw [hp, hq, Option.map_some, Option.map_some, hbl.type_eq, hbl.freeCells]
  · rw [h.allocatedSize]
    obtain ⟨mapped, hnd, hmem, hsum⟩ := hi.bytes
    refine ⟨mapped, hnd, fun b => (hmem b).trans ?_, hsum.trans ?_⟩
    · rcases hpools b with ⟨hn, hn'⟩ | ⟨p, q, hp, hq, -⟩
      · rw [hn, hn']
      · rw [hp, hq]
        simp
    · refine congrArg List.sum (List.map_congr_left fun b _ => ?_)
      rcases hpools b with ⟨hn, hn'⟩ | ⟨p, q, hp, hq, hbl⟩
      · rw [bytesAt, bytesAt, hn, hn']
      · simp only [bytesAt, hp, hq, poolBytes, hbl.type_eq, ne_eq, hbl.unused_iff]

/-! ## Marking one pointer -/

/-- INTERNAL: `gc_mark_with_color` returns when the mark can be read.
SOURCE: m_gc_obj.c:201-222 -/
theorem markWithColor_ok (h : Resolves D s ptr) (color : BitVec 32) :
    ∃ s', gcMarkWithColor D s ptr color = .ok s' := by
  obtain ⟨_, id, pool, ⟨rfl, _, hpool', hid⟩, hpool, hlt⟩ := h
  obtain rfl := Option.some.inj (hpool.symm.trans hpool')
  rw [gcMarkWithColor, GCState.load, hpool]
  simp only [Outcome.ok_bind, hid, getBitmap_eq hlt, setBitmap_eq hlt]
  split_ifs <;> exact ⟨_, rfl⟩

/-- INTERNAL: `gc_mark_with_color` only returns when the mark can be read. -/
theorem resolves_of_markWithColor (h : gcMarkWithColor D s ptr color = .ok s') :
    Resolves D s ptr := by
  simp only [gcMarkWithColor, Outcome.bind_eq_ok] at h
  obtain ⟨pool, hload, id, hid, flags, hflags, -⟩ := h
  have hpool : s.pools (gcObjGetPool D ptr) = some pool := by
    rw [GCState.load] at hload
    split at hload
    · exact nomatch hload
    · next p hp => rw [hp, Except.ok.inj hload]
  exact ⟨_, id, pool, ⟨rfl, pool, hpool, hid⟩, hpool, (of_getBitmap hflags).1⟩

/-- INTERNAL: what `gc_mark_with_color` does to the heap. A cell whose type holds pointers
keeps its white mark unless `color` is black.
SOURCE: m_gc_obj.c:201-222 -/
theorem markWithColor_blackened (h : gcMarkWithColor D s ptr color = .ok s') :
    Blackened (Blackens D s (ptr, color)) s s' := by
  obtain ⟨_, id, pool, ⟨rfl, _, hpool', hid⟩, hpool, hlt⟩ := resolves_of_markWithColor h
  obtain rfl := Option.some.inj (hpool.symm.trans hpool')
  have hblackens : ∀ b i, Blackens D s (ptr, color) b i ↔ b = gcObjGetPool D ptr ∧ i = id ∧
      (color = GC_MARK_BLACK ∨ ¬ (D.descrs pool.type).hasPtr) := by
    intro b i
    rw [Blackens, PointsTo]
    constructor
    · rintro ⟨⟨rfl, p, hp, hi⟩, q, hq, hc⟩
      obtain rfl := Option.some.inj (hpool.symm.trans hp)
      obtain rfl := Option.some.inj (hpool.symm.trans hq)
      exact ⟨rfl, Except.ok.inj (hi.symm.trans hid), hc⟩
    · rintro ⟨rfl, rfl, hc⟩
      exact ⟨⟨rfl, pool, hpool, hid⟩, pool, hpool, hc⟩
  rw [gcMarkWithColor, GCState.load, hpool] at h
  simp only [Outcome.ok_bind, hid, getBitmap_eq hlt, setBitmap_eq hlt] at h
  by_cases hw : poolMark pool id = GC_MARK_WHITE
  · rw [if_pos hw] at h
    by_cases hc : color = GC_MARK_BLACK ∨ ¬ (D.descrs pool.type).hasPtr
    · rw [if_pos hc, if_neg (by decide)] at h
      obtain rfl := Except.ok.inj h
      refine ⟨fun b hb => ?_, fun b p hp => ?_, rfl, rfl, rfl, rfl, rfl, rfl, rfl, rfl⟩
      · have hne : b ≠ gcObjGetPool D ptr := by
          rintro rfl
          exact nomatch hb.symm.trans hpool
        exact (if_neg hne).trans hb
      · by_cases hb : b = gcObjGetPool D ptr
        · subst hb
          obtain rfl := Option.some.inj (hpool.symm.trans hp)
          refine ⟨_, if_pos rfl, rfl, rfl, rfl, setPoolMark_words .., fun i _ hi => ?_,
            fun i hi => ?_⟩
          · rw [poolMark_set rfl hlt, if_pos ((hblackens _ i).mp hi).2.1]
          · rw [poolMark_set rfl hlt]
            refine if_neg fun e => hi ?_
            subst e
            exact ⟨hw, (hblackens _ i).mpr ⟨rfl, rfl, hc⟩⟩
        · exact ⟨p, (if_neg hb).trans hp,
            PoolBlackened.refl p fun i hi => hb ((hblackens b i).mp hi).1⟩
    · -- the white mark is written back
      rw [if_neg hc, hw, if_neg (by decide), ← hw, setPoolMark_self] at h
      obtain rfl := Except.ok.inj h
      have hstore : s.store (gcObjGetPool D ptr) pool = s := by
        have hfun : (fun b => if b = gcObjGetPool D ptr then some pool else s.pools b) =
            s.pools := by
          funext b
          split_ifs with hb
          · rw [hb, hpool]
          · rfl
        rw [GCState.store, hfun]
      rw [hstore]
      exact Blackened.refl s fun b i hi => hc ((hblackens b i).mp hi).2.2
  · rw [if_neg hw] at h
    obtain rfl := Except.ok.inj h
    refine ⟨fun _ hb => hb, fun b p hp => ⟨p, hp, ?_⟩, rfl, rfl, rfl, rfl, rfl, rfl, rfl, rfl⟩
    refine ⟨rfl, rfl, rfl, rfl, fun i hwi hi => ?_, fun _ _ => rfl⟩
    obtain ⟨rfl, rfl, -⟩ := (hblackens b i).mp hi
    obtain rfl := Option.some.inj (hpool.symm.trans hp)
    exact absurd hwi hw

/-! ## Marking all roots -/

/-- All roots in the order in which they are marked. -/
def gcRoots (s : GCState) : List (Addr × BitVec 32) :=
  (allNbWords s).map nbRoot ++ s.rootHash.map fun ptr => (ptr, GC_MARK_GRAY)

/-- The new-born stacks of all listed threads. -/
def ThreadsInv (s : GCState) : Prop := ∀ th ∈ s.threadList, ThreadInv th

/-- The marks of all roots can be read. -/
def RootsResolve (D : GCConfig) (s : GCState) : Prop := ∀ root ∈ gcRoots s, Resolves D s root.1

/-- The root set blackens the cell directly: a flagged new-born entry is for it, or an entry
or a root node is and its type holds no pointers. -/
def RootBlackens (D : GCConfig) (s : GCState) (base : Addr) (id : ℕ) : Prop :=
  ∃ root ∈ gcRoots s, Blackens D s root base id

/-- The state in which the marking of the roots begins. -/
def rootsBegun (s : GCState) : GCState :=
  { s with needScanGray := false, log := s.log ++ [.markRoot] }

/-- INTERNAL: a list of roots is marked when all of them can be read. -/
theorem markAll_ok {roots : List (Addr × BitVec 32)} (h : ∀ root ∈ roots, Resolves D s root.1) :
    ∃ s', roots.foldlM (fun s root => gcMarkWithColor D s root.1 root.2) s = .ok s' := by
  induction roots generalizing s with
  | nil => exact ⟨s, rfl⟩
  | cons root roots ih =>
    obtain ⟨s₁, e₁⟩ := markWithColor_ok (h root List.mem_cons_self) root.2
    have hb := markWithColor_blackened e₁
    obtain ⟨s₂, e₂⟩ := ih fun r hr => (hb.resolves_iff r.1).mpr (h r (List.mem_cons_of_mem _ hr))
    refine ⟨s₂, ?_⟩
    rw [List.foldlM_cons, e₁]
    exact e₂

/-- INTERNAL: a list of roots blackens what its members blacken. -/
theorem markAll_blackened {roots : List (Addr × BitVec 32)}
    (h : roots.foldlM (fun s root => gcMarkWithColor D s root.1 root.2) s = .ok s') :
    (∀ root ∈ roots, Resolves D s root.1) ∧
      Blackened (fun base id => ∃ root ∈ roots, Blackens D s root base id) s s' := by
  induction roots generalizing s with
  | nil =>
    obtain rfl := Except.ok.inj h
    exact ⟨fun _ hr => absurd hr List.not_mem_nil,
      Blackened.refl s fun _ _ ⟨_, hr, _⟩ => List.not_mem_nil hr⟩
  | cons root roots ih =>
    rw [List.foldlM_cons, Outcome.bind_eq_ok] at h
    obtain ⟨s₁, e₁, e₂⟩ := h
    have hb := markWithColor_blackened e₁
    obtain ⟨hres, hb'⟩ := ih e₂
    refine ⟨fun r hr => ?_, (hb.trans hb').congr fun b i => ?_⟩
    · rcases List.mem_cons.mp hr with rfl | hr
      · exact resolves_of_markWithColor e₁
      · exact (hb.resolves_iff r.1).mp (hres r hr)
    · simp only [hb.blackens_iff, List.mem_cons, exists_eq_or_imp]

/-- INTERNAL: the words of one new-born stack.
SOURCE: m_gc_obj.c:240-253 -/
theorem markNbStack_eq {th : MThread} (h : th.nbTop ≤ th.nbStack.length) (s : GCState) :
    gcMarkNbStack D s th = ((nbWords th).map nbRoot).foldlM
      (fun s root => gcMarkWithColor D s root.1 root.2) s := by
  have hword : ∀ s word, gcMarkNbWord D s word =
      gcMarkWithColor D s (nbRoot word).1 (nbRoot word).2 := by
    intro s word
    rw [gcMarkNbWord, nbRoot]
    split_ifs <;> rfl
  have hrange : ∀ n, n ≤ th.nbStack.length → (List.range n).foldlM (gcMarkNbAt D th) s =
      (th.nbStack.take n).foldlM (gcMarkNbWord D) s := by
    intro n hn
    induction n with
    | zero => rfl
    | succ n ih =>
      rw [List.range_succ, List.foldlM_append, ih (by omega),
        List.take_succ_eq_append_getElem (by omega), List.foldlM_append]
      refine congrArg _ (funext fun s => ?_)
      rw [List.foldlM_cons, List.foldlM_cons, gcMarkNbAt, List.getElem?_eq_getElem (by omega)]
      rfl
  rw [gcMarkNbStack, hrange _ h, List.foldlM_map]
  exact congrArg (fun f => List.foldlM f s _) (funext fun s => funext (hword s))

/-- INTERNAL: `gc_mark_root` marks the roots one after the other.
SOURCE: m_gc_obj.c:232-278 -/
theorem markRoot_eq (h : ThreadsInv s) : gcMarkRoot D s = (gcRoots s).foldlM
    (fun s root => gcMarkWithColor D s root.1 root.2) (rootsBegun s) := by
  have hstacks : ∀ (ths : List MThread) (s : GCState),
      (∀ th ∈ ths, th.nbTop ≤ th.nbStack.length) → ths.foldlM (gcMarkNbStack D) s =
        ((ths.flatMap nbWords).map nbRoot).foldlM
          (fun s root => gcMarkWithColor D s root.1 root.2) s := by
    intro ths
    induction ths with
    | nil => intro _ _; rfl
    | cons th ths ih =>
      intro s hths
      rw [List.foldlM_cons, List.flatMap_cons, List.map_append, List.foldlM_append,
        markNbStack_eq (hths th List.mem_cons_self)]
      exact congrArg _ (funext fun s => ih s fun t ht => hths t (List.mem_cons_of_mem _ ht))
  have hhash : ∀ s : GCState, gcMarkRootHash D s =
      (s.rootHash.map fun ptr => (ptr, GC_MARK_GRAY)).foldlM
        (fun s root => gcMarkWithColor D s root.1 root.2) s := fun s => by
    rw [gcMarkRootHash, List.foldlM_map]
    rfl
  rw [gcMarkRoot, gcRoots, List.foldlM_append]
  have hnb := hstacks s.threadList (rootsBegun s) fun th hth => (h th hth).top
  rw [show gcMarkNbStacks D { s with needScanGray := false, log := s.log ++ [.markRoot] } =
    ((allNbWords s).map nbRoot).foldlM (fun s root => gcMarkWithColor D s root.1 root.2)
      (rootsBegun s) from hnb]
  cases e : ((allNbWords s).map nbRoot).foldlM
      (fun s root => gcMarkWithColor D s root.1 root.2) (rootsBegun s) with
  | error f => rfl
  | ok s₁ =>
    -- marking does not change the root hash
    have hroot : s₁.rootHash = s.rootHash := (markAll_blackened e).2.rootHash
    rw [Outcome.ok_bind, Outcome.ok_bind, hhash, hroot]

/-- INTERNAL: marking the roots returns.
SOURCE: m_gc_obj.c:270-278 -/
theorem markRoot_ok (h : ThreadsInv s) (hr : RootsResolve D s) :
    ∃ s', gcMarkRoot D s = .ok s' := by
  rw [markRoot_eq h]
  exact markAll_ok hr

/-- INTERNAL: the marking of the roots blackens what the roots blacken directly.
SOURCE: m_gc_obj.c:270-278 -/
theorem markRoot_blackened (h : ThreadsInv s) (e : gcMarkRoot D s = .ok s') :
    RootsResolve D s ∧ Blackened (RootBlackens D s) (rootsBegun s) s' := by
  rw [markRoot_eq h] at e
  exact markAll_blackened e

end Ming.Analysis
