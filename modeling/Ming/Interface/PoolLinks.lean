import Ming.Foundation.Simulation
import Ming.Interface.CellHeap
import Ming.Interface.SListSequence
import Ming.Model.GCMemory

/-!
# The links of the cell heap

What a heap with its links in memory represents: the same heap with lists. A function that
touches no link does the same to both; `LinkFree` says so, and is kept by sequencing and by
loops. The links of a pool lie in the pool, so a store into one pool leaves the lists of the
others alone.
-/

set_option autoImplicit false

namespace Ming.Interface

open Ming.Foundation Ming.Model

variable {D : GCConfig} {s s' s₁ : GCState} {pool pool' : MGCCellPool} {base a b : Addr}
variable {m m' : GCMemory}

/-! ## The heap without its lists -/

/-- The pool without its free list. -/
def unlinkedPool (pool : MGCCellPool) : MGCCellPool := { pool with freeCells := [] }

/-- The heap without its lists. -/
def unlinked (s : GCState) : GCState :=
  { s with pools := fun b => (s.pools b).map unlinkedPool, stubs := fun _ => ⟨[], []⟩ }

/-- The list that begins at a head. -/
def poolList (stubs : MGCObjType → MGCPoolStub) : PoolHead → List Addr
  | .usablePools t => (stubs t).usablePools
  | .fullPools t => (stubs t).fullPools

/-- The memory holds the heap: its links lead through the lists. -/
structure Linked (m : GCMemory) (s : GCState) : Prop where
  state : m.state = unlinked s
  pools : IsSLists m.links (poolList s.stubs)
  free : ∀ base pool, s.pools base = some pool →
    Chain m.links.next 0 (m.links.next (freeCellsAt base)) pool.freeCells

/-- INTERNAL: the lists after those of one type were replaced. -/
theorem poolList_replace (stubs : MGCObjType → MGCPoolStub) (t : MGCObjType) (stub : MGCPoolStub) :
    poolList (fun t' => if t' = t then stub else stubs t') =
      Function.update (Function.update (poolList stubs) (.usablePools t) stub.usablePools)
        (.fullPools t) stub.fullPools := by
  funext hd
  cases hd with
  | usablePools t' =>
    rw [Function.update_of_ne (by simp)]
    by_cases ht : t' = t
    · subst ht
      rw [Function.update_self, poolList, if_pos rfl]
    · rw [Function.update_of_ne (by simp [ht]), poolList, if_neg ht]
      rfl
  | fullPools t' =>
    by_cases ht : t' = t
    · subst ht
      rw [Function.update_self, poolList, if_pos rfl]
    · rw [Function.update_of_ne (by simp [ht]), Function.update_of_ne (by simp), poolList,
        if_neg ht]
      rfl

/-- The lists of two heaps are the same. -/
structure SameLists (s s' : GCState) : Prop where
  stubs : s'.stubs = s.stubs
  free : ∀ b, (s'.pools b).map MGCCellPool.freeCells = (s.pools b).map MGCCellPool.freeCells

/-- INTERNAL: nothing has changed. -/
theorem SameLists.refl (s : GCState) : SameLists s s := ⟨rfl, fun _ => rfl⟩

/-- INTERNAL: two changes that keep the lists. -/
theorem SameLists.trans (h : SameLists s s₁) (h' : SameLists s₁ s') : SameLists s s' :=
  ⟨h'.stubs.trans h.stubs, fun b => (h'.free b).trans (h.free b)⟩

/-- INTERNAL: the links hold every heap with the same lists. -/
theorem Linked.sameLists (h : Linked m s) (hl : SameLists s s') {st : GCState}
    (hst : st = unlinked s') : Linked { m with state := st } s' := by
  refine ⟨hst, hl.stubs ▸ h.pools, fun b p' hp' => ?_⟩
  have hb := hl.free b
  rw [hp', Option.map_some] at hb
  obtain ⟨p, hp, hfree⟩ := Option.map_eq_some_iff.mp hb.symm
  exact hfree ▸ h.free b p hp

/-! ## Functions that touch no link -/

/-- `u` is `s'` without its lists, and these are the lists of `s`. -/
def Unlinks (s u s' : GCState) : Prop := u = unlinked s' ∧ SameLists s s'

/-- The function neither reads nor changes a list of the heap. -/
def LinkFree (f : GCState → Outcome GCState) : Prop :=
  ∀ s, Outcome.Rel (Unlinks s) (f (unlinked s)) (f s)

/-- INTERNAL: a function that always returns. -/
theorem LinkFree.ok {g : GCState → GCState} (hg : ∀ s, g (unlinked s) = unlinked (g s))
    (hl : ∀ s, SameLists s (g s)) : LinkFree fun s => .ok (g s) :=
  fun s => Outcome.Rel.ok ⟨hg s, hl s⟩

/-- INTERNAL: one function after another. -/
theorem LinkFree.bind {f g : GCState → Outcome GCState} (hf : LinkFree f) (hg : LinkFree g) :
    LinkFree fun s => f s >>= g := by
  intro s
  apply (hf s).bind
  rintro u s₁ ⟨rfl, hl⟩ - -
  apply (hg s₁).mono
  rintro u s' ⟨rfl, hl'⟩ - -
  exact ⟨rfl, hl.trans hl'⟩

/-- INTERNAL: a loop whose rounds do not use the links. -/
theorem LinkFree.foldlM {α : Type} {f : GCState → α → Outcome GCState}
    (h : ∀ a, LinkFree fun s => f s a) (l : List α) : LinkFree fun s => l.foldlM f s := by
  induction l with
  | nil => exact LinkFree.ok (fun _ => rfl) SameLists.refl
  | cons a l ih => exact (h a).bind ih

/-- INTERNAL: a function of the state keeps the links. -/
theorem onState_links {f : GCState → Outcome GCState} (e : m.onState f = .ok m') :
    m'.links = m.links := by
  obtain ⟨s, -, e⟩ := Outcome.bind_eq_ok.mp e
  exact Except.ok.inj e ▸ rfl

/-- INTERNAL: a function that touches no link, on the heap with its links in memory. -/
theorem Linked.onState {f : GCState → Outcome GCState} (h : Linked m s) (hf : LinkFree f) :
    Outcome.Rel Linked (m.onState f) (f s) := by
  rw [GCMemory.onState, h.state, ← bind_pure (f s)]
  apply (hf s).bind
  rintro u s' ⟨hu, hl⟩ - -
  exact Outcome.Rel.ok (h.sameLists hl hu)

/-! ## The heap without its lists, access by access -/

/-- INTERNAL: a pool is loaded without its free cells. -/
theorem unlinked_load (s : GCState) (base : Addr) :
    Outcome.Rel (fun p q => p = unlinkedPool q ∧ s.pools base = some q)
      ((unlinked s).load base) (s.load base) := by
  have hu : (unlinked s).pools base = (s.pools base).map unlinkedPool := rfl
  rw [GCState.load, GCState.load, hu]
  cases s.pools base with
  | none => exact Outcome.Rel.error _ _
  | some p => exact Outcome.Rel.ok ⟨rfl, rfl⟩

/-- INTERNAL: a pool is stored without its free cells. -/
theorem unlinked_store (s : GCState) (base : Addr) (pool : MGCCellPool) :
    (unlinked s).store base (unlinkedPool pool) = unlinked (s.store base pool) := by
  have hpools : (fun b => if b = base then some (unlinkedPool pool)
      else (s.pools b).map unlinkedPool) =
      fun b => (if b = base then some pool else s.pools b).map unlinkedPool := by
    funext b
    split_ifs <;> rfl
  rw [GCState.store, GCState.store, unlinked, unlinked, hpools]

/-- INTERNAL: the lists may be changed. -/
theorem unlinked_lists (hpool : s.pools base = some pool) (free : List Addr)
    (stubs : MGCObjType → MGCPoolStub) : unlinked { s with
      pools := fun b => if b = base then some { pool with freeCells := free } else s.pools b
      stubs := stubs } = unlinked s := by
  have hpools : (fun b => (if b = base then some { pool with freeCells := free }
      else s.pools b).map unlinkedPool) = fun b => (s.pools b).map unlinkedPool := by
    funext b
    split_ifs with hb
    · rw [hb, hpool]
      rfl
    · rfl
  rw [unlinked, unlinked, hpools]

/-- INTERNAL: a pool written back with its free list. -/
theorem sameLists_store (hpool : s.pools base = some pool)
    (hfree : pool'.freeCells = pool.freeCells) : SameLists s (s.store base pool') := by
  refine ⟨rfl, fun b => ?_⟩
  by_cases hb : b = base
  · subst hb
    rw [hpool, Option.map_some, ← hfree]
    exact congrArg _ (if_pos rfl)
  · exact congrArg _ (if_neg hb)

/-- INTERNAL: a mark is set without looking at the free cells.
SOURCE: m_gc_obj.c:107-119 -/
theorem unlinked_setBitmap (pool : MGCCellPool) (id : ℕ) (flags : BitVec 32) :
    Outcome.Rel (fun p q => p = unlinkedPool q ∧ q.freeCells = pool.freeCells)
      (gcObjSetBitmap (unlinkedPool pool) id flags) (gcObjSetBitmap pool id flags) := by
  rw [gcObjSetBitmap, gcObjSetBitmap]
  by_cases h : id >>> 4 < pool.bitmap.length
  · rw [if_pos h]
    simp only [unlinkedPool, h, if_true]
    exact Outcome.Rel.ok ⟨rfl, rfl⟩
  · rw [if_neg h]
    simp only [unlinkedPool, h, if_false]
    exact Outcome.Rel.error _ _

/-! ## Marking -/

/-- INTERNAL: a push does not look at the free cells.
SOURCE: m_gc_obj.c:188-198 -/
theorem unlinked_push (D : GCConfig) (s : GCState) (ptr : Addr) :
    gcPushGrayStack D (unlinked s) ptr =
      ((gcPushGrayStack D s ptr).1, unlinked (gcPushGrayStack D s ptr).2) := by
  rw [gcPushGrayStack, gcPushGrayStack]
  by_cases h : s.grayStack.length = D.grayStackSize
  · rw [if_pos h, if_pos (show (unlinked s).grayStack.length = _ from h)]
    rfl
  · rw [if_neg h, if_neg (show ¬ (unlinked s).grayStack.length = _ from h)]
    rfl

/-- INTERNAL: a push keeps the lists.
SOURCE: m_gc_obj.c:188-198 -/
theorem sameLists_push (D : GCConfig) (s : GCState) (ptr : Addr) :
    SameLists s (gcPushGrayStack D s ptr).2 := by
  rw [gcPushGrayStack]
  split_ifs <;> exact ⟨rfl, fun _ => rfl⟩

/-- INTERNAL: **marking a cell** touches no link.
SOURCE: m_gc_obj.c:201-222 -/
theorem linkFree_markWithColor (ptr : Addr) (color : BitVec 32) :
    LinkFree fun s => gcMarkWithColor D s ptr color := by
  intro s
  simp only [gcMarkWithColor]
  apply (unlinked_load s (gcObjGetPool D ptr)).bind
  rintro u pool ⟨rfl, hpool⟩ - -
  -- the number and the mark of the cell do not depend on the free list
  apply Outcome.Rel.bind_same (x := gcObjGetId (D.descrs pool.type) pool ptr)
  intro id _
  apply Outcome.Rel.bind_same (x := gcObjGetBitmap pool id)
  intro flags _
  apply Outcome.Rel.ite
  · intro _
    apply (unlinked_setBitmap pool id _).bind
    rintro u pool' ⟨rfl, hfree⟩ - -
    have hlists := sameLists_store hpool hfree
    apply Outcome.Rel.ite
    · intro _
      rw [unlinked_store, unlinked_push]
      exact Outcome.Rel.ok ⟨rfl, hlists.trans (sameLists_push D _ ptr)⟩
    · intro _
      rw [unlinked_store]
      exact Outcome.Rel.ok ⟨rfl, hlists⟩
  · intro _
    exact Outcome.Rel.ok ⟨rfl, SameLists.refl s⟩

/-- INTERNAL: marking does not use the links.
SOURCE: m_gc_obj.c:225-229 -/
theorem linkFree_gcMark (ptr : Addr) : LinkFree fun s => gcMark D s ptr :=
  linkFree_markWithColor ptr GC_MARK_GRAY

/-- INTERNAL: a word of a new-born stack. -/
theorem linkFree_markNbAt (th : MThread) (i : ℕ) : LinkFree fun s => gcMarkNbAt D th s i := by
  intro s
  simp only [gcMarkNbAt]
  cases th.nbStack[i]? with
  | none => exact Outcome.Rel.error _ _
  | some word =>
    apply Outcome.Rel.ite
    · intro _
      exact linkFree_markWithColor _ _ s
    · intro _
      exact linkFree_gcMark _ s

/-- INTERNAL: marking the new-born stacks does not use the links.
SOURCE: m_gc_obj.c:232-255 -/
theorem linkFree_markNbStacks : LinkFree (gcMarkNbStacks D) := fun s =>
  LinkFree.foldlM (fun th => LinkFree.foldlM (linkFree_markNbAt th) _) s.threadList s

/-- INTERNAL: marking the root table does not use the links.
SOURCE: m_gc_obj.c:258-267 -/
theorem linkFree_markRootHash : LinkFree (gcMarkRootHash D) := fun s =>
  LinkFree.foldlM linkFree_gcMark s.rootHash s

/-- INTERNAL: **marking the roots** touches no link.
SOURCE: m_gc_obj.c:232-278 -/
theorem linkFree_markRoot : LinkFree (gcMarkRoot D) := by
  have hbegin : LinkFree fun s =>
      .ok { s with needScanGray := false, log := s.log ++ [.markRoot] } :=
    LinkFree.ok (fun _ => rfl) fun _ => ⟨rfl, fun _ => rfl⟩
  exact hbegin.bind (linkFree_markNbStacks.bind linkFree_markRootHash)

end Ming.Interface
