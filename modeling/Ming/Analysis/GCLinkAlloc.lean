import Ming.Analysis.GCLinks

/-!
# Allocation over the links in memory

An allocation reads and writes the links that the lists of the heap stand for, so it hands out
the same cell as the allocation over lists, and fails where that one fails. Its stores go into
pool headers and into pools that are new.
-/

set_option autoImplicit false

namespace Ming.Analysis

open Ming.Foundation Ming.Model Ming.Interface

variable {D : GCConfig} {s s' s₁ : GCState} {pool pool' : MGCCellPool} {base a b : ℕ}
variable {m m' : GCMemory} {th : ℕ} {type : MGCObjType} {map : Option Addr}

/-- Two results of `gc_alloc_obj` without the collection: the same cell at the same place of the
new-born stack, and linked heaps; words outside of the header of the pool are left alone. -/
def TookBoth (m : GCMemory) (base : Addr) (r : Addr × ℕ × GCMemory) (r' : Addr × ℕ × GCState) :
    Prop :=
  r.1 = r'.1 ∧ r.2.1 = r'.2.1 ∧ Linked r.2.2 r'.2.2 ∧
    ∀ a, a ≠ base → a ≠ freeCellsAt base → r.2.2.links.next a = m.links.next a

/-- What is done with the cell that was popped: on the new-born stack, white and counted. -/
def markTaken (D : GCConfig) (th : ℕ) (self : MThread) (type : MGCObjType) (base cell : Addr)
    (s : GCState) : Outcome GCState := do
  let s := s.setThread th self
  let pool ← s.load base
  let id ← gcObjGetId (D.descrs type) pool cell
  let pool ← gcObjSetBitmap pool id GC_MARK_WHITE
  let s := s.store base pool
  pure { s with
    allocatedSize := s.allocatedSize + (D.descrs type).size
    log := s.log ++ [.alloc cell] }

/-- INTERNAL: handing out a cell that was popped touches no link.
SOURCE: m_gc_obj.c:625-636 -/
theorem linkFree_markTaken (D : GCConfig) (th : ℕ) (self : MThread) (type : MGCObjType)
    (base cell : Addr) : LinkFree (markTaken D th self type base cell) := by
  intro s
  apply (unlinked_load (s.setThread th self) base).bind
  rintro u pool ⟨rfl, hpool⟩ - -
  apply Outcome.Rel.bind_same (x := gcObjGetId (D.descrs type) pool cell)
  intro id _
  apply (unlinked_setBitmap pool id GC_MARK_WHITE).bind
  rintro u pool' ⟨rfl, hfree⟩ - -
  have hlists := sameLists_store hpool hfree
  have hstore := unlinked_store (s.setThread th self) base pool'
  refine Outcome.Rel.ok ⟨?_, hlists.stubs, hlists.free⟩
  exact congrArg (fun u : GCState => { u with
    allocatedSize := u.allocatedSize + (D.descrs type).size
    log := u.log ++ [GCEvent.alloc cell] }) hstore

/-- INTERNAL: **a cell of the first usable pool**.
SOURCE: m_gc_obj.c:595-636 -/
theorem takeCell_linked {rest : List Addr} (h : Linked m s) (hi : HeapInv D [] s)
    (hpool : s.pools base = some pool) (hu : (s.stubs type).usablePools = base :: rest) :
    Outcome.Rel (TookBoth m base) (m.gcTakeCell D th type base) (gcTakeCell D s th type base) := by
  have hself : mThreadSelf m.state th = mThreadSelf s th := by
    rw [h.state]
    rfl
  obtain ⟨cell, free, hfree⟩ : ∃ cell free, pool.freeCells = cell :: free := by
    obtain ⟨-, p, hp, -, hf⟩ :=
      (hi.lists.mem type false base).mp (by rw [stubList, hu]; exact List.mem_cons_self)
    obtain rfl := Option.some.inj (hpool.symm.trans hp)
    exact List.exists_cons_of_ne_nil (of_decide_eq_false hf)
  obtain ⟨m₁, s₁, em, es, h₁, hframe⟩ := popCell_linked h hi hpool hu hfree
  rw [GCMemory.gcTakeCell, gcTakeCell, hself]
  apply Outcome.Rel.bind_same
  intro self _
  simp only [em, es, Outcome.ok_bind]
  apply Outcome.Rel.bind_same
  intro self' _
  have hrest := h₁.onState (linkFree_markTaken D th self' type base cell)
  have hboth := hrest.bind (S := TookBoth m base)
    (f := fun m => pure (cell, (nbReserve self).nbTop, m))
    (g := fun s => pure (cell, (nbReserve self).nbTop, s)) fun m₂ s₂ hl e _ =>
      Outcome.Rel.ok ⟨rfl, rfl, hl, fun a ha ha' => onState_links e ▸ hframe a ha ha'⟩
  simpa only [GCMemory.onState, markTaken, bind_assoc, pure_bind] using hboth

/-- INTERNAL: only a type with cells of positive size can be allocated. -/
theorem takeCell_memory_size_pos {r : Addr × ℕ × GCMemory}
    (e : m.gcTakeCell D th type base = .ok r) : 0 < (D.descrs type).size := by
  simp only [GCMemory.gcTakeCell, Outcome.bind_eq_ok] at e
  obtain ⟨_, _, ⟨_, _⟩, _, _, _, pool, _, id, hid, _⟩ := e
  by_contra hzero
  unfold gcObjGetId at hid
  split_ifs at hid with h₁ h₂
  exact hzero (Nat.pos_of_ne_zero h₂)

/-- INTERNAL: only a pool with a free cell can be used. -/
theorem takeCell_memory_free (h : Linked m s) (hpool : s.pools base = some pool)
    (hp : PoolInv D base pool) {r : Addr × ℕ × GCMemory}
    (e : m.gcTakeCell D th type base = .ok r) : pool.freeCells ≠ [] := by
  intro hnil
  have hlive := linksLive (s := m.state) hp (by
    rw [h.state, show (unlinked s).pools base = (s.pools base).map unlinkedPool from rfl, hpool]
    exact Option.some_ne_none _)
  have hchain := h.free base pool hpool
  rw [hnil] at hchain
  simp only [GCMemory.gcTakeCell, Outcome.bind_eq_ok] at e
  obtain ⟨_, _, _, hpop, _⟩ := e
  rw [GCMemory.gcPopCell, slistPop_empty hlive.free hchain] at hpop
  cases hpop

/-! ## The pool -/

/-- INTERNAL: without a usable pool and without memory there is no cell. -/
theorem usablePool_linked_none (h : Linked m s) (e : gcUsablePool D s type map = none) :
    m.gcUsablePool D type map = .ok none := by
  obtain ⟨hu, rfl⟩ := usablePool_none e
  have hhead := (h.pools.head_eq_zero (.usablePools type)).mpr hu
  rw [GCMemory.gcUsablePool, slistEmpty_ok (access_var _ _), fieldOf, decide_eq_true hhead]
  rfl

/-- INTERNAL: **the first usable pool, or a new one.** A new pool changes no cell in use.
SOURCE: m_gc_obj.c:585-593 -/
theorem usablePool_linked (h : Linked m s) (hi : HeapInv D [] s) (hmap : FreshMap D s type map)
    (hnz : (s.stubs type).usablePools = [] → map ≠ some 0) (hplaced : AllocPlaced D s type map)
    (hsize : 0 < (D.descrs type).size) (e : gcUsablePool D s type map = some (base, s₁)) :
    ∃ m₁, m.gcUsablePool D type map = .ok (some (base, m₁)) ∧ Linked m₁ s₁ ∧
      ∀ a, CellWord D s a → m₁.links.next a = m.links.next a := by
  have hempty := slistEmpty_ok (m := m.links)
    (access_var (GCMemory.live D m.state) (PoolHead.usablePools type))
  rw [fieldOf] at hempty
  rw [GCMemory.gcUsablePool, hempty, Outcome.ok_bind]
  rw [gcUsablePool] at e
  cases hu : (s.stubs type).usablePools with
  | cons b rest =>
    rw [hu] at e
    obtain ⟨rfl, rfl⟩ := Prod.mk.inj (Option.some.inj e)
    have hlist : poolList s.stubs (.usablePools type) = b :: rest := hu
    have hhead := (h.pools.pop hlist).1
    have hne : m.links.head (.usablePools type) ≠ 0 := fun hz => by
      have hnil := (h.pools.head_eq_zero (.usablePools type)).mp hz
      exact absurd (hu.symm.trans hnil) (by simp)
    rw [decide_eq_false hne, hhead]
    exact ⟨m, rfl, h, fun _ _ => rfl⟩
  | nil =>
    rw [hu] at e
    rw [decide_eq_true ((h.pools.head_eq_zero (.usablePools type)).mpr hu)]
    cases map with
    | none => cases e
    | some b =>
      obtain ⟨hb, hnone⟩ := hmap hu b rfl
      obtain rfl : b = base := (Prod.mk.inj (Option.some.inj e)).1
      obtain ⟨m₁, e₁, h₁, hout⟩ := allocPool_linked h hi hb (fun hz => hnz hu (by rw [hz])) hnone
        hsize (hplaced.counted hu b rfl) e
      refine ⟨m₁, e₁, h₁, fun a ha => hout a ?_⟩
      obtain ⟨b', p, id, k, hp, hid, -, rfl, hk⟩ := ha
      rw [getPool_word (hi.pool hp) hid hk]
      rintro rfl
      exact absurd (hp.symm.trans hnone) (Option.some_ne_none _)

end Ming.Analysis
