import Ming.Analysis.GCLinkCollect

/-!
# The heap in memory over whole runs

Every operation on the heap with its links in memory does what it does on the heap with lists,
and returns where that one returns. Between the operations the program writes into its cells,
which hold no link; so the memory represents the heap with lists throughout a run. The other
way round, no operation writes into a cell that is in use.
-/

set_option autoImplicit false

namespace Ming.Analysis

open Ming.Foundation Ming.Model Ming.Interface

variable {D : GCConfig} {s s' s₁ : GCState} {m m' : GCMemory} {a base : ℕ} {n th : ℕ}
variable {refs : Addr → List Addr} {type : MGCObjType} {map : Option Addr} {waiting : Bool}

/-! ## Allocation -/

/-- Two results of an allocation that began with `m` and `s`: the same cell, and no word of a
cell that stays in use has changed. -/
def AllocatedBoth (D : GCConfig) (m : GCMemory) (s : GCState)
    (r : Option (Addr × ℕ) × GCMemory) (r' : Option (Addr × ℕ) × GCState) : Prop :=
  r.1 = r'.1 ∧ Linked r.2 r'.2 ∧
    ∀ a, CellWord D s a → CellWord D r'.2 a → r.2.links.next a = m.links.next a

/-- INTERNAL: only a type with cells of positive size can be allocated. -/
theorem allocObj_memory_size_pos {walk : ℕ} {r : Option (Addr × ℕ) × GCMemory}
    (hsome : ∃ base, gcUsablePool D s type map = some (base, s₁)) (h : Linked m s)
    (hnz : (s.stubs type).usablePools = [] → map ≠ some 0)
    (e : m.gcAllocObj D refs walk n waiting th type map = .ok r) :
    0 < (D.descrs type).size := by
  rw [GCMemory.gcAllocObj] at e
  obtain ⟨o, hpool, e⟩ := Outcome.bind_eq_ok.mp e
  cases o with
  | some bm =>
    obtain ⟨_, htake, -⟩ := Outcome.bind_eq_ok.mp e
    exact takeCell_memory_size_pos htake
  | none =>
    -- there is a usable pool, or memory for a new one
    exfalso
    obtain ⟨base, hsome⟩ := hsome
    rw [GCMemory.gcUsablePool, slistEmpty_ok (access_var _ _), Outcome.ok_bind, fieldOf] at hpool
    by_cases hz : m.links.head (.usablePools type) = 0
    · rw [decide_eq_true hz, if_pos rfl] at hpool
      have hu : (s.stubs type).usablePools = [] :=
        (h.pools.head_eq_zero (.usablePools type)).mp hz
      rw [gcUsablePool, hu] at hsome
      cases map with
      | none => cases hsome
      | some b =>
        have hb : b ≠ 0 := fun hb => hnz hu (by rw [hb])
        rw [GCMemory.gcAllocPool] at hpool
        simp only [if_neg hb, Outcome.bind_eq_ok] at hpool
        obtain ⟨_, _, _, _, e⟩ := hpool
        cases e
    · rw [decide_eq_false hz] at hpool
      cases hpool

/-- INTERNAL: the pool that a cell is taken from. -/
theorem usablePool_inv (hi : HeapInv D [] s) (hmap : FreshMap D s type map)
    (hsize : 0 < (D.descrs type).size) (e : gcUsablePool D s type map = some (base, s₁)) :
    ∃ pool, s₁.pools base = some pool ∧ PoolInv D base pool := by
  rw [gcUsablePool] at e
  cases hu : (s.stubs type).usablePools with
  | cons b rest =>
    rw [hu] at e
    obtain ⟨rfl, rfl⟩ := Prod.mk.inj (Option.some.inj e)
    obtain ⟨-, pool, hpool, -⟩ :=
      (hi.lists.mem type false b).mp (by rw [stubList, hu]; exact List.mem_cons_self)
    exact ⟨pool, hpool, hi.pool hpool⟩
  | nil =>
    rw [hu] at e
    cases map with
    | none => cases e
    | some b =>
      obtain ⟨rfl, rfl⟩ := Prod.mk.inj (Option.some.inj e)
      exact ⟨_, if_pos rfl, newPool_inv (hmap hu b rfl).1 hsize⟩

/-- INTERNAL: a cell is taken from the pool that was found, over links as over lists. -/
theorem takeCell_usable (h : Linked m s₁) (hi : HeapInv D [] s) (hmap : FreshMap D s type map)
    (hsize : 0 < (D.descrs type).size) (hpool : gcUsablePool D s type map = some (base, s₁)) :
    Outcome.Rel (fun r r' => TookBoth m base r r' ∧
        ∀ a, CellWord D s a → r.2.2.links.next a = m.links.next a)
      (m.gcTakeCell D th type base) (gcTakeCell D s₁ th type base) := by
  obtain ⟨pool, hp, hinv⟩ := usablePool_inv hi hmap hsize hpool
  by_cases hfree : pool.freeCells = []
  · refine Outcome.Rel.of_not_ok (fun r e => takeCell_memory_free h hp hinv e hfree) ?_
    rintro ⟨cell, oid, s₂⟩ e
    exact takeCell_free e hp hfree
  · obtain ⟨hi₁, ⟨rest, hu⟩, -, q, hbefore, hq, hpools⟩ := usablePool_spec hi hmap hsize hpool
      fun q hq => by
        obtain rfl := Option.some.inj (hp.symm.trans hq)
        exact hfree
    refine (takeCell_linked h hi₁ hp hu).mono fun r r' hr _ _ => ⟨hr, fun a ha => ?_⟩
    -- the cell was in use before the pool was found
    have ha₁ : CellWord D s₁ a := by
      obtain ⟨b, p, id, k, hpb, hid, hused, rfl, hk⟩ := ha
      refine ⟨b, p, id, k, ?_, hid, hused, rfl, hk⟩
      rw [hpools]
      by_cases hb : b = base
      · subst hb
        refine (if_pos rfl).trans ?_
        rcases hbefore.cases with hmapped | ⟨hnone, -⟩
        · exact hmapped.symm.trans hpb
        · exact nomatch hnone.symm.trans hpb
      · exact (if_neg hb).trans hpb
    obtain ⟨h₁, h₂, -⟩ := ha₁.notLink hi₁ hp
    exact hr.2.2.2 a h₁ h₂

/-- INTERNAL: **an allocation** hands out the same cell over links as over lists.
SOURCE: m_gc_obj.c:571-645 -/
theorem allocObj_linked (h : Linked m s) (hi : GCInv D s) (hmap : FreshMap D s type map)
    (hnz : (s.stubs type).usablePools = [] → map ≠ some 0) (hp : AllocPlaced D s type map) (n : ℕ)
    (waiting : Bool) (th : ℕ) :
    Outcome.RelFrom (AllocatedBoth D m s)
      (fun walk => m.gcAllocObj D refs walk n waiting th type map)
      (gcAllocObj D refs n waiting s th type map) := by
  rw [gcAllocObj]
  cases hpool : gcUsablePool D s type map with
  | none =>
    simp only [GCMemory.gcAllocObj, usablePool_linked_none h hpool, Outcome.ok_bind]
    exact Outcome.Rel.from (Outcome.Rel.ok ⟨rfl, h, fun _ _ _ => rfl⟩)
  | some bs =>
    obtain ⟨base, s₁⟩ := bs
    by_cases hsize : 0 < (D.descrs type).size
    · obtain ⟨m₁, e₁, h₁, hwords₁⟩ := usablePool_linked h hi.heap hmap hnz hp hsize hpool
      simp only [GCMemory.gcAllocObj, e₁, Outcome.ok_bind]
      refine (takeCell_usable h₁ hi.heap hmap hsize hpool).from.bind ?_
      rintro ⟨cell, oid, m₂⟩ ⟨cell', oid', s₂⟩ ⟨⟨hcell, hoid, h₂, -⟩, hwords₂⟩ htake
      obtain rfl : cell = cell' := hcell
      obtain rfl : oid = oid' := hoid
      have hi₂ : GCInv D s₂ := (tookCell_of_usable hi.heap hmap hpool htake).inv hp hi
      have hneeded : collectionNeeded D m₂.state ↔ collectionNeeded D s₂ := by
        rw [show m₂.state = unlinked s₂ from h₂.state]
        exact Iff.rfl
      have hwords : ∀ a, CellWord D s a → m₂.links.next a = m.links.next a := fun a ha =>
        (hwords₂ a ha).trans (hwords₁ a ha)
      by_cases hneed : collectionNeeded D s₂
      · simp only [if_pos hneed, if_pos (hneeded.mpr hneed)]
        refine (collectObjs_linked h₂ hi₂ n 0 waiting).bind fun m' s' hr _ =>
          Outcome.Rel.from (Outcome.Rel.ok ⟨rfl, hr.1, fun a ha ha' => ?_⟩)
        exact (hr.2 a ha').2.trans (hwords a ha)
      · simp only [if_neg hneed, if_neg fun hm => hneed (hneeded.mp hm)]
        exact Outcome.Rel.from (Outcome.Rel.ok ⟨rfl, h₂, fun a ha _ => hwords a ha⟩)
    · refine Outcome.RelFrom.error 0 (fun walk _ r e => ?_) fun r e => ?_
      · exact hsize (allocObj_memory_size_pos ⟨base, hpool⟩ h hnz e)
      · obtain ⟨⟨cell, oid, s₂⟩, htake, -⟩ := Outcome.bind_eq_ok.mp e
        exact hsize (takeCell_size_pos htake)

/-! ## The other operations -/

/-- INTERNAL: an operation on the new-born stacks, the roots or the threads touches no link. -/
theorem linkFree_exec (op : GCOp) (halloc : ∀ th type map w, op ≠ .alloc th type map w)
    (hrun : ∀ flags w, op ≠ .run flags w) (refs : Addr → List Addr) (n : ℕ) :
    LinkFree fun s => op.exec D refs n s := by
  cases op with
  | alloc th type map w => exact absurd rfl (halloc th type map w)
  | run flags w => exact absurd rfl (hrun flags w)
  | addObj th oid =>
    intro s
    apply Outcome.Rel.bind_same (x := mThreadSelf s th)
    intro self _
    refine Outcome.Rel.ite (fun _ => Outcome.Rel.ite (fun _ => ?_) fun _ => ?_) fun _ => ?_
    · exact Outcome.Rel.ok ⟨rfl, rfl, fun _ => rfl⟩
    · exact Outcome.Rel.error _ _
    · exact Outcome.Rel.error _ _
  | setNbLevel th level =>
    intro s
    apply Outcome.Rel.bind_same (x := mThreadSelf s th)
    intro self _
    refine Outcome.Rel.ite (fun _ => ?_) fun _ => ?_
    · exact Outcome.Rel.ok ⟨rfl, rfl, fun _ => rfl⟩
    · exact Outcome.Rel.error _ _
  | setRoots ptrs => exact LinkFree.ok (fun _ => rfl) fun _ => ⟨rfl, fun _ => rfl⟩
  | threadEnter => exact LinkFree.ok (fun _ => rfl) fun _ => ⟨rfl, fun _ => rfl⟩
  | threadExit th => exact LinkFree.ok (fun _ => rfl) fun _ => ⟨rfl, fun _ => rfl⟩

/-- Two results of an operation that began with `m` and `s`: no word of a cell that stays in use
has changed. -/
def ExecBoth (D : GCConfig) (m : GCMemory) (s : GCState) (m' : GCMemory) (s' : GCState) : Prop :=
  Linked m' s' ∧ ∀ a, CellWord D s a → CellWord D s' a → m'.links.next a = m.links.next a

/-- INTERNAL: an operation that touches no link. -/
theorem onState_both {f : GCState → Outcome GCState} (h : Linked m s) (hf : LinkFree f) :
    Outcome.RelFrom (ExecBoth D m s) (fun _ => m.onState f) (f s) := by
  refine ((h.onState hf).mono fun m' s' hl e _ => ⟨hl, fun a _ _ => ?_⟩).from
  rw [onState_links e]

/-- INTERNAL: the pools that are mapped, seen from the lists. -/
theorem unlinked_pools (h : Linked m s) (b : Addr) :
    m.state.pools b = (s.pools b).map unlinkedPool := by
  rw [h.state]
  rfl

/-- INTERNAL: what the operation may rely on, seen from the lists. -/
theorem mapsFresh_of_allowed (h : Linked m s) {op : GCOp}
    (hop : (GCMemOp.heap op).allowed D m) : op.mapsFresh D s := by
  cases op with
  | alloc th type map waiting =>
    cases map with
    | none => trivial
    | some base =>
      intro hu b hb
      refine (hop ((h.pools.head_eq_zero (.usablePools type)).mpr hu)).2 b ?_
      rwa [unlinked_pools h, ne_eq, Option.map_eq_none_iff]
  | run | addObj | setNbLevel | setRoots | threadEnter | threadExit => trivial

/-- INTERNAL: what the collector does not check, seen from the lists. -/
theorem allocPlaced_linked (h : Linked m s) (hi : HeapInv D [] s) :
    m.AllocPlaced D type map ↔ AllocPlaced D s type map := by
  have hhead := h.pools.head_eq_zero (.usablePools type)
  have hhead : m.links.head (.usablePools type) = 0 ↔ (s.stubs type).usablePools = [] := hhead
  refine ⟨fun hp => ⟨fun hu => hp.aligned (hhead.mpr hu), fun hu => hp.counted (hhead.mpr hu), ?_⟩,
    fun hp => ⟨fun hz => hp.aligned (hhead.mp hz), fun hz => hp.counted (hhead.mp hz), ?_⟩⟩
  · intro base rest pool cell free hu hpool hfree
    have hlist : poolList s.stubs (.usablePools type) = base :: rest := hu
    have hbase := (h.pools.pop hlist).1
    have hne : m.links.head (.usablePools type) ≠ 0 := fun hz => by
      cases hu.symm.trans (hhead.mp hz)
    have hchain := h.free base pool hpool
    rw [hfree] at hchain
    have hnear := hp.near hne (unlinkedPool pool) (by rw [hbase, unlinked_pools h, hpool]; rfl)
    rw [hbase, hchain.1] at hnear
    exact hnear
  · intro hne pool hpool
    obtain ⟨base, rest, hu⟩ := List.exists_cons_of_ne_nil fun hu => hne (hhead.mpr hu)
    have hlist : poolList s.stubs (.usablePools type) = base :: rest := hu
    rw [(h.pools.pop hlist).1] at hpool ⊢
    rw [unlinked_pools h] at hpool
    obtain ⟨q, hq, rfl⟩ := Option.map_eq_some_iff.mp hpool
    -- a usable pool has a free cell
    obtain ⟨-, q', hq', -, hf⟩ :=
      (hi.lists.mem type false base).mp (by rw [stubList, hu]; exact List.mem_cons_self)
    obtain rfl := Option.some.inj (hq.symm.trans hq')
    obtain ⟨cell, free, hfree⟩ := List.exists_cons_of_ne_nil (of_decide_eq_false hf)
    have hchain := h.free base q hq
    rw [hfree] at hchain
    rw [hchain.1]
    exact hp.near base rest q cell free hu hq hfree

/-- INTERNAL: the same of any operation. -/
theorem placed_linked (h : Linked m s) (hi : HeapInv D [] s) {op : GCOp} :
    (GCMemOp.heap op).placed D m ↔ op.placed D s := by
  cases op with
  | alloc th type map waiting => exact allocPlaced_linked h hi
  | run | addObj | setNbLevel | setRoots | threadEnter | threadExit => exact Iff.rfl

/-- INTERNAL: **an operation on the heap** does the same over links as over lists.
SOURCE: m_gc_obj.c:483-645 -/
theorem exec_linked (h : Linked m s) (hi : GCInv D s) {op : GCOp}
    (hop : (GCMemOp.heap op).allowed D m) (hp : op.placed D s) (refs : Addr → List Addr) (n : ℕ) :
    Outcome.RelFrom (ExecBoth D m s) (fun walk => (GCMemOp.heap op).exec D refs walk n m)
      (op.exec D refs n s) := by
  cases op with
  | alloc th type map waiting =>
    have hfresh : FreshMap D s type map := freshMap_of_placed hp (mapsFresh_of_allowed h hop)
    have hnz : (s.stubs type).usablePools = [] → map ≠ some 0 := by
      rintro hu rfl
      exact (hop ((h.pools.head_eq_zero (.usablePools type)).mpr hu)).1 rfl
    exact (allocObj_linked h hi hfresh hnz hp n waiting th).bind fun r r' hr _ =>
      Outcome.Rel.from (Outcome.Rel.ok hr.2)
  | run flags waiting =>
    exact (collectObjs_linked h hi n flags waiting).mono fun m' s' hr _ =>
      ⟨hr.1, fun a _ ha => (hr.2 a ha).2⟩
  | addObj th oid => exact onState_both h (linkFree_exec _ (by simp) (by simp) refs n)
  | setNbLevel th level => exact onState_both h (linkFree_exec _ (by simp) (by simp) refs n)
  | setRoots ptrs => exact onState_both h (linkFree_exec _ (by simp) (by simp) refs n)
  | threadEnter => exact onState_both h (linkFree_exec _ (by simp) (by simp) refs n)
  | threadExit th => exact onState_both h (linkFree_exec _ (by simp) (by simp) refs n)

/-! ## Stores of the program -/

/-- INTERNAL: the cells in use, seen from memory. -/
theorem inUse_iff (h : Linked m s) (hi : HeapInv D [] s) : m.inUse D a ↔ CellWord D s a := by
  have hpools : ∀ b, m.state.pools b = (s.pools b).map unlinkedPool := fun b => by
    rw [h.state]
    rfl
  constructor
  · rintro ⟨b, p, id, flags, k, hp, hid, hflags, hused, rfl, hk⟩
    rw [hpools] at hp
    obtain ⟨q, hq, rfl⟩ := Option.map_eq_some_iff.mp hp
    have hmark := (of_getBitmap hflags).2
    exact ⟨b, q, id, k, hq, hid, fun hu => hused (hmark.trans hu), rfl, hk⟩
  · rintro ⟨b, q, id, k, hq, hid, hused, rfl, hk⟩
    have hlt : id / 16 < (unlinkedPool q).bitmap.length := by
      have hwords := (hi.pool hq).words
      have hle := cellNum_le D q.type
      have hsame : (unlinkedPool q).bitmap.length = q.bitmap.length := rfl
      omega
    refine ⟨b, unlinkedPool q, id, _, k, ?_, hid, getBitmap_eq hlt, hused, rfl, hk⟩
    rw [hpools, hq]
    rfl

/-- INTERNAL: **a store of the program** into a cell in use changes no list. -/
theorem write_linked (h : Linked m s) (hi : HeapInv D [] s) (ha : m.inUse D a) (v : Addr) :
    ∃ m', (∀ refs walk n, (GCMemOp.write a v).exec D refs walk n m = .ok m') ∧ Linked m' s ∧
      m'.links.next = Function.update m.links.next a v := by
  have hw := (inUse_iff h hi).mp ha
  have hnot : ∀ b p, s.pools b = some p → a ≠ b ∧ a ≠ freeCellsAt b ∧ a ∉ p.freeCells :=
    fun b p hp => hw.notLink hi hp
  obtain ⟨b, p, id, k, hp, hid, -, rfl, hk⟩ := hw
  have hinv := hi.pool hp
  -- the word is aligned and lies in a mapped pool
  have hacc : Access (GCMemory.live D m.state)
      (.addr (cellAddr D p id + 8 * k) : MSListRef PoolHead) := by
    refine ⟨Nat.ne_of_gt (Nat.zero_lt_of_lt (Nat.lt_of_lt_of_le (header_lt_cell hinv id)
      (Nat.le_add_right _ _))), ?_⟩
    rw [h.state, live_unlinked]
    refine live_of_mapped ?_ (Nat.dvd_add (hinv.aligned_cellAddr id) (Nat.dvd_mul_right 8 k))
    rw [getPool_word hinv hid hk, hp]
    exact Option.some_ne_none _
  refine ⟨⟨m.state, Interface.setField m.links (.addr (cellAddr D p id + 8 * k)) v⟩,
    fun refs walk n => ?_, ⟨h.state, fun hd => ?_, fun b' p' hp' => ?_⟩, rfl⟩
  · rw [GCMemOp.exec, store_ok hacc]
    rfl
  · refine (h.pools hd).update_of_notMem fun hmem => ?_
    obtain ⟨-, p', hp'⟩ := mem_poolList hi hmem
    exact (hnot _ p' hp').1 rfl
  · obtain ⟨-, hfield, hfree⟩ := hnot b' p' hp'
    have hnext : (Interface.setField m.links (.addr (cellAddr D p id + 8 * k)) v).next
        (freeCellsAt b') = m.links.next (freeCellsAt b') :=
      Function.update_of_ne hfield.symm _ _
    rw [hnext]
    exact (h.free b' p' hp').update_of_notMem hfree

/-! ## Runs -/

/-- One step of the heap with lists; a store into a cell does not touch it. -/
def GCListStep (D : GCConfig) (s : GCState) : GCMemOp → GCState → Prop
  | .heap op, s' => GCStep D s op s'
  | .write _ _, s' => s' = s

/-- A run from the start of the program, with the links in memory. -/
abbrev GCMemRun (D : GCConfig) (ops : List GCMemOp) (σ : ℕ → GCMemory) : Prop :=
  Run (fun m => ∃ next, m = gcMemoryStartup next) (GCMemStep D) ops σ

/-- Every operation of the run meets what the collector does not check. -/
def MemPlaced (D : GCConfig) (ops : List GCMemOp) (σ : ℕ → GCMemory) : Prop :=
  ∀ i (hi : i < ops.length), (ops[i]).placed D (σ i)

/-- INTERNAL: **one step.** -/
theorem memStep_linked (h : Linked m s) (hi : GCInv D s) {op : GCMemOp} (hp : op.placed D m)
    (hs : GCMemStep D m op m') : ∃ s', GCListStep D s op s' ∧ Linked m' s' ∧
      GCInv D s' ∧ ∀ a, (∀ v, op ≠ .write a v) → CellWord D s a → CellWord D s' a →
        m'.links.next a = m.links.next a := by
  obtain ⟨hop, refs, n, rounds, e⟩ := hs
  cases op with
  | heap op =>
    have hp := (placed_linked h hi.heap).mp hp
    obtain ⟨s', e', h', hwords⟩ := (exec_linked h hi hop hp refs n).eq_ok_left e
    have hstep : GCStep D s op s' := ⟨mapsFresh_of_allowed h hop, refs, n, e'⟩
    exact ⟨s', hstep, h', step_inv hi hp hstep, fun a _ => hwords a⟩
  | write b v =>
    obtain ⟨m₁, e₁, h₁, hnext⟩ := write_linked h hi.heap hop v
    obtain rfl := Except.ok.inj ((e₁ refs rounds n).symm.trans (e rounds le_rfl))
    refine ⟨s, rfl, h₁, hi, fun a ha _ _ => ?_⟩
    rw [hnext]
    refine Function.update_of_ne ?_ _ _
    rintro rfl
    exact ha v rfl

/-- INTERNAL: the start of the program. -/
theorem startup_linked (next : Addr → Addr) : Linked (gcMemoryStartup next) gcObjStartup := by
  refine ⟨rfl, fun hd => ?_, fun b p hp => nomatch hp⟩
  cases hd <;> rfl

/-- INTERNAL: a run of the heap with lists beside a run of the heap in memory. -/
theorem memRun_linked {ops : List GCMemOp} {σ : ℕ → GCMemory} (h : GCMemRun D ops σ)
    (hp : MemPlaced D ops σ) : ∃ τ, Run (fun s => s = gcObjStartup) (GCListStep D) ops τ ∧
      ∀ n ≤ ops.length, Linked (σ n) (τ n) ∧ GCInv D (τ n) := by
  have hboth : Run (fun m => ∃ next, m = gcMemoryStartup next)
      (fun m op m' => op.placed D m ∧ GCMemStep D m op m') ops σ :=
    ⟨h.init, fun i hi => ⟨hp i hi, h.step i hi⟩⟩
  refine hboth.simulate _ _ (fun m s => Linked m s ∧ GCInv D s) ?_ ?_
  · rintro m ⟨next, rfl⟩
    exact ⟨gcObjStartup, rfl, startup_linked next, startup_inv D⟩
  · rintro m s op m' ⟨hl, hi⟩ ⟨hplaced, hs⟩
    obtain ⟨s', hs', hl', hi', -⟩ := memStep_linked hl hi hplaced hs
    exact ⟨s', hs', hl', hi'⟩

/-- What the operation may rely on, over lists. -/
def AllowedList (D : GCConfig) (s : GCState) : GCMemOp → Prop
  | .heap op => op.placed D s ∧ ∀ th type waiting, op ≠ .alloc th type (some 0) waiting
  | .write a _ => CellWord D s a

/-- INTERNAL: what the operation may rely on, seen from memory. -/
theorem allowed_of_list (h : Linked m s) (hi : HeapInv D [] s) {op : GCMemOp}
    (hs : GCListStep D s op s') (hop : AllowedList D s op) : op.allowed D m ∧ op.placed D m := by
  cases op with
  | write a v => exact ⟨(inUse_iff h hi).mpr hop, trivial⟩
  | heap op =>
    refine ⟨?_, (placed_linked h hi).mpr hop.1⟩
    cases op with
    | alloc th type map waiting =>
      cases map with
      | none => trivial
      | some base =>
        refine fun hz => ⟨fun hbase => hop.2 th type waiting (by rw [hbase]), fun b hb => ?_⟩
        rw [unlinked_pools h, ne_eq, Option.map_eq_none_iff] at hb
        exact hs.1 ((h.pools.head_eq_zero (.usablePools type)).mp hz) b hb
    | run | addObj | setNbLevel | setRoots | threadEnter | threadExit => trivial

/-- INTERNAL: a run of the heap in memory beside a run of the heap with lists. -/
theorem memRun_of_list {ops : List GCMemOp} {τ : ℕ → GCState}
    (h : Run (fun s => s = gcObjStartup) (GCListStep D) ops τ)
    (hops : ∀ i (hi : i < ops.length), AllowedList D (τ i) ops[i]) :
    ∃ σ, GCMemRun D ops σ ∧ MemPlaced D ops σ ∧
      ∀ n ≤ ops.length, Linked (σ n) (τ n) ∧ GCInv D (τ n) := by
  have hboth : Run (fun s => s = gcObjStartup)
      (fun s op s' => AllowedList D s op ∧ GCListStep D s op s') ops τ :=
    ⟨h.init, fun i hi => ⟨hops i hi, h.step i hi⟩⟩
  have hsim : ∃ σ, GCMemRun D ops σ ∧
      ∀ n ≤ ops.length, Linked (σ n) (τ n) ∧ GCInv D (τ n) := by
    refine hboth.simulate _ _ (fun s m => Linked m s ∧ GCInv D s) ?_ ?_
    · rintro s rfl
      exact ⟨_, ⟨fun _ => 0, rfl⟩, startup_linked _, startup_inv D⟩
    · rintro s m op s' ⟨hl, hi⟩ ⟨hop, hs⟩
      have hallowed := (allowed_of_list hl hi.heap hs hop).1
      cases op with
      | heap op =>
        obtain ⟨-, refs, n, e⟩ := id hs
        obtain ⟨m', rounds, em, hl', -⟩ := (exec_linked hl hi hallowed hop.1 refs n).eq_ok_right e
        exact ⟨m', ⟨hallowed, refs, n, rounds, em⟩, hl', step_inv hi hop.1 hs⟩
      | write a v =>
        obtain rfl : s' = s := hs
        obtain ⟨m', em, hl', -⟩ := write_linked hl hi.heap hallowed v
        exact ⟨m', ⟨hallowed, fun _ => [], 0, 0, fun walk _ => em _ walk 0⟩, hl', hi⟩
  obtain ⟨σ, hσ, hall⟩ := hsim
  refine ⟨σ, hσ, fun i hi => ?_, hall⟩
  obtain ⟨hl, hinv⟩ := hall i hi.le
  exact (allowed_of_list hl hinv.heap (h.step i hi) (hops i hi)).2

/-- **The links in memory refine the lists.** Beside every run of the collector on memory, where
the program stores what it likes into its cells, there is a run on lists; memory and lists
represent the same heap after every operation, and that heap is well formed. The collector
returns from memory wherever it returns from the lists: no access along a link goes wrong.
SOURCE: m_list.h:192-280, m_gc_obj.c:134-173, 378-645 -/
theorem memory_run_refines {ops : List GCMemOp} {σ : ℕ → GCMemory} (h : GCMemRun D ops σ)
    (hp : MemPlaced D ops σ) : ∃ τ, Run (fun s => s = gcObjStartup) (GCListStep D) ops τ ∧
      ∀ n ≤ ops.length, Linked (σ n) (τ n) ∧ HeapOk D (τ n) ∧
        ∀ op refs fuel s', (GCMemOp.heap op).allowed D (σ n) → (GCMemOp.heap op).placed D (σ n) →
          op.exec D refs fuel (τ n) = .ok s' → ∃ m' rounds, (∀ walk ≥ rounds,
            (GCMemOp.heap op).exec D refs walk fuel (σ n) = .ok m') ∧ Linked m' s' := by
  obtain ⟨τ, hτ, hboth⟩ := memRun_linked h hp
  refine ⟨τ, hτ, fun n hn => ?_⟩
  obtain ⟨hl, hi⟩ := hboth n hn
  refine ⟨hl, hi.heapOk, fun op refs fuel s' hop hplaced e => ?_⟩
  have hplaced := (placed_linked hl hi.heap).mp hplaced
  obtain ⟨m', rounds, em, hl', -⟩ := (exec_linked hl hi hop hplaced refs fuel).eq_ok_right e
  exact ⟨m', rounds, em, hl'⟩

/-- A double and a string are allocated, the program stores into the double, and a collection
finds the double on the new-born stack. -/
def writtenOps : List GCMemOp :=
  [.heap (.alloc 0 .double (some 4096) false), .write 4264 7,
    .heap (.alloc 0 .string (some 8192) false), .heap (.setNbLevel 0 1), .heap (.run 0 false)]

/-- The first double is in use. -/
def usesDouble (s : GCState) : Bool :=
  (s.pools 4096).any fun pool => decide (pool.begin = 4264 ∧ pool.type = .double) &&
    decide (poolMark pool 0 ≠ GC_MARK_UNUSED)

/-- INTERNAL: its only word. -/
theorem usesDouble_word (h : usesDouble s = true) : CellWord defaultConfig s 4264 := by
  obtain ⟨pool, hpool, hd⟩ := (Option.any_eq_true _ _).mp h
  rw [Bool.and_eq_true, decide_eq_true_eq, decide_eq_true_eq] at hd
  obtain ⟨⟨hbegin, htype⟩, hused⟩ := hd
  refine ⟨4096, pool, 0, 0, hpool, ?_, hused, ?_, ?_⟩
  · rw [htype]
    decide
  · rw [cellAddr, hbegin, Nat.zero_mul]
  · rw [htype]
    decide

/-- The double is in use before every operation but the first. -/
def usesDoubleAt (s : GCState) : GCOp → Bool
  | .alloc _ .double _ _ => true
  | _ => usesDouble s

/-- INTERNAL: the run of these operations. -/
theorem writtenRun : ∃ (σ : ℕ → GCMemory) (τ : ℕ → GCState), GCMemRun defaultConfig writtenOps σ ∧
    MemPlaced defaultConfig writtenOps σ ∧ (∀ n ≤ 5, Linked (σ n) (τ n)) ∧
    .final .string 8296 ∈ (τ 5).log ∧ (σ 2).links.next 4264 = 7 ∧
    ∀ n, 2 ≤ n → n ≤ 5 → (σ n).inUse defaultConfig 4264 := by
  have hc : runChecked defaultConfig (fun _ => []) usesDoubleAt
      (fun s => usesDouble s && decide (.final .string 8296 ∈ s.log))
      [.alloc 0 .double (some 4096) false, .alloc 0 .string (some 8192) false, .setNbLevel 0 1,
        .run 0 false] gcObjStartup = true := by
    decide +kernel
  obtain ⟨τ, hτ⟩ := run_of_checked (startup_inv defaultConfig) hc
  have hlast := hτ.last
  rw [Bool.and_eq_true, decide_eq_true_eq] at hlast
  have huses : ∀ i, 1 ≤ i → i ≤ 4 → usesDouble (τ i) = true := by
    intro i hi hi'
    match i, hi, hi' with
    | 1, _, _ => exact hτ.steps 1 (by decide)
    | 2, _, _ => exact hτ.steps 2 (by decide)
    | 3, _, _ => exact hτ.steps 3 (by decide)
    | 4, _, _ => exact hlast.1
  -- the store is a step of its own
  let υ (i : ℕ) : GCState := if i ≤ 1 then τ i else τ (i - 1)
  have hυ : Run (fun s => s = gcObjStartup) (GCListStep defaultConfig) writtenOps υ := by
    refine ⟨hτ.run.init, fun i hi => ?_⟩
    match i, hi with
    | 0, _ => exact hτ.run.step 0 (by decide)
    | 1, _ => rfl
    | 2, _ => exact hτ.run.step 1 (by decide)
    | 3, _ => exact hτ.run.step 2 (by decide)
    | 4, _ => exact hτ.run.step 3 (by decide)
  have hops : ∀ i (hi : i < writtenOps.length),
      AllowedList defaultConfig (υ i) writtenOps[i] := by
    intro i hi
    match i, hi with
    | 0, _ => exact ⟨hτ.placed 0 (by decide), fun _ _ _ e => by cases e⟩
    | 1, _ => exact usesDouble_word (huses 1 le_rfl (by decide))
    | 2, _ => exact ⟨hτ.placed 1 (by decide), fun _ _ _ e => by cases e⟩
    | 3, _ => exact ⟨trivial, fun _ _ _ e => by cases e⟩
    | 4, _ => exact ⟨trivial, fun _ _ _ e => by cases e⟩
  obtain ⟨σ, hσ, hplaced, hall⟩ := memRun_of_list hυ hops
  refine ⟨σ, υ, hσ, hplaced, fun n hn => (hall n hn).1, hlast.2, ?_, fun n hn hn' => ?_⟩
  · obtain ⟨hallowed, refs, fuel, rounds, e⟩ := hσ.step 1 (by decide)
    obtain ⟨hl, hi⟩ := hall 1 (by decide)
    obtain ⟨m', em, -, hnext⟩ := write_linked hl hi.heap hallowed 7
    obtain rfl := Except.ok.inj ((em refs rounds fuel).symm.trans (e rounds le_rfl))
    rw [hnext, Function.update_self]
  · obtain ⟨hl, hi⟩ := hall n hn'
    refine (inUse_iff hl hi.heap).mpr (usesDouble_word ?_)
    rw [show υ n = τ (n - 1) from if_neg (by omega)]
    exact huses (n - 1) (by omega) (by omega)

/-- The heap in memory after a store and a collection, which finalizes a string. -/
theorem memory_run_refines_written : ∃ (σ : ℕ → GCMemory) (τ : ℕ → GCState),
    GCMemRun defaultConfig writtenOps σ ∧ Linked (σ 5) (τ 5) ∧ HeapOk defaultConfig (τ 5) ∧
    .final .string 8296 ∈ (τ 5).log := by
  obtain ⟨σ, υ, hσ, hplaced, hall, hfinal, -⟩ := writtenRun
  obtain ⟨τ, -, hboth⟩ := memory_run_refines hσ hplaced
  obtain ⟨hl, hok, -⟩ := hboth 5 le_rfl
  have hstates : unlinked (υ 5) = unlinked (τ 5) := (hall 5 le_rfl).state.symm.trans hl.state
  have hlog : (unlinked (υ 5)).log = (unlinked (τ 5)).log := congrArg GCState.log hstates
  have hfinal : .final .string 8296 ∈ (unlinked (υ 5)).log := hfinal
  exact ⟨σ, τ, hσ, hl, hok, show _ ∈ (unlinked (τ 5)).log from hlog ▸ hfinal⟩

/-- **The collector leaves the cells of the program alone.** Between two states of a run a word
of a cell that stays in use has the value that the program last stored there.
SOURCE: m_gc_obj.c:134-173, 378-645 -/
theorem memory_run_words {ops : List GCMemOp} {σ : ℕ → GCMemory} (h : GCMemRun D ops σ)
    (hp : MemPlaced D ops σ) {i j : ℕ} (hij : i ≤ j) (hj : j ≤ ops.length)
    (huse : ∀ n, i ≤ n → n ≤ j → (σ n).inUse D a)
    (hstore : ∀ n, i ≤ n → n < j → ∀ v, ops[n]? ≠ some (.write a v)) :
    (σ j).links.next a = (σ i).links.next a := by
  obtain ⟨τ, -, hboth⟩ := memRun_linked h hp
  induction j, hij using Nat.le_induction with
  | base => rfl
  | succ j hij ih =>
    have hlt : j < ops.length := hj
    rw [← ih hlt.le (fun n hn hnj => huse n hn (Nat.le_succ_of_le hnj))
      fun n hn hnj => hstore n hn (Nat.lt_succ_of_lt hnj)]
    obtain ⟨hl, hi⟩ := hboth j hlt.le
    obtain ⟨s', -, hl', hi', hwords⟩ := memStep_linked hl hi (hp j hlt) (h.step j hlt)
    refine hwords a (fun v hv => hstore j hij (Nat.lt_succ_self j) v ?_) ?_ ?_
    · rw [List.getElem?_eq_getElem hlt, hv]
    · exact (inUse_iff hl hi.heap).mp (huse j hij (Nat.le_succ j))
    · exact (inUse_iff hl' hi'.heap).mp (huse (j + 1) (Nat.le_succ_of_le hij) le_rfl)

/-- The double keeps what the program stored, through an allocation and a collection. -/
theorem memory_run_words_written : ∃ σ : ℕ → GCMemory, GCMemRun defaultConfig writtenOps σ ∧
    (σ 5).inUse defaultConfig 4264 ∧ (σ 5).links.next 4264 = 7 := by
  obtain ⟨σ, υ, hσ, hplaced, -, -, hstored, huse⟩ := writtenRun
  refine ⟨σ, hσ, huse 5 (by decide) le_rfl, (memory_run_words hσ hplaced (i := 2) (j := 5)
    (by decide) le_rfl huse fun n hn hn' v => ?_).trans hstored⟩
  rcases (by omega : n = 2 ∨ n = 3 ∨ n = 4) with rfl | rfl | rfl
  · simp [writtenOps]
  · simp [writtenOps]
  · simp [writtenOps]

end Ming.Analysis
