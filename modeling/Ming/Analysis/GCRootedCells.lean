import Ming.Analysis.GCNewBorn
import Ming.Analysis.GCRootMarking

/-!
# Registered cells over whole runs

The root table and the cell heap together: the calls of the root API change the table, and a
collection marks the pointers that it finds in the table as it is then. A cell without pointers
that is registered between two collection cycles is black whenever a sweep comes.
-/

set_option autoImplicit false

namespace Ming.Analysis

open Ming.Foundation Ming.Model Ming.Interface

/-- The root table and the cell heap. -/
structure GCSystem where
  roots : GCRootMem
  heap : GCState

/-- A call of the root API, or an operation on the heap. -/
inductive SystemOp where
  | root (op : RootOp)
  | heap (op : GCOp)

/-- One operation. An operation on the heap finds the pointers of the table, for which `setRoots`
stands in the heap alone. -/
inductive SystemStep (D : GCConfig) (N : Set Ptr) (mapped : Ptr → Bool) :
    GCSystem → SystemOp → GCSystem → Prop
  | root {r r' : GCRootMem} {s : GCState} {op : RootOp} : RootStep N r op r' →
      SystemStep D N mapped ⟨r, s⟩ (.root op) ⟨r', s⟩
  | heap {r : GCRootMem} {s s' : GCState} {op : GCOp} {ptrs : List Addr} {walk : ℕ} :
      (∀ l, op ≠ .setRoots l) → (∀ fuel ≥ walk, gcRootPointers mapped fuel r = .ok ptrs) →
      GCStep D { s with rootHash := ptrs } op s' → SystemStep D N mapped ⟨r, s⟩ (.heap op) ⟨r, s'⟩

/-- The runs from `m_gc_startup`. -/
abbrev SystemRun (D : GCConfig) (N : Set Ptr) (mapped : Ptr → Bool) (ops : List SystemOp)
    (x : ℕ → GCSystem) : Prop :=
  Run (fun x => (∃ m, x.roots = gcRootHashStartup m) ∧ x.heap = gcObjStartup)
    (SystemStep D N mapped) ops x

/-- The call of the root API. -/
def SystemOp.rootOp : SystemOp → Option RootOp
  | .root op => some op
  | .heap _ => none

/-- The calls of the root API. -/
def rootOps (ops : List SystemOp) : List RootOp := ops.filterMap SystemOp.rootOp

/-- The operations of the mutator: no removal names a record, and no collection clears. -/
def SystemMutator (N : Set Ptr) : SystemOp → Prop
  | .root op => ∀ p, op = .remove p → p ∉ N
  | .heap op => Mutator op

/-- What `ptr` says about the pool and the number of its cell, and that the type of the cell holds
no pointers. -/
structure RootOf (D : GCConfig) (pool₀ : MGCCellPool) (c : Cell) (ptr : Addr) : Prop where
  base : c.1 = gcObjGetPool D ptr
  id : gcObjGetId (D.descrs pool₀.type) pool₀ ptr = .ok c.2
  free : ¬ (D.descrs pool₀.type).hasPtr

/-- The colour of a registered cell: black from the marking of the roots to the sweep. -/
def keptMark (s : GCState) : BitVec 32 :=
  if s.status = .markObj ∨ s.status = .sweep then GC_MARK_BLACK else GC_MARK_WHITE

/-- The cell `c` is in use, in a pool like `pool₀`. -/
def KeptCell (pool₀ : MGCCellPool) (c : Cell) (s : GCState) : Prop :=
  ∃ pool, s.pools c.1 = some pool ∧ pool.begin = pool₀.begin ∧ pool.type = pool₀.type ∧
    poolMark pool c.2 = keptMark s

/-- No cell at `a` has been finalized between `s` and `s'`. -/
def NoFinal (a : Addr) (s s' : GCState) : Prop :=
  ∃ l, s'.log = s.log ++ l ∧ ∀ t, GCEvent.final t a ∉ l

variable {D : GCConfig} {N : Set Ptr} {mapped : Ptr → Bool} {s s' s₁ : GCState}
variable {pool₀ : MGCCellPool} {c : Cell} {ptr a : Addr} {flags : BitVec 32} {op : GCOp}
variable {ops : List SystemOp} {x : ℕ → GCSystem} {n i : ℕ} {p : Ptr}

/-! ## The cell -/

/-- INTERNAL: a step that notes nothing finalizes nothing. -/
theorem NoFinal.of_log (h : s'.log = s.log) : NoFinal a s s' :=
  ⟨[], by rw [h, List.append_nil], fun _ hf => absurd hf List.not_mem_nil⟩

/-- INTERNAL: one step after the other. -/
theorem NoFinal.trans {s'' : GCState} (h : NoFinal a s s') (h' : NoFinal a s' s'') :
    NoFinal a s s'' := by
  obtain ⟨l, e, hl⟩ := h
  obtain ⟨l', e', hl'⟩ := h'
  refine ⟨l ++ l', by rw [e', e, List.append_assoc], fun t hf => ?_⟩
  exact (List.mem_append.mp hf).elim (hl t) (hl' t)

/-- INTERNAL: a cell that is kept is in use. -/
theorem keptMark_ne_unused (s : GCState) : keptMark s ≠ GC_MARK_UNUSED := by
  rw [keptMark]
  split_ifs <;> decide

/-- INTERNAL: a cell is kept by its pool and the status. -/
theorem KeptCell.congr (h : KeptCell pool₀ c s) (hpools : s'.pools = s.pools)
    (hstatus : s'.status = s.status) : KeptCell pool₀ c s' := by
  rw [KeptCell, keptMark, hpools, hstatus]
  exact h

/-- INTERNAL: an allocated cell between two collection cycles, or one that is black already.
SOURCE: m_gc_obj.c:378-441 -/
theorem KeptCell.of_used (hi : GCInv D s) (hpool : s.pools c.1 = some pool₀)
    (hused : poolMark pool₀ c.2 ≠ GC_MARK_UNUSED)
    (hblack : s.status = .markObj ∨ s.status = .sweep → poolMark pool₀ c.2 = GC_MARK_BLACK) :
    KeptCell pool₀ c s := by
  refine ⟨pool₀, hpool, rfl, rfl, ?_⟩
  rw [keptMark]
  by_cases hst : s.status = .markObj ∨ s.status = .sweep
  · rw [if_pos hst]
    exact hblack hst
  · have hidle : s.status = .idle ∨ s.status = .compact := by
      have hroot := hi.status
      cases e : s.status <;> simp_all
    rw [if_neg hst]
    rcases poolMark_cases pool₀ c.2 with hm | hm | hm | hm
    · exact absurd hm hused
    · exact hm
    · exact absurd hm (hi.noGray c.1 pool₀ hpool c.2)
    · exact absurd ⟨c.2, hm⟩ (hi.noBlack hidle c.1 pool₀ hpool)

/-- INTERNAL: a cell that is kept is a cell of its pool. -/
theorem KeptCell.lt (h : KeptCell pool₀ c s) (hi : HeapInv D [] s) :
    c.2 < D.cellNum pool₀.type := by
  obtain ⟨pool, hpool, -, htype, hmark⟩ := h
  by_contra hge
  have hpad := (hi.pool hpool).padding c.2 (htype ▸ Nat.le_of_not_lt hge)
  exact keptMark_ne_unused s (hmark.symm.trans hpad)

/-- INTERNAL: the pointer of a kept cell leads to it. -/
theorem KeptCell.pointsTo (h : KeptCell pool₀ c s) (hr : RootOf D pool₀ c ptr) :
    PointsTo D s ptr c.1 c.2 := by
  obtain ⟨pool, hpool, hbegin, htype, -⟩ := h
  refine ⟨hr.base, pool, hpool, ?_⟩
  have hid := hr.id
  rw [gcObjGetId] at hid ⊢
  rw [htype, hbegin]
  exact hid

/-- INTERNAL: the marking of the roots blackens a registered cell.
SOURCE: m_gc_obj.c:200-223, 258-278 -/
theorem KeptCell.blackens (h : KeptCell pool₀ c s) (hr : RootOf D pool₀ c ptr)
    (hptr : ptr ∈ s.rootHash) : RootBlackens D s c.1 c.2 := by
  obtain ⟨pool, hpool, -, htype, -⟩ := id h
  refine rootBlackens_iff.mpr (Or.inr ⟨Or.inr ⟨ptr, hptr, h.pointsTo hr⟩, pool, hpool, ?_⟩)
  rw [htype]
  exact hr.free

/-! ## Collections -/

/-- INTERNAL: a heap that is swept is not compacted. -/
theorem Sweeps.not_compact (h : Sweeps s flags) : s.status ≠ .compact := by
  intro hst
  rw [Sweeps, hst] at h
  simp at h

/-- INTERNAL: a registered cell between marking and sweeping. -/
theorem Collected.kept_marked (h : Collected D flags s s₁ s') (hi : GCInv D s)
    (hf : ¬ clearing flags) (hk : KeptCell pool₀ c s) (hr : RootOf D pool₀ c ptr)
    (hptr : ptr ∈ s.rootHash) :
    ∃ pool, s₁.pools c.1 = some pool ∧ pool.begin = pool₀.begin ∧ pool.type = pool₀.type ∧
      poolMark pool c.2 = if s.status = .compact then GC_MARK_WHITE else GC_MARK_BLACK := by
  have hblackens := hk.blackens hr hptr
  obtain ⟨pool, hpool, hbegin, htype, hmark⟩ := hk
  by_cases hm : MarksRoots s flags
  · have hidle : s.status = .idle := hm.1
    obtain ⟨pool₁, hpool₁, hb⟩ := (h.marked hm).2.mapped c.1 pool hpool
    refine ⟨pool₁, hpool₁, hb.begin_eq.trans hbegin, hb.type_eq.trans htype, ?_⟩
    have hwhite : keptMark s = GC_MARK_WHITE := by
      rw [keptMark, hidle]
      exact if_neg (by simp)
    rw [if_neg (by rw [hidle]; simp)]
    exact hb.black c.2 (hmark.trans hwhite) hblackens
  · obtain rfl := h.unmarked hm
    refine ⟨pool, hpool, hbegin, htype, hmark.trans ?_⟩
    rw [keptMark]
    cases hst : s₁.status with
    | idle => exact absurd ⟨hst, hf⟩ hm
    | markRoot => exact absurd hst hi.status
    | markObj => rfl
    | sweep => rfl
    | compact => rfl

/-- INTERNAL: a collection keeps a registered cell.
SOURCE: m_gc_obj.c:378-522 -/
theorem Collected.kept (h : Collected D flags s s₁ s') (hi : GCInv D s) (hf : ¬ clearing flags)
    (hk : KeptCell pool₀ c s) (hr : RootOf D pool₀ c ptr) (hptr : ptr ∈ s.rootHash) :
    KeptCell pool₀ c s' := by
  obtain ⟨pool, hpool, hbegin, htype, hmark⟩ := h.kept_marked hi hf hk hr hptr
  have hstatus := h.status
  by_cases hs : Sweeps s flags
  · have hblack : poolMark pool c.2 = GC_MARK_BLACK := by
      rw [hmark, if_neg]
      intro hst
      rw [Sweeps, hst] at hs
      simp at hs
    obtain ⟨-, bases, -, hmem, hswept⟩ := h.swept hs
    obtain ⟨q, hq, hkept, -⟩ := hswept.swept c.1 ((hmem c.1).mpr (by simp [hpool]))
    obtain rfl := Option.some.inj (hpool.symm.trans hq)
    obtain ⟨pool', hpool', hsw⟩ := hkept ⟨c.2, hblack⟩
    refine ⟨pool', hpool', hsw.begin_eq.trans hbegin, hsw.type_eq.trans htype, ?_⟩
    rw [hsw.mark, hblack, keptMark, hstatus, statusAfter, if_pos hs]
    split_ifs <;> first | rfl | simp_all
  · obtain ⟨st, rfl⟩ := h.unswept hs
    refine ⟨pool, hpool, hbegin, htype, hmark.trans ?_⟩
    rw [keptMark, hstatus, statusAfter, if_neg hs]
    cases hst : s.status with
    | idle => rfl
    | markRoot => exact absurd hst hi.status
    | markObj => rfl
    | sweep => exact absurd (Or.inl hst) hs
    | compact => rfl

/-- INTERNAL: a collection does not finalize a registered cell.
SOURCE: m_gc_obj.c:378-441 -/
theorem Collected.kept_noFinal (h : Collected D flags s s₁ s') (hi : GCInv D s)
    (hf : ¬ clearing flags) (hk : KeptCell pool₀ c s) (hr : RootOf D pool₀ c ptr)
    (hptr : ptr ∈ s.rootHash) : NoFinal (cellAddr D pool₀ c.2) s s' := by
  obtain ⟨l, hl⟩ := h.log_append
  refine ⟨l, hl, fun t hfinal => ?_⟩
  have hevents : eventsSince s s' = l := by rw [eventsSince, hl, List.drop_left]
  rw [← hevents] at hfinal
  by_cases hs : Sweeps s flags
  · obtain ⟨pool, hpool, hbegin, htype, hmark⟩ := h.kept_marked hi hf hk hr hptr
    obtain ⟨base, q, hq, -, hwhite⟩ := (h.final_mem_iff hs).mp hfinal
    obtain ⟨id, hid, haddr, hw⟩ := mem_whiteCells.mp hwhite
    have hsame : cellAddr D pool₀ c.2 = cellAddr D pool c.2 := by
      rw [cellAddr, cellAddr, hbegin, htype]
    have hlt : c.2 < D.cellNum pool.type := htype ▸ hk.lt hi.heap
    rw [hsame] at haddr
    -- the address determines the cell
    have hbase : c.1 = base := by
      rw [← (h.heap.pool hpool).getPool_cellAddr hlt, haddr,
        (h.heap.pool hq).getPool_cellAddr hid]
    subst hbase
    obtain rfl := Option.some.inj (hpool.symm.trans hq)
    obtain rfl := (h.heap.pool hpool).cellAddr_inj haddr
    rw [hw, if_neg hs.not_compact] at hmark
    exact absurd hmark (by decide)
  · exact h.final_notMem hs hfinal

/-! ## The other operations -/

/-- INTERNAL: an allocation keeps a cell that is in use.
SOURCE: m_gc_obj.c:570-633 -/
theorem TookCell.kept {th oid : ℕ} {cell : Addr} {t : MGCObjType}
    (h : TookCell D s th t cell oid s') (hk : KeptCell pool₀ c s) : KeptCell pool₀ c s' := by
  obtain ⟨base, pool, pool', id, hbefore, -, -, -, htook, hpools⟩ := h.pool
  obtain ⟨q, hq, hbegin, htype, hmark⟩ := hk
  have hstatus : keptMark s' = keptMark s := by rw [keptMark, keptMark, h.rest]
  rw [KeptCell, hstatus]
  by_cases hb : c.1 = base
  · rcases hbefore.cases with hmapped | ⟨hnone, -⟩
    · obtain rfl := Option.some.inj (hmapped.symm.trans (hb ▸ hq))
      refine ⟨pool', (congrFun hpools c.1).trans (if_pos hb), htook.begin_eq.trans hbegin,
        htook.type_eq.trans htype, ?_⟩
      rw [htook.mark, if_neg]
      · exact hmark
      · rintro rfl
        exact keptMark_ne_unused s (hmark.symm.trans htook.unused)
    · exact absurd (hq.symm.trans (hb ▸ hnone)) (Option.some_ne_none q)
  · exact ⟨q, (congrFun hpools c.1).trans ((if_neg hb).trans hq), hbegin, htype, hmark⟩

/-- INTERNAL: every operation of the mutator keeps a registered cell and does not finalize it. -/
theorem GCStep.kept (hs : GCStep D s op s') (hi : GCInv D s) (hp : op.placed D s)
    (hop : Mutator op)
    (hroots : ∀ l, op ≠ .setRoots l) (hk : KeptCell pool₀ c s) (hr : RootOf D pool₀ c ptr)
    (hptr : ptr ∈ s.rootHash) :
    KeptCell pool₀ c s' ∧ NoFinal (cellAddr D pool₀ c.2) s s' := by
  obtain ⟨hmap, refs, n, e⟩ := hs
  cases op with
  | alloc th type map waiting =>
    obtain ⟨⟨r, s₁⟩, e₁, e₂⟩ := Outcome.bind_eq_ok.mp e
    obtain rfl := Except.ok.inj e₂
    rcases allocObj_spec hi.heap (freshMap_of_placed hp hmap) e₁ with
      ⟨-, rfl, -⟩ | ⟨cell, oid, s₂, -, htook, hcase⟩
    · exact ⟨hk, NoFinal.of_log rfl⟩
    · have hi₂ := htook.inv hp hi
      have hk₂ := htook.kept hk
      have hlog : NoFinal (cellAddr D pool₀ c.2) s s₂ :=
        ⟨[.alloc cell], by rw [htook.rest], fun t hf => by simp at hf⟩
      have hptr₂ : ptr ∈ s₂.rootHash := by
        rw [htook.rest]
        exact hptr
      rcases hcase with ⟨-, -, b, hcollect⟩ | ⟨-, rfl⟩
      · obtain ⟨sm, hc⟩ := collect_spec hi₂ hcollect
        have hclear : ¬ clearing 0 := by decide
        exact ⟨hc.kept hi₂ hclear hk₂ hr hptr₂,
          hlog.trans (hc.kept_noFinal hi₂ hclear hk₂ hr hptr₂)⟩
      · exact ⟨hk₂, hlog⟩
  | run flags waiting =>
    have hclear : ¬ clearing flags := by
      rcases hop with rfl | rfl <;> decide
    rw [GCOp.exec, gcCollectObjs] at e
    split_ifs at e
    · obtain rfl := Except.ok.inj e
      exact ⟨hk, NoFinal.of_log rfl⟩
    · obtain ⟨⟨b, s₁⟩, e₁, e₂⟩ := Outcome.bind_eq_ok.mp e
      obtain rfl := Except.ok.inj e₂
      obtain ⟨sm, hc⟩ := collect_spec hi e₁
      exact ⟨hc.kept hi hclear hk hr hptr, hc.kept_noFinal hi hclear hk hr hptr⟩
  | addObj th oid =>
    obtain ⟨self, -, -, rfl⟩ := addObj_spec e
    exact ⟨hk.congr rfl rfl, NoFinal.of_log rfl⟩
  | setNbLevel th level =>
    obtain ⟨self, -, -, rfl⟩ := setNbLevel_spec e
    exact ⟨hk.congr rfl rfl, NoFinal.of_log rfl⟩
  | setRoots ptrs => exact absurd rfl (hroots ptrs)
  | threadEnter =>
    obtain rfl := Except.ok.inj e
    exact ⟨hk.congr rfl rfl, NoFinal.of_log rfl⟩
  | threadExit th =>
    obtain rfl := Except.ok.inj e
    exact ⟨hk.congr rfl rfl, NoFinal.of_log rfl⟩

/-! ## Runs of both -/

/-- The records of the table, and the invariant of the heap. -/
structure SystemInv (D : GCConfig) (N : Set Ptr) (l : List SystemOp) (y : GCSystem) : Prop where
  roots : ∃ B, RootBag N (rootOps l) y.roots B
  heap : GCInv D y.heap

/-- INTERNAL: one more call of the root table. -/
theorem rootOps_root (l : List SystemOp) (op : RootOp) :
    rootOps (l ++ [.root op]) = rootOps l ++ [op] := by
  rw [rootOps, List.filterMap_append]
  rfl

/-- INTERNAL: an operation of the heap is no call of the root table. -/
theorem rootOps_heap (l : List SystemOp) (op : GCOp) : rootOps (l ++ [.heap op]) = rootOps l := by
  rw [rootOps, List.filterMap_append]
  exact List.append_nil _

/-- INTERNAL: the heap does not depend on the registered pointers. -/
theorem GCInv.withRoots (h : GCInv D s) (ptrs : List Addr) : GCInv D { s with rootHash := ptrs } :=
  h.withThreads h.threads ptrs

/-- What the collector does not check has nothing to do with the roots. -/
theorem placed_withRoots (h : op.placed D s) (ptrs : List Addr) :
    op.placed D { s with rootHash := ptrs } := by
  cases op with
  | alloc th type map waiting => exact ⟨h.aligned, h.counted, h.near⟩
  | _ => exact trivial

/-- The operation on the heap meets what the collector does not check. -/
def SystemOp.placed (D : GCConfig) (s : GCState) : SystemOp → Prop
  | .root _ => True
  | .heap op => op.placed D s

/-- Every operation of the run does. -/
def SystemPlaced (D : GCConfig) (ops : List SystemOp) (x : ℕ → GCSystem) : Prop :=
  ∀ i (hi : i < ops.length), (ops[i]).placed D (x i).heap

/-- INTERNAL: every operation keeps the invariant. -/
theorem SystemInv.step {l : List SystemOp} {y y' : GCSystem} {o : SystemOp}
    (h : SystemInv D N l y) (hs : SystemStep D N mapped y o y') (ho : SystemMutator N o)
    (hp : o.placed D y.heap) : SystemInv D N (l ++ [o]) y' := by
  cases hs with
  | root hs =>
    obtain ⟨B, hB⟩ := h.roots
    refine ⟨?_, h.heap⟩
    rw [rootOps_root]
    exact hB.step hs ho
  | heap hne hload hs =>
    refine ⟨?_, step_inv (h.heap.withRoots _) (placed_withRoots hp _) hs⟩
    rw [rootOps_heap]
    exact h.roots

/-- INTERNAL: the invariant in every state of a run. -/
theorem systemInv_run (h : SystemRun D N mapped ops x) (hp : SystemPlaced D ops x)
    (hops : ∀ o ∈ ops, SystemMutator N o) (hn : n ≤ ops.length) :
    SystemInv D N (ops.take n) (x n) := by
  refine h.inv_of (fun l y => SystemInv D N l y)
    (fun _ y o => SystemMutator N o ∧ o.placed D y.heap) ?_ ?_ n hn fun i hi _ =>
      ⟨hops _ (List.getElem_mem hi), hp i hi⟩
  · rintro ⟨m, s⟩ ⟨⟨m₀, hm⟩, hs⟩
    obtain rfl : m = gcRootHashStartup m₀ := hm
    obtain rfl : s = gcObjStartup := hs
    exact ⟨⟨[], rootBag_startup N m₀⟩, startup_inv D⟩
  · rintro l y o y' ih hs ⟨ho, hplaced⟩
    exact ih.step hs ho hplaced

/-- INTERNAL: every operation keeps a registered cell, which it finds in the table when it
collects. -/
theorem SystemInv.kept {l : List SystemOp} {y y' : GCSystem} {o : SystemOp}
    (h : SystemInv D N l y) (hs : SystemStep D N mapped y o y') (ho : SystemMutator N o)
    (hp : o.placed D y.heap) (hmap : ∀ rn ∈ N, mapped rn = true)
    (hadd : ∀ op, o = .heap op → RootOp.add p ∈ rootOps l)
    (hr : RootOf D pool₀ c p.toNat) (hk : KeptCell pool₀ c y.heap) :
    KeptCell pool₀ c y'.heap ∧ NoFinal (cellAddr D pool₀ c.2) y.heap y'.heap := by
  cases hs with
  | root hs => exact ⟨hk, NoFinal.of_log rfl⟩
  | @heap m s s' op ptrs walk hne hload hs =>
    obtain ⟨B, hB⟩ := h.roots
    have hB : RootBag N (rootOps l) m B := hB
    have hptrs : ptrs = tablePtrs m B := by
      have hspec := rootPointers_spec hB.buckets (fun rn hrn => hmap rn (hB.node rn hrn))
        (Nat.lt_succ_of_le (Nat.le_add_right (B.flatten.length + B.length) walk))
      exact Except.ok.inj ((hload _ (by omega)).symm.trans hspec)
    have hmem : p.toNat ∈ ptrs := by
      have hp := hB.ptrs.mem_iff.mpr (mem_addedPtrs.mpr (hadd op rfl))
      obtain ⟨rn, hrn, rfl⟩ := List.mem_map.mp hp
      rw [hptrs]
      exact List.mem_map_of_mem hrn
    have hloaded : KeptCell pool₀ c { s with rootHash := ptrs } := hk.congr rfl rfl
    have hkept := GCStep.kept hs (h.heap.withRoots ptrs) (placed_withRoots hp ptrs) ho hne hloaded
      hr hmem
    exact ⟨hkept.1, hkept.2⟩

/-- **A registered object without pointers survives.** Once `m_gc_add_root` has registered an
object in use whose type holds no pointers, and unless the roots had been marked before and not
the object, it is in use and not finalized in all later states of a run, however allocations,
complete and incremental collections, threads and other calls of the root API interleave; also
after `m_gc_remove_root`, which does not find it.
SOURCE: m_gc_root.c:79-136; m_gc_obj.c:200-278, 378-522, 570-645 -/
theorem registered_survives (h : SystemRun D N mapped ops x) (hp : SystemPlaced D ops x)
    (hmap : ∀ rn ∈ N, mapped rn = true) (hops : ∀ o ∈ ops, SystemMutator N o)
    (hi : i < ops.length) (hadd : ops[i] = .root (.add p))
    (hpoints : PointsTo D (x i).heap p.toNat c.1 c.2) (hused : IsAllocated (x i).heap c)
    (hfree : PointerFree D (x i).heap c)
    (hmarked : (x i).heap.status = .markObj ∨ (x i).heap.status = .sweep →
      ∃ pool, (x i).heap.pools c.1 = some pool ∧ poolMark pool c.2 = GC_MARK_BLACK)
    (hin : i ≤ n) (hn : n ≤ ops.length) :
    IsAllocated (x n).heap c ∧ PointerFree D (x n).heap c ∧ ¬ Swept D (x i).heap (x n).heap c := by
  obtain ⟨hbase, pool₀, hpool, hid⟩ := hpoints
  have hinv := systemInv_run h hp hops (Nat.le_of_lt hi)
  have hr : RootOf D pool₀ c p.toNat := by
    obtain ⟨q, hq, hf⟩ := hfree
    obtain rfl := Option.some.inj (hpool.symm.trans hq)
    exact ⟨hbase, hid, hf⟩
  have hk : KeptCell pool₀ c (x i).heap := by
    obtain ⟨q, hq, hu⟩ := hused
    obtain rfl := Option.some.inj (hpool.symm.trans hq)
    refine KeptCell.of_used hinv.heap hpool hu fun hst => ?_
    obtain ⟨q', hq', hb⟩ := hmarked hst
    obtain rfl := Option.some.inj (hpool.symm.trans hq')
    exact hb
  -- the object stays in the table from the next state on
  have hall : ∀ k, i + k ≤ ops.length → KeptCell pool₀ c (x (i + k)).heap ∧
      NoFinal (cellAddr D pool₀ c.2) (x i).heap (x (i + k)).heap := by
    intro k
    induction k with
    | zero => exact fun _ => ⟨hk, NoFinal.of_log rfl⟩
    | succ k ih =>
      intro hle
      have hlt : i + k < ops.length := hle
      obtain ⟨hkk, hlog⟩ := ih (Nat.le_of_lt hlt)
      have hs := h.step (i + k) hlt
      have ho := hops _ (List.getElem_mem hlt)
      have hmem : ∀ op, ops[i + k] = .heap op → RootOp.add p ∈ rootOps (ops.take (i + k)) := by
        intro op e
        have hk0 : k ≠ 0 := by
          rintro rfl
          exact absurd (hadd.symm.trans e) (by simp)
        refine List.mem_filterMap.mpr ⟨.root (.add p), ?_, rfl⟩
        exact List.mem_take_iff_getElem.mpr ⟨i, by omega, hadd⟩
      obtain ⟨hkept, hnew⟩ :=
        (systemInv_run h hp hops (Nat.le_of_lt hlt)).kept hs ho (hp _ hlt) hmap hmem hr
          hkk
      exact ⟨hkept, hlog.trans hnew⟩
  obtain ⟨k, rfl⟩ := Nat.exists_eq_add_of_le hin
  obtain ⟨⟨pool, hq, hbegin, htype, hmark⟩, l, hl, hfinal⟩ := hall k hn
  refine ⟨⟨pool, hq, fun hu => keptMark_ne_unused _ (hmark.symm.trans hu)⟩,
    ⟨pool, hq, htype ▸ hr.free⟩, ?_⟩
  rintro ⟨q, hq₀, -, hf⟩
  obtain rfl := Option.some.inj (hpool.symm.trans hq₀)
  rw [eventsSince, hl, List.drop_left] at hf
  exact hfinal _ hf

/-- Operations on the heap, and what the table holds when the collection comes. -/
def registeredOps : List GCOp :=
  [.alloc 0 .double (some 4096) false, .alloc 0 .string (some 8192) false, .setNbLevel 0 0,
    .setRoots [4264], .run 0 false]

/-- The same operations, and the registration of the first double. -/
def registeredSystemOps : List SystemOp :=
  [.heap (.alloc 0 .double (some 4096) false), .heap (.alloc 0 .string (some 8192) false),
    .heap (.setNbLevel 0 0), .root (.add 4264), .heap (.run 0 false)]

/-- What the table holds in these states, and the first double before its registration. -/
def registeredCheck (s : GCState) : GCOp → Bool
  | .setRoots _ => decide (s.status = .idle ∧ target defaultConfig s 4264 = some (4096, 0)) &&
    (s.pools 4096).any fun pool => decide (pool.type = .double ∧ poolMark pool 0 = GC_MARK_WHITE)
  | .run _ _ => true
  | _ => s.rootHash.isEmpty

/-- A registered floating point number survives a complete collection, which finalizes a string. -/
theorem registered_survives_double : ∃ x, SystemRun defaultConfig {8} (fun _ => true)
      registeredSystemOps x ∧ PointsTo defaultConfig (x 3).heap 4264 4096 0 ∧
    .final .string 8296 ∈ (x 5).heap.log ∧ IsAllocated (x 5).heap (4096, 0) := by
  -- the table before and after the registration
  have hB₀ := rootBag_startup {8} rootStart
  have hobj : (4264 : Ptr) ∉ ({8} : Set Ptr) := by
    intro e
    exact absurd (show (4264 : Ptr) = 8 from e) (by decide)
  obtain ⟨m₁, B₁, e₁, hB₁, hperm, hptr, -⟩ := addRoot_spec hB₀.buckets (p := 4264)
    (by decide) (fun b hb => by simp at hb) (show (8 : Ptr) ≠ NULL by decide) (by simp) Nat.one_pos
  have hadd : RootStep {8} (gcRootHashStartup rootStart) (.add 4264) m₁ := by
    refine .add hobj rfl (by decide) (fun B hB => ?_) e₁
    obtain rfl := hB.unique hB₀.buckets
    simp
  have hflat : B₁.flatten = [8] := List.perm_singleton.mp hperm
  have hload₀ : ∀ fuel ≥ 1, gcRootPointers (fun _ => true) fuel (gcRootHashStartup rootStart) =
      .ok [] := fun fuel hf => rootPointers_spec hB₀.buckets (fun _ _ => rfl) hf
  have hload₁ : ∀ fuel ≥ B₁.length + 2, gcRootPointers (fun _ => true) fuel m₁ = .ok [4264] := by
    intro fuel hf
    have hlt : B₁.flatten.length + B₁.length < fuel := by
      rw [hflat, List.length_singleton]
      omega
    refine (rootPointers_spec hB₁ (fun _ _ => rfl) hlt).trans ?_
    rw [tablePtrs, hflat, hptr]
    rfl
  -- the run of the heap with the roots that the table holds
  have hc : runChecked defaultConfig (fun _ => []) registeredCheck
      (fun s => decide (.final .string 8296 ∈ s.log)) registeredOps gcObjStartup = true := by
    decide +kernel
  obtain ⟨τ, hτ⟩ := run_of_checked (startup_inv defaultConfig) hc
  have hempty : ∀ i < 3, { τ i with rootHash := [] } = τ i := by
    intro i hi
    have hroots : (τ i).rootHash.isEmpty = true := by
      have hq := hτ.steps i (Nat.lt_trans hi (by decide))
      match i, hi with
      | 0, _ | 1, _ | 2, _ => exact hq
    rw [← List.isEmpty_iff.mp hroots]
  obtain ⟨-, refs, fuel, e⟩ := hτ.run.step 3 (by decide)
  have hset : { τ 3 with rootHash := [4264] } = τ 4 := Except.ok.inj e
  have hq := hτ.steps 3 (by decide)
  simp only [registeredOps, List.getElem_cons_succ, List.getElem_cons_zero, registeredCheck,
    Bool.and_eq_true, decide_eq_true_eq] at hq
  obtain ⟨⟨hidle, htarget⟩, hmark⟩ := hq
  -- the run of both
  have hstep : ∀ {s s' s'' : GCState} {op : GCOp}, s' = s → GCStep defaultConfig s op s'' →
      GCStep defaultConfig s' op s'' := fun e hs => e ▸ hs
  let x (i : ℕ) : GCSystem :=
    ⟨if i ≤ 3 then gcRootHashStartup rootStart else m₁, if i = 4 then τ 3 else τ i⟩
  have hx : SystemRun defaultConfig {8} (fun _ => true) registeredSystemOps x := by
    refine ⟨⟨⟨_, rfl⟩, hτ.run.init⟩, fun i hi => ?_⟩
    have hs := hτ.run.step i hi
    match i, hi with
    | 0, _ => exact .heap (fun _ => by simp) hload₀ (hstep (hempty 0 (by decide)) hs)
    | 1, _ => exact .heap (fun _ => by simp) hload₀ (hstep (hempty 1 (by decide)) hs)
    | 2, _ => exact .heap (fun _ => by simp) hload₀ (hstep (hempty 2 (by decide)) hs)
    | 3, _ => exact .root hadd
    | 4, _ => exact .heap (fun _ => by simp) hload₁ (hstep hset hs)
  have hplaced : SystemPlaced defaultConfig registeredSystemOps x := by
    intro i hi
    have hp := hτ.placed i hi
    match i, hi with
    | 0, _ | 1, _ | 2, _ => exact hp
    | 3, _ | 4, _ => trivial
  have hpoints : PointsTo defaultConfig (x 3).heap (4264 : Ptr).toNat 4096 0 :=
    target_iff.mp htarget
  obtain ⟨pool, hpool, hwhite⟩ := (Option.any_eq_true _ _).mp hmark
  obtain ⟨htype, hwhite⟩ := of_decide_eq_true hwhite
  refine ⟨x, hx, hpoints, of_decide_eq_true hτ.last, ?_⟩
  refine (registered_survives hx hplaced (fun _ _ => rfl) (fun o ho => ?_) (i := 3) (n := 5)
    (c := (4096, 0)) (by decide) rfl hpoints ⟨pool, hpool, ?_⟩ ⟨pool, hpool, ?_⟩ (fun hst => ?_)
    (by decide) le_rfl).1
  · simp only [registeredSystemOps, List.mem_cons, List.not_mem_nil, or_false] at ho
    rcases ho with rfl | rfl | rfl | rfl | rfl
    · trivial
    · trivial
    · trivial
    · exact fun p hp => by cases hp
    · exact Or.inl rfl
  · exact fun hu => absurd (hwhite.symm.trans hu) (by decide)
  · rw [htype]
    decide
  · have hst : (τ 3).status = .markObj ∨ (τ 3).status = .sweep := hst
    rw [hidle] at hst
    simp at hst

end Ming.Analysis
