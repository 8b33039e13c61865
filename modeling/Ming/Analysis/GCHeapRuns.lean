import Ming.Analysis.GCAlloc
import Ming.Foundation.Runs

/-!
# The cell heap over whole runs

Every operation keeps the invariant of the heap and of the collector, so it holds between any
two operations of a run that starts after `m_gc_startup` and `m_thread_startup`.
-/

set_option autoImplicit false

namespace Ming.Analysis

open Ming.Foundation Ming.Model Ming.Interface

variable {D : GCConfig} {s s' : GCState} {op : GCOp} {ops : List GCOp} {σ : ℕ → GCState}
variable {refs : Addr → List Addr} {n : ℕ} {flags : BitVec 32} {waiting : Bool}

/-- A run of operations from the start of the program. -/
abbrev GCRun (D : GCConfig) (ops : List GCOp) (σ : ℕ → GCState) : Prop :=
  Run (fun s => s = gcObjStartup) (GCStep D) ops σ

/-- Every operation of the run meets what the collector does not check. -/
def RunPlaced (D : GCConfig) (ops : List GCOp) (σ : ℕ → GCState) : Prop :=
  ∀ i (hi : i < ops.length), (ops[i]).placed D (σ i)

/-- INTERNAL: the run without an operation. -/
theorem gcRun_nil (D : GCConfig) : GCRun D [] fun _ => gcObjStartup := Run.nil rfl

/-! ## One operation -/

/-- INTERNAL: the start of the program. -/
theorem startup_inv (D : GCConfig) : GCInv D gcObjStartup := by
  have hnone : ∀ b p, gcObjStartup.pools b = some p → False := fun b p hp => nomatch hp
  refine ⟨⟨fun hp => absurd hp (hnone _ _), ⟨fun t => List.nodup_nil, fun t full b => ?_⟩, ?_⟩,
    fun b p _ hp => absurd hp (hnone b p), fun b p hp => absurd hp (hnone b p),
    fun _ b p hp => absurd hp (hnone b p), rfl, rfl,
    (fun hs => nomatch hs), fun th hth => ?_⟩
  · refine iff_of_false ?_ fun ⟨_, p, hp, _⟩ => hnone b p hp
    cases full <;> exact List.not_mem_nil
  · exact ⟨[], List.nodup_nil, fun b => iff_of_false List.not_mem_nil fun hb => hb rfl, rfl⟩
  · obtain rfl := List.mem_singleton.mp hth
    exact ThreadInv.empty

/-- INTERNAL: the threads and the roots are not part of the heap. -/
theorem GCInv.withThreads (h : GCInv D s) {ths : List MThread} (hths : ∀ th ∈ ths, ThreadInv th)
    (ptrs : List Addr) : GCInv D { s with threadList := ths, rootHash := ptrs } :=
  ⟨⟨h.heap.pool, h.heap.lists, h.heap.bytes⟩, h.near, h.noGray, h.noBlack, h.stack, h.need,
    h.status, hths⟩

/-- INTERNAL: the thread record of the caller. -/
theorem threadSelf_eq_ok {th : ℕ} {self : MThread} :
    mThreadSelf s th = .ok self ↔ s.threadList[th]? = some self := by
  rw [mThreadSelf]
  cases s.threadList[th]? with
  | none => simp
  | some t => simp

/-- INTERNAL: a collection keeps the invariant, also one that another thread runs. -/
theorem collectObjs_inv (h : GCInv D s) (e : gcCollectObjs D refs n flags waiting s = .ok s') :
    GCInv D s' := by
  rw [gcCollectObjs] at e
  split_ifs at e
  · exact Except.ok.inj e ▸ h
  · obtain ⟨⟨b, s₁⟩, e₁, e₂⟩ := Outcome.bind_eq_ok.mp e
    obtain rfl := Except.ok.inj e₂
    obtain ⟨_, hc⟩ := collect_spec h e₁
    exact hc.inv

/-- INTERNAL: what `m_gc_add_obj` does to the heap.
SOURCE: m_gc.h:125-134 -/
theorem addObj_spec {th oid : ℕ} (e : mGCAddObj s th oid = .ok s') :
    ∃ self, s.threadList[th]? = some self ∧ oid < self.nbTop ∧
      s' = s.setThread th { self with nbStack := self.nbStack.modify oid fun w => w / 4 * 4 } := by
  obtain ⟨self, hself, e⟩ := Outcome.bind_eq_ok.mp e
  split_ifs at e with h₁ h₂
  exact ⟨self, threadSelf_eq_ok.mp hself, h₁, (Except.ok.inj e).symm⟩

/-- INTERNAL: what `m_gc_set_nb_level` does to the heap.
SOURCE: m_gc.h:96-106 -/
theorem setNbLevel_spec {th level : ℕ} (e : mGCSetNbLevel s th level = .ok s') :
    ∃ self, s.threadList[th]? = some self ∧ level ≤ self.nbTop ∧
      s' = s.setThread th { self with nbTop := level } := by
  obtain ⟨self, hself, e⟩ := Outcome.bind_eq_ok.mp e
  split_ifs at e with h₁
  exact ⟨self, threadSelf_eq_ok.mp hself, h₁, (Except.ok.inj e).symm⟩

/-- INTERNAL: a new record for one thread. -/
theorem GCInv.setThread (h : GCInv D s) {th : ℕ} {self : MThread} (hself : ThreadInv self) :
    GCInv D (s.setThread th self) := by
  refine h.withThreads (fun t ht => ?_) s.rootHash
  rcases List.mem_or_eq_of_mem_set ht with ht | rfl
  · exact h.threads t ht
  · exact hself

/-- INTERNAL: every operation keeps the invariant. -/
theorem step_inv (h : GCInv D s) (hp : op.placed D s) (hs : GCStep D s op s') : GCInv D s' := by
  obtain ⟨hmap, refs, n, e⟩ := hs
  cases op with
  | alloc th type map waiting =>
    obtain ⟨⟨r, s₁⟩, e₁, e₂⟩ := Outcome.bind_eq_ok.mp e
    obtain rfl := Except.ok.inj e₂
    rcases allocObj_spec h.heap (freshMap_of_placed hp hmap) e₁ with
      ⟨-, rfl, -⟩ | ⟨cell, oid, s₂, -, htook, hc | ⟨-, rfl⟩⟩
    · exact h
    · obtain ⟨-, -, b, hc⟩ := hc
      obtain ⟨_, hc⟩ := collect_spec (htook.inv hp h) hc
      exact hc.inv
    · exact htook.inv hp h
  | run flags waiting => exact collectObjs_inv h e
  | addObj th oid =>
    obtain ⟨self, hself, hlt, rfl⟩ := addObj_spec e
    have hinv := h.threads self (List.mem_of_getElem? hself)
    exact h.setThread ⟨hinv.size, by simpa using hinv.room, by simpa using hinv.top⟩
  | setNbLevel th level =>
    obtain ⟨self, hself, hle, rfl⟩ := setNbLevel_spec e
    exact h.setThread ((h.threads self (List.mem_of_getElem? hself)).lower hle)
  | setRoots ptrs =>
    obtain rfl := Except.ok.inj e
    exact h.withThreads h.threads ptrs
  | threadEnter =>
    obtain rfl := Except.ok.inj e
    refine h.withThreads (fun t ht => ?_) s.rootHash
    rcases List.mem_append.mp ht with ht | ht
    · exact h.threads t ht
    · obtain rfl := List.mem_singleton.mp ht
      exact ThreadInv.empty
  | threadExit th =>
    obtain rfl := Except.ok.inj e
    exact h.withThreads (fun t ht => h.threads t (List.mem_of_mem_eraseIdx ht)) s.rootHash

/-- INTERNAL: the invariant holds in every state of a run. -/
theorem run_inv (h : GCRun D ops σ) (hp : RunPlaced D ops σ) {n : ℕ} (hn : n ≤ ops.length) :
    GCInv D (σ n) :=
  h.inv_of (fun _ s => GCInv D s) (fun _ s op => op.placed D s)
    (fun s (hs : s = gcObjStartup) => hs ▸ startup_inv D)
    (fun _ _ _ _ hi hs hp => step_inv hi hp hs) n hn fun i hi _ => hp i hi

/-! ## The representation of the heap -/

/-- The cell `id` of the pool at `base` is allocated. -/
def Allocated (D : GCConfig) (s : GCState) (cell : Addr) : Prop :=
  ∃ base pool id, s.pools base = some pool ∧ id < D.cellNum pool.type ∧
    cell = cellAddr D pool id ∧ poolMark pool id ≠ GC_MARK_UNUSED

/-- The bytes of the allocated cells of all pools on the lists of all types. -/
def listedBytes (D : GCConfig) (s : GCState) : ℕ :=
  ((gcObjTypes.flatMap fun t => (s.stubs t).fullPools ++ (s.stubs t).usablePools).map
    (bytesAt D s.pools)).sum

/-- What the fields of the heap have to do with each other: the pool lists, the free lists,
the counter and the colours. -/
structure HeapOk (D : GCConfig) (s : GCState) : Prop where
  once : ∀ t, ((s.stubs t).fullPools ++ (s.stubs t).usablePools).Nodup
  listed : ∀ t base, base ∈ (s.stubs t).fullPools ++ (s.stubs t).usablePools ↔
    ∃ pool, s.pools base = some pool ∧ pool.type = t
  full : ∀ base pool, s.pools base = some pool →
    (base ∈ (s.stubs pool.type).fullPools ↔ pool.freeCells = [])
  freeOnce : ∀ base pool, s.pools base = some pool → pool.freeCells.Nodup
  free : ∀ base pool, s.pools base = some pool → ∀ cell, cell ∈ pool.freeCells ↔
    ∃ id < D.cellNum pool.type, cell = cellAddr D pool id ∧ poolMark pool id = GC_MARK_UNUSED
  bytes : s.allocatedSize = listedBytes D s
  idle : s.status = .idle → ∀ base pool id, s.pools base = some pool →
    poolMark pool id ≠ GC_MARK_UNUSED → poolMark pool id = GC_MARK_WHITE

/-- INTERNAL: the counter is the sum over the listed pools. -/
theorem bytes_eq_listed (h : HeapInv D [] s) : s.allocatedSize = listedBytes D s := by
  obtain ⟨mapped, hnd, hmem, hsum⟩ := h.bytes
  have hlisted : ∀ b, b ∈ gcObjTypes.flatMap
      (fun t => (s.stubs t).fullPools ++ (s.stubs t).usablePools) ↔ s.pools b ≠ none := by
    intro b
    rw [List.mem_flatMap, Option.ne_none_iff_exists']
    constructor
    · rintro ⟨t, -, hb⟩
      obtain ⟨-, pool, hpool, -⟩ := (h.lists.mem_type t).mp hb
      exact ⟨pool, hpool⟩
    · rintro ⟨pool, hpool⟩
      exact ⟨pool.type, by cases pool.type <;> decide,
        (h.lists.mem_type _).mpr ⟨List.not_mem_nil, pool, hpool, rfl⟩⟩
  have hnodup : (gcObjTypes.flatMap
      fun t => (s.stubs t).fullPools ++ (s.stubs t).usablePools).Nodup := by
    refine List.nodup_flatMap.mpr ⟨fun t _ => h.lists.nodup t, ?_⟩
    refine List.Pairwise.imp (R := fun t t' => t ≠ t') (fun {t t'} hne b hb hb' => ?_) (by decide)
    obtain ⟨-, pool, hpool, ht⟩ := (h.lists.mem_type t).mp hb
    obtain ⟨-, pool', hpool', ht'⟩ := (h.lists.mem_type t').mp hb'
    obtain rfl := Option.some.inj (hpool.symm.trans hpool')
    exact hne (ht.symm.trans ht')
  have hperm : mapped.Perm (gcObjTypes.flatMap
      fun t => (s.stubs t).fullPools ++ (s.stubs t).usablePools) :=
    (List.perm_ext_iff_of_nodup hnd hnodup).mpr fun b => (hmem b).trans (hlisted b).symm
  rw [hsum, listedBytes, (hperm.map _).sum_eq]

/-- INTERNAL: the invariant gives the representation. -/
theorem GCInv.heapOk (h : GCInv D s) : HeapOk D s := by
  refine ⟨h.heap.lists.nodup, fun t b => ?_, fun b p hp => ?_,
    fun b p hp => (h.heap.pool hp).free_nodup,
    fun b p hp => (h.heap.pool hp).mem_free, bytes_eq_listed h.heap, fun hidle b p id hp hu => ?_⟩
  · rw [h.heap.lists.mem_type]
    exact and_iff_right List.not_mem_nil
  · have hmem := h.heap.lists.mem p.type true b
    rw [stubList, if_pos rfl] at hmem
    rw [hmem]
    simp [hp]
  · rcases poolMark_cases p id with hm | hm | hm | hm
    · exact absurd hm hu
    · exact hm
    · exact absurd hm (h.noGray b p hp id)
    · exact absurd ⟨id, hm⟩ (h.noBlack (Or.inl hidle) b p hp)

/-- INTERNAL: the cell that is handed out was not allocated. -/
theorem TookCell.not_allocated {th oid : ℕ} {type : MGCObjType} {cell : Addr}
    (h : TookCell D s th type cell oid s') (hi : HeapInv D [] s) : ¬ Allocated D s cell := by
  obtain ⟨base, pool, pool', id, hbefore, hinv, -, rfl, htook, -⟩ := h.pool
  rintro ⟨b, p, i, hp, hlt, haddr, hused⟩
  -- the address leads to one pool and one number
  have hbase : b = base := by
    rw [← (hi.pool hp).getPool_cellAddr hlt, ← haddr, hinv.getPool_cellAddr htook.lt]
  subst hbase
  rcases hbefore.cases with hmapped | ⟨hnone, -⟩
  · obtain rfl := Option.some.inj (hmapped.symm.trans hp)
    obtain rfl := hinv.cellAddr_inj haddr
    exact hused htook.unused
  · exact nomatch hnone.symm.trans hp

/-! ## Runs that are computed -/

/-- Whether an allocation maps a free range, and meets what the collector does not check. -/
def allocChecked (D : GCConfig) (s : GCState) (type : MGCObjType) (map : Option Addr) : Bool :=
  match (s.stubs type).usablePools, map with
  | [], none => true
  | [], some base => decide (D.poolSize ∣ base) && decide (D.cellNum type < 2 ^ 31) &&
      gcObjTypes.all fun t => ((s.stubs t).fullPools ++ (s.stubs t).usablePools).all fun b =>
        decide (b + D.poolSize ≤ base ∨ base + D.poolSize ≤ b)
  | base :: _, _ =>
    match s.pools base with
    | none => true
    | some pool => pool.freeCells.head?.all fun cell =>
        decide ((cell - pool.begin) / (16 * (D.descrs type).size) * (16 * (D.descrs type).size) <
          2 ^ 32)

/-- The same of any operation. -/
def opChecked (D : GCConfig) (s : GCState) : GCOp → Bool
  | .alloc _ type map _ => allocChecked D s type map
  | _ => true

/-- Execute the operations, and check each of them, the state before it, and the last state. -/
def runChecked (D : GCConfig) (refs : Addr → List Addr) (Q : GCState → GCOp → Bool)
    (P : GCState → Bool) : List GCOp → GCState → Bool
  | [], s => P s
  | op :: ops, s => Q s op && opChecked D s op &&
    (op.exec D refs 1 s).check (runChecked D refs Q P ops)

/-- The run that was executed. -/
structure RunChecked (D : GCConfig) (Q : GCState → GCOp → Bool) (P : GCState → Bool) (s : GCState)
    (ops : List GCOp) (σ : ℕ → GCState) : Prop where
  run : Run (fun s₀ => s₀ = s) (GCStep D) ops σ
  placed : RunPlaced D ops σ
  steps : ∀ i (hi : i < ops.length), Q (σ i) ops[i] = true
  last : P (σ ops.length) = true

/-- INTERNAL: what the check of an allocation says. -/
theorem allocChecked_spec {th : ℕ} {type : MGCObjType} {map : Option Addr} (h : HeapInv D [] s)
    (hc : allocChecked D s type map = true) :
    (GCOp.alloc th type map waiting).mapsFresh D s ∧ AllocPlaced D s type map := by
  cases hu : (s.stubs type).usablePools with
  | nil =>
    have hmapped : ∀ base, map = some base → D.poolSize ∣ base ∧ D.cellNum type < 2 ^ 31 ∧
        ∀ b, s.pools b ≠ none → b + D.poolSize ≤ base ∨ base + D.poolSize ≤ b := by
      rintro base rfl
      simp only [allocChecked, hu, Bool.and_eq_true, decide_eq_true_eq, List.all_eq_true] at hc
      refine ⟨hc.1.1, hc.1.2, fun b hb => ?_⟩
      obtain ⟨pool, hpool⟩ := Option.ne_none_iff_exists'.mp hb
      exact hc.2 pool.type (by cases pool.type <;> decide) b
        ((h.lists.mem_type _).mpr ⟨List.not_mem_nil, pool, hpool, rfl⟩)
    constructor
    · cases map with
      | none => trivial
      | some base => exact fun _ => (hmapped base rfl).2.2
    · refine ⟨fun _ base e => (hmapped base e).1, fun _ base e => (hmapped base e).2.1, ?_⟩
      intro base rest pool cell free e
      exact absurd (hu.symm.trans e) (by simp)
  | cons base rest =>
    have hne : (s.stubs type).usablePools ≠ [] := by simp [hu]
    constructor
    · cases map with
      | none => trivial
      | some b => exact fun hnil => absurd hnil hne
    · refine ⟨fun hnil => absurd hnil hne, fun hnil => absurd hnil hne, ?_⟩
      intro base' rest' pool cell free e hpool hcells
      obtain ⟨rfl, rfl⟩ := List.cons.inj (hu.symm.trans e)
      simpa only [allocChecked, hu, hpool, hcells, List.head?_cons, Option.all_some,
        decide_eq_true_eq, cellNear] using hc

/-- INTERNAL: what the check of an operation says. -/
theorem opChecked_spec (h : HeapInv D [] s) (hc : opChecked D s op = true) :
    op.mapsFresh D s ∧ op.placed D s := by
  cases op with
  | alloc th type map waiting => exact allocChecked_spec h hc
  | _ => exact ⟨trivial, trivial⟩

/-- INTERNAL: a run that was executed and checked is a run. -/
theorem run_of_checked {Q : GCState → GCOp → Bool} {P : GCState → Bool} {ops : List GCOp}
    (h : GCInv D s) (hc : runChecked D refs Q P ops s = true) :
    ∃ σ, RunChecked D Q P s ops σ := by
  induction ops generalizing s with
  | nil =>
    exact ⟨fun _ => s, Run.nil rfl, fun i hi => absurd hi (Nat.not_lt_zero i),
      fun i hi => absurd hi (Nat.not_lt_zero i), hc⟩
  | cons op ops ih =>
    rw [runChecked, Bool.and_eq_true, Bool.and_eq_true] at hc
    obtain ⟨⟨hq, hop⟩, hc⟩ := hc
    have hboth := opChecked_spec h.heap hop
    obtain ⟨s₁, e, hc⟩ := Outcome.exists_of_check hc
    have hstep : GCStep D s op s₁ := ⟨hboth.1, refs, 1, e⟩
    obtain ⟨σ, hσ⟩ := ih (step_inv h hboth.2 hstep) hc
    refine ⟨_, Run.cons rfl hstep hσ.run, fun i hi => ?_, fun i hi => ?_, by simpa using hσ.last⟩
    · cases i with
      | zero => exact hboth.2
      | succ i => simpa using hσ.placed i (Nat.lt_of_succ_lt_succ hi)
    · cases i with
      | zero => exact hq
      | succ i => simpa using hσ.steps i (Nat.lt_of_succ_lt_succ hi)

/-- The mark of a cell of a mapped pool is the given one. -/
def hasMark (s : GCState) (base : Addr) (id : ℕ) (mark : BitVec 32) : Bool :=
  (s.pools base).any fun pool => decide (poolMark pool id = mark)

end Ming.Analysis
