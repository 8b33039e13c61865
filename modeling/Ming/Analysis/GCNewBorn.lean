import Ming.Analysis.GCSoundness

/-!
# New-born cells across increments

The roots are marked in one call and swept in a later one. A new-born entry shields its cell
when the roots are marked; a cell that is handed out between the two calls is white when the
sweep comes, whatever entry it has. What follows is said in terms of the cells that were handed
out since the roots were marked last.
-/

set_option autoImplicit false

namespace Ming.Analysis

open Ming.Foundation Ming.Model Ming.Interface

variable {D : GCConfig} {s s' s₁ s₂ : GCState} {op : GCOp} {ops : List GCOp} {σ : ℕ → GCState}
variable {refs : Addr → List Addr} {n : ℕ} {flags : BitVec 32} {b : Bool} {t : MGCObjType}
variable {a : Addr}

/-- The addresses that were handed out since the roots were marked last. -/
def allocatedSince (log : List GCEvent) : List Addr :=
  log.foldl (fun cells e => match e with
    | .markRoot => []
    | .alloc ptr => cells ++ [ptr]
    | .final _ _ => cells) []

/-- A new-born entry below the top of a listed thread is for the cell at `a` of type `t`, and
is flagged as not initialized or the type holds no pointers. -/
def Shielded (D : GCConfig) (s : GCState) (t : MGCObjType) (a : Addr) : Prop :=
  ∃ word ∈ allNbWords s, (nbRoot word).1 = a ∧
    (word &&& GC_NB_FL_NO_PTR ≠ 0 ∨ ¬ (D.descrs t).hasPtr)

/-- No cell that a new-born entry shields has been swept between `s` and `s'`. -/
def ShieldedKept (D : GCConfig) (s s' : GCState) : Prop :=
  ∀ t a, .final t a ∈ eventsSince s s' → ¬ Shielded D s' t a

/-- The operations of the mutator: no collection that clears. -/
def Mutator : GCOp → Prop
  | .run flags _ => flags = 0 ∨ flags = M_GC_COLLECT_FL_INCREMENT
  | _ => True

/-- The call sweeps with the marks of an earlier call. -/
def SweepsOld (s : GCState) (flags : BitVec 32) : Prop :=
  s.status = .sweep ∨ (s.status = .markObj ∧ ¬ incremental flags)

/-- No shielded cell was handed out since the roots were marked last. -/
def NoneSince (D : GCConfig) (s : GCState) : Prop :=
  ∀ base pool id, s.pools base = some pool → id < D.cellNum pool.type →
    cellAddr D pool id ∈ allocatedSince s.log → ¬ Shielded D s pool.type (cellAddr D pool id)

/-- A step of the mutator. -/
def MutatorAction : GCAction → Prop
  | .op o => Mutator o
  | .case => True

/-- What the marks say about the cells that were handed out since the roots were marked. -/
structure NewBornInv (D : GCConfig) (s : GCState) : Prop where
  words : ∀ word ∈ allNbWords s, (nbRoot word).1 = word / 4 * 4
  white : s.status = .markObj ∨ s.status = .sweep → ∀ a ∈ allocatedSince s.log,
    ∃ base pool id, s.pools base = some pool ∧ id < D.cellNum pool.type ∧
      a = cellAddr D pool id ∧ poolMark pool id = GC_MARK_WHITE
  since : s.status = .markObj ∨ s.status = .sweep → ∀ base pool id, s.pools base = some pool →
    poolMark pool id = GC_MARK_WHITE → Shielded D s pool.type (cellAddr D pool id) →
      cellAddr D pool id ∈ allocatedSince s.log

/-! ## Logs and entries -/

/-- INTERNAL: one more cell is handed out. -/
theorem allocatedSince_alloc (log : List GCEvent) (a : Addr) :
    allocatedSince (log ++ [.alloc a]) = allocatedSince log ++ [a] := by
  simp [allocatedSince]

/-- INTERNAL: the roots are marked again. -/
theorem allocatedSince_markRoot (log : List GCEvent) :
    allocatedSince (log ++ [.markRoot]) = [] := by
  simp [allocatedSince]

/-- INTERNAL: an entry after `m_gc_add_obj` is not flagged. -/
theorem nbRoot_clear (word : ℕ) : nbRoot (word / 4 * 4) = (word / 4 * 4, GC_MARK_GRAY) ∧
    ¬ (word / 4 * 4) &&& GC_NB_FL_NO_PTR ≠ 0 := by
  have heven : ¬ (word / 4 * 4) &&& GC_NB_FL_NO_PTR ≠ 0 := by
    rw [Nat.and_one_is_mod]
    omega
  exact ⟨by rw [nbRoot, if_neg heven], heven⟩

/-- INTERNAL: an object is shielded by the new-born stacks only. -/
theorem Shielded.congr (e : s'.threadList = s.threadList) :
    Shielded D s' t a ↔ Shielded D s t a := by
  rw [Shielded, Shielded, allNbWords, allNbWords, e]

/-- INTERNAL: a shielded cell is blackened when the roots are marked. -/
theorem Shielded.blackens {base : Addr} {pool : MGCCellPool} {id : ℕ} (hi : HeapInv D [] s)
    (hpool : s.pools base = some pool) (hid : id < D.cellNum pool.type)
    (h : Shielded D s pool.type (cellAddr D pool id)) : RootBlackens D s base id := by
  have hinv := hi.pool hpool
  have hpoints : PointsTo D s (cellAddr D pool id) base id :=
    ⟨(hinv.getPool_cellAddr hid).symm, pool, hpool, hinv.getId_cellAddr id⟩
  obtain ⟨word, hword, htarget, hflag | hfree⟩ := h
  · exact (rootBlackens_iff (c := (base, id))).mpr
      (Or.inl ⟨word, hword, hflag, htarget ▸ hpoints⟩)
  · exact (rootBlackens_iff (c := (base, id))).mpr
      (Or.inr ⟨Or.inl ⟨word, hword, htarget ▸ hpoints⟩, pool, hpool, hfree⟩)

/-! ## Collections -/

/-- INTERNAL: a collection does not touch the threads. -/
theorem Collected.threadList (h : Collected D flags s s₁ s') : s'.threadList = s.threadList := by
  have hmarked : s₁.threadList = s.threadList := by
    by_cases hm : MarksRoots s flags
    · exact (h.marked hm).2.threadList
    · rw [h.unmarked hm]
  by_cases hs : Sweeps s flags
  · obtain ⟨-, bases, -, -, hswept⟩ := h.swept hs
    exact hswept.threadList.trans hmarked
  · obtain ⟨st, rfl⟩ := h.unswept hs
    exact hmarked

/-- INTERNAL: what a collection notes before its sweep. -/
theorem Collected.log_marked (h : Collected D flags s s₁ s') :
    s₁.log = s.log ++ if MarksRoots s flags then [.markRoot] else [] := by
  split_ifs with hm
  · exact (h.marked hm).2.log
  · rw [h.unmarked hm, List.append_nil]

/-- INTERNAL: a collection adds to the log. -/
theorem Collected.log_append (h : Collected D flags s s₁ s') : ∃ l, s'.log = s.log ++ l := by
  by_cases hs : Sweeps s flags
  · obtain ⟨-, bases, -, -, hswept⟩ := h.swept hs
    rw [hswept.log, h.log_marked, List.append_assoc]
    exact ⟨_, rfl⟩
  · obtain ⟨st, rfl⟩ := h.unswept hs
    exact ⟨_, h.log_marked⟩

/-- INTERNAL: without a sweep no cell is finalized. -/
theorem Collected.final_notMem (h : Collected D flags s s₁ s') (hs : ¬ Sweeps s flags) :
    .final t a ∉ eventsSince s s' := by
  obtain ⟨st, rfl⟩ := h.unswept hs
  have hlog : ({ s₁ with status := st } : GCState).log =
      s.log ++ if MarksRoots s flags then [.markRoot] else [] := h.log_marked
  rw [eventsSince, hlog, List.drop_left]
  split_ifs <;> simp

/-- INTERNAL: a call that marks the roots leaves no shielded cell white. -/
theorem Collected.not_white (h : Collected D flags s s₁ s') (hi : HeapInv D [] s)
    (hm : MarksRoots s flags) {base : Addr} {pool : MGCCellPool} {id : ℕ}
    (hpool : s₁.pools base = some pool) (hw : poolMark pool id = GC_MARK_WHITE) :
    ¬ Shielded D s₁ pool.type (cellAddr D pool id) := by
  obtain ⟨-, hb⟩ := h.marked hm
  intro hshield
  cases hq : s.pools base with
  | none => exact nomatch (hb.unmapped base hq).symm.trans hpool
  | some q =>
    obtain ⟨q', hq', hbl⟩ := hb.mapped base q hq
    obtain rfl := Option.some.inj (hq'.symm.trans hpool)
    have haddr : cellAddr D q' id = cellAddr D q id := by
      rw [cellAddr, cellAddr, hbl.begin_eq, hbl.type_eq]
    have hlt : id < D.cellNum q.type := by
      by_contra hge
      have hpad := (h.heap.pool hpool).padding id (hbl.type_eq ▸ Nat.le_of_not_lt hge)
      exact absurd (hw.symm.trans hpad) (by decide)
    rw [Shielded.congr (s := s) hb.threadList, hbl.type_eq, haddr] at hshield
    have hblackens := hshield.blackens hi hq hlt
    by_cases hwhite : poolMark q id = GC_MARK_WHITE
    · rw [hbl.black id hwhite hblackens] at hw
      exact absurd hw (by decide)
    · rw [hbl.same id fun hand => hwhite hand.1] at hw
      exact hwhite hw

/-- INTERNAL: a call with one of the two flags marks the roots or sweeps with old marks, or
does neither. -/
theorem sweeps_cases (hi : GCInv D s) (hf : ¬ clearing flags) :
    (MarksRoots s flags ↔ s.status = .idle) ∧
      (SweepsOld s flags ↔ Sweeps s flags ∧ ¬ MarksRoots s flags) := by
  have hroot := hi.status
  rw [MarksRoots, SweepsOld, Sweeps]
  cases hst : s.status
  case markRoot => exact absurd hst hroot
  all_goals simp [hf]

/-- INTERNAL: when a call keeps the shielded cells. -/
theorem Collected.kept_iff (h : Collected D flags s s₁ s') (hi : GCInv D s)
    (hn : NewBornInv D s) (hf : ¬ clearing flags) :
    ShieldedKept D s s' ↔ (SweepsOld s flags → NoneSince D s) := by
  have hthreads := h.threadList
  obtain ⟨hidle, hold⟩ := sweeps_cases hi hf
  by_cases hs : Sweeps s flags
  · by_cases hm : MarksRoots s flags
    · -- the shielded cells are black when the sweep comes
      refine iff_of_true ?_ fun ho => absurd hm (hold.mp ho).2
      intro t a hfinal hshield
      obtain ⟨base, pool, hpool, rfl, hwhite⟩ := (h.final_mem_iff hs).mp hfinal
      obtain ⟨id, hid, rfl, hw⟩ := mem_whiteCells.mp hwhite
      have hthreads₁ : s₁.threadList = s.threadList := (h.marked hm).2.threadList
      refine h.not_white hi.heap hm hpool hw ?_
      rwa [Shielded.congr hthreads₁, ← Shielded.congr hthreads]
    · have hso := hold.mpr ⟨hs, hm⟩
      have hstatus : s.status = .markObj ∨ s.status = .sweep := by
        rcases hso with hst | ⟨hst, -⟩
        · exact Or.inr hst
        · exact Or.inl hst
      have hs₁ := h.unmarked hm
      constructor
      · intro hkept _ base pool id hpool hid hsince hshield
        obtain ⟨base', pool', id', hpool', hid', haddr, hw⟩ := hn.white hstatus _ hsince
        -- the address determines the pool and the number
        have hbase : base = base' := by
          rw [← (hi.heap.pool hpool).getPool_cellAddr hid, haddr,
            (hi.heap.pool hpool').getPool_cellAddr hid']
        subst hbase
        obtain rfl := Option.some.inj (hpool.symm.trans hpool')
        refine hkept pool.type (cellAddr D pool id) ((h.final_mem_iff hs).mpr
          ⟨base, pool, hs₁ ▸ hpool, rfl, ?_⟩) ((Shielded.congr hthreads).mpr hshield)
        exact mem_whiteCells.mpr ⟨id', hid', haddr, hw⟩
      · intro hnone t a hfinal hshield
        obtain ⟨base, pool, hpool, rfl, hwhite⟩ := (h.final_mem_iff hs).mp hfinal
        obtain ⟨id, hid, rfl, hw⟩ := mem_whiteCells.mp hwhite
        rw [hs₁] at hpool
        rw [Shielded.congr hthreads] at hshield
        exact hnone hso base pool id hpool hid (hn.since hstatus base pool id hpool hw hshield)
          hshield
  · refine iff_of_true (fun t a hfinal => absurd hfinal (h.final_notMem hs)) ?_
    intro ho
    exact absurd (hold.mp ho).1 hs

/-- INTERNAL: a collection keeps the invariant. -/
theorem Collected.newBornInv (h : Collected D flags s s₁ s') (hi : GCInv D s)
    (hn : NewBornInv D s) (hf : ¬ clearing flags) : NewBornInv D s' := by
  have hthreads := h.threadList
  obtain ⟨hidle, -⟩ := sweeps_cases hi hf
  have hwords : ∀ word ∈ allNbWords s', (nbRoot word).1 = word / 4 * 4 := by
    intro word hword
    rw [allNbWords, hthreads] at hword
    exact hn.words word hword
  have hstatus := h.status
  by_cases hs : Sweeps s flags
  · have hdone : ¬ (s'.status = .markObj ∨ s'.status = .sweep) := by
      rw [hstatus, statusAfter, if_pos hs]
      split_ifs <;> simp
    exact ⟨hwords, fun hst => absurd hst hdone, fun hst => absurd hst hdone⟩
  · obtain ⟨st, rfl⟩ := h.unswept hs
    by_cases hm : MarksRoots s flags
    · have hnone : allocatedSince ({ s₁ with status := st } : GCState).log = [] := by
        change allocatedSince s₁.log = []
        rw [h.log_marked, if_pos hm, allocatedSince_markRoot]
      refine ⟨hwords, fun _ a ha => ?_, fun _ base pool id hpool hw hshield => ?_⟩
      · rw [hnone] at ha
        exact absurd ha List.not_mem_nil
      · exact absurd hshield (h.not_white hi.heap hm hpool hw)
    · obtain rfl := h.unmarked hm
      have hbefore : st = .markObj ∨ st = .sweep → s₁.status = .markObj ∨ s₁.status = .sweep := by
        intro hst
        rw [show st = statusAfter s₁ flags from hstatus, statusAfter, if_neg hs] at hst
        cases hst₁ : s₁.status with
        | idle => exact absurd (hidle.mpr hst₁) hm
        | markObj => exact Or.inl rfl
        | sweep => exact Or.inr rfl
        | markRoot => exact absurd hst₁ hi.status
        | compact =>
          rw [hst₁] at hst
          simp at hst
      exact ⟨hwords, fun hst => hn.white (hbefore hst), fun hst => hn.since (hbefore hst)⟩

/-! ## Allocations -/

section Allocation

variable {th oid : ℕ} {cell base : Addr}

/-- INTERNAL: the entries after an allocation. -/
theorem TookCell.mem_words (h : TookCell D s th t cell oid s') (hth : ThreadsInv s) {word : ℕ}
    (hw : word ∈ allNbWords s') : word = cell ||| GC_NB_FL_NO_PTR ∨ word ∈ allNbWords s := by
  obtain ⟨self, self', hself, hlist, -, hthread⟩ := h.thread
  have hwords := (hthread (hth self (List.mem_of_getElem? hself))).2
  rw [allNbWords, hlist] at hw
  rcases (mem_flatMap_set hself).1 hw with hnew | hold
  · rw [hwords] at hnew
    rcases List.mem_append.mp hnew with hself' | hcell
    · exact Or.inr (List.mem_flatMap.mpr ⟨self, List.mem_of_getElem? hself, hself'⟩)
    · exact Or.inl (List.mem_singleton.mp hcell)
  · exact Or.inr hold

/-- INTERNAL: the white cells after an allocation. -/
theorem TookCell.white_cases (h : TookCell D s th t cell oid s') {p : MGCCellPool} {id : ℕ}
    (hp : s'.pools base = some p) (hw : poolMark p id = GC_MARK_WHITE) :
    cellAddr D p id = cell ∨ ∃ q, s.pools base = some q ∧ q.type = p.type ∧
      cellAddr D q id = cellAddr D p id ∧ poolMark q id = GC_MARK_WHITE := by
  obtain ⟨base', pool, pool', id', hbefore, -, -, rfl, htook, hpools⟩ := h.pool
  rw [hpools] at hp
  by_cases hb : base = base'
  · subst hb
    obtain rfl := Option.some.inj ((if_pos rfl).symm.trans hp)
    have haddr : cellAddr D pool id = cellAddr D pool' id := by
      rw [cellAddr, cellAddr, htook.begin_eq, htook.type_eq]
    rw [htook.mark] at hw
    by_cases hid : id = id'
    · exact Or.inl (hid ▸ haddr.symm)
    · rw [if_neg hid] at hw
      rcases hbefore.cases with hmapped | ⟨-, hunused⟩
      · exact Or.inr ⟨pool, hmapped, htook.type_eq.symm, haddr, hw⟩
      · exact absurd (hw.symm.trans (hunused id)) (by decide)
  · exact Or.inr ⟨p, (if_neg hb).symm.trans hp, rfl, rfl, hw⟩

/-- INTERNAL: an allocation leaves the other white cells alone. -/
theorem TookCell.white_mono (h : TookCell D s th t cell oid s') {q : MGCCellPool} {id : ℕ}
    (hq : s.pools base = some q) (hw : poolMark q id = GC_MARK_WHITE) :
    ∃ p, s'.pools base = some p ∧ p.type = q.type ∧ cellAddr D p id = cellAddr D q id ∧
      poolMark p id = GC_MARK_WHITE := by
  obtain ⟨base', pool, pool', id', hbefore, -, -, rfl, htook, hpools⟩ := h.pool
  by_cases hb : base = base'
  · subst hb
    rcases hbefore.cases with hmapped | ⟨hnone, -⟩
    · obtain rfl := Option.some.inj (hmapped.symm.trans hq)
      refine ⟨pool', (congrFun hpools base).trans (if_pos rfl), htook.type_eq, ?_, ?_⟩
      · rw [cellAddr, cellAddr, htook.begin_eq, htook.type_eq]
      · rw [htook.mark]
        split_ifs
        · rfl
        · exact hw
    · cases hnone.symm.trans hq
  · exact ⟨q, (congrFun hpools base).trans ((if_neg hb).trans hq), rfl, rfl, hw⟩

/-- INTERNAL: an allocation keeps the invariant. -/
theorem TookCell.newBornInv (h : TookCell D s th t cell oid s') (hi : GCInv D s)
    (hn : NewBornInv D s) : NewBornInv D s' := by
  obtain ⟨base, pool, id, hpool, htype, hcell, hwhite, haligned, -, -⟩ := h.newest hi.threads
  have hstatus : s'.status = s.status := by rw [h.rest]
  have hsince : allocatedSince s'.log = allocatedSince s.log ++ [cell] := by
    rw [h.rest]
    exact allocatedSince_alloc s.log cell
  have hlt : id < D.cellNum pool.type := by
    by_contra hge
    have hpad := (h.heap.pool hpool).padding id (Nat.le_of_not_lt hge)
    exact absurd (hwhite.symm.trans hpad) (by decide)
  refine ⟨fun word hword => ?_, fun hst a ha => ?_, fun hst base' p i hp hw hshield => ?_⟩
  · rcases h.mem_words hi.threads hword with rfl | hold
    · rw [(nbRoot_word haligned).1, (nbRoot_word haligned).2.1]
    · exact hn.words word hold
  · rw [hsince] at ha
    rcases List.mem_append.mp ha with hold | hnew
    · obtain ⟨base', q, i, hq, hi', rfl, hw⟩ := hn.white (hstatus ▸ hst) a hold
      obtain ⟨p, hp, hpt, haddr, hw'⟩ := h.white_mono hq hw
      exact ⟨base', p, i, hp, hpt.symm ▸ hi', haddr.symm, hw'⟩
    · exact ⟨base, pool, id, hpool, hlt, (List.mem_singleton.mp hnew).trans hcell, hwhite⟩
  · rw [hsince]
    rcases h.white_cases hp hw with hnew | ⟨q, hq, hqt, haddr, hw'⟩
    · exact List.mem_append_right _ (List.mem_singleton.mpr hnew)
    · obtain ⟨word, hword, htarget, hkind⟩ := hshield
      rcases h.mem_words hi.threads hword with rfl | hold
      · rw [(nbRoot_word haligned).1] at htarget
        exact List.mem_append_right _ (List.mem_singleton.mpr htarget.symm)
      · refine List.mem_append_left _ (haddr ▸ hn.since (hstatus ▸ hst) base' q i hq hw' ?_)
        exact ⟨word, hold, haddr ▸ htarget, hqt.symm ▸ hkind⟩

/-- INTERNAL: an allocation finalizes nothing. -/
theorem TookCell.shieldedKept (h : TookCell D s th t cell oid s') : ShieldedKept D s s' := by
  intro t a hfinal
  have hlog : s'.log = s.log ++ [.alloc cell] := by rw [h.rest]
  rw [eventsSince, hlog, List.drop_left] at hfinal
  simp at hfinal

end Allocation

/-! ## The other operations -/

/-- INTERNAL: an operation that leaves the heap alone and makes no entry for another cell. -/
theorem NewBornInv.of_words (h : NewBornInv D s) (hpools : s'.pools = s.pools)
    (hstatus : s'.status = s.status) (hlog : s'.log = s.log)
    (hwords : ∀ word ∈ allNbWords s', (nbRoot word).1 = word / 4 * 4 ∧
      ∃ w ∈ allNbWords s, (nbRoot w).1 = (nbRoot word).1 ∧
        (word &&& GC_NB_FL_NO_PTR ≠ 0 → w &&& GC_NB_FL_NO_PTR ≠ 0)) :
    NewBornInv D s' ∧ ShieldedKept D s s' := by
  refine ⟨⟨fun word hword => (hwords word hword).1, ?_, ?_⟩, fun t a hfinal => ?_⟩
  · intro hst a ha
    rw [hpools]
    exact h.white (hstatus ▸ hst) a (hlog ▸ ha)
  · rintro hst base pool id hpool hw ⟨word, hword, htarget, hkind⟩
    obtain ⟨-, w, hw', htarget', hflag⟩ := hwords word hword
    rw [hlog]
    refine h.since (hstatus ▸ hst) base pool id (hpools ▸ hpool) hw ?_
    exact ⟨w, hw', htarget'.trans htarget, hkind.imp hflag fun hfree => hfree⟩
  · rw [eventsSince, hlog, List.drop_length] at hfinal
    exact absurd hfinal List.not_mem_nil

/-- INTERNAL: fewer entries. -/
theorem NewBornInv.of_subset (h : NewBornInv D s) (hpools : s'.pools = s.pools)
    (hstatus : s'.status = s.status) (hlog : s'.log = s.log)
    (hsub : ∀ word ∈ allNbWords s', word ∈ allNbWords s) :
    NewBornInv D s' ∧ ShieldedKept D s s' :=
  h.of_words hpools hstatus hlog fun word hword =>
    ⟨h.words word (hsub word hword), word, hsub word hword, rfl, fun hf => hf⟩

/-- INTERNAL: the words of the stacks after one thread has changed. -/
theorem mem_words_setThread {th : ℕ} {self self' : MThread} {word : ℕ}
    (hself : s.threadList[th]? = some self) (hw : word ∈ allNbWords (s.setThread th self')) :
    word ∈ nbWords self' ∨ word ∈ allNbWords s :=
  (mem_flatMap_set hself).1 hw

/-- INTERNAL: a word of one stack is a word of all. -/
theorem mem_allNbWords {th : ℕ} {self : MThread} {word : ℕ}
    (hself : s.threadList[th]? = some self) (hw : word ∈ nbWords self) : word ∈ allNbWords s :=
  List.mem_flatMap.mpr ⟨self, List.mem_of_getElem? hself, hw⟩

/-- INTERNAL: an operation up to the collection that it starts keeps the invariant, and finalizes
nothing. -/
theorem step_newBorn (hi : GCInv D s) (hn : NewBornInv D s) (hp : op.placed D s)
    (hs : GCStep D s (whileCollecting op) s') : NewBornInv D s' ∧ ShieldedKept D s s' := by
  obtain ⟨hmap, refs, n, e⟩ := hs
  cases op with
  | alloc th type map waiting =>
    obtain ⟨⟨r, s₁⟩, e₁, e₂⟩ := Outcome.bind_eq_ok.mp e
    obtain rfl := Except.ok.inj e₂
    rcases allocObj_spec hi.heap (freshMap_of_placed hp hmap) e₁ with
      ⟨-, rfl, -⟩ | ⟨cell, oid, s₂, -, htook, hc | ⟨-, rfl⟩⟩
    · exact hn.of_subset rfl rfl rfl fun _ hw => hw
    · cases hc.2.1
    · exact ⟨htook.newBornInv hi hn, htook.shieldedKept⟩
  | run flags waiting =>
    obtain rfl := Except.ok.inj e
    exact hn.of_subset rfl rfl rfl fun _ hw => hw
  | addObj th oid =>
    obtain ⟨self, hself, hlt, rfl⟩ := addObj_spec e
    refine hn.of_words rfl rfl rfl fun word hword => ?_
    rcases mem_words_setThread hself hword with hnew | hold
    · rw [nbWords, List.take_modify] at hnew
      rcases mem_of_mem_modify hnew with hold | ⟨w, hw, rfl⟩
      · have hmem := mem_allNbWords hself hold
        exact ⟨hn.words word hmem, word, hmem, rfl, fun hf => hf⟩
      · have hmem := mem_allNbWords hself hw
        obtain ⟨hroot, hflag⟩ := nbRoot_clear w
        refine ⟨?_, w, hmem, ?_, fun hf => absurd hf hflag⟩
        · rw [hroot, Nat.mul_div_cancel _ (by decide)]
        · rw [hroot, hn.words w hmem]
    · exact ⟨hn.words word hold, word, hold, rfl, fun hf => hf⟩
  | setNbLevel th level =>
    obtain ⟨self, hself, hle, rfl⟩ := setNbLevel_spec e
    refine hn.of_subset rfl rfl rfl fun word hword => ?_
    rcases mem_words_setThread hself hword with hnew | hold
    · refine mem_allNbWords hself ?_
      exact List.take_subset_take_left self.nbStack hle hnew
    · exact hold
  | setRoots ptrs =>
    obtain rfl := Except.ok.inj e
    exact hn.of_subset rfl rfl rfl fun word hword => hword
  | threadEnter =>
    obtain rfl := Except.ok.inj e
    refine hn.of_subset rfl rfl rfl fun word hword => ?_
    simpa [allNbWords, nbWords] using hword
  | threadExit th =>
    obtain rfl := Except.ok.inj e
    refine hn.of_subset rfl rfl rfl fun word hword => ?_
    obtain ⟨self, hself, hw⟩ := List.mem_flatMap.mp hword
    exact List.mem_flatMap.mpr ⟨self, List.mem_of_mem_eraseIdx hself, hw⟩

/-! ## The cases of a collection -/

/-- INTERNAL: only the case that sweeps uses the marks of an earlier step. -/
theorem sweepsOld_iff : SweepsOld s M_GC_COLLECT_FL_INCREMENT ↔ s.status = .sweep :=
  or_iff_left fun h => h.2 (by decide)

/-- INTERNAL: a case keeps the invariant, and the shielded cells exactly when none was handed out
since the roots were marked, if it sweeps.
SOURCE: m_gc_obj.c:483-522 -/
theorem case_newBorn {done : Bool} (hi : GCInv D s) (hn : NewBornInv D s) (hf : ¬ clearing flags)
    (e : gcCollectCase D refs n flags s = .ok (done, s')) :
    NewBornInv D s' ∧ (ShieldedKept D s s' ↔ (s.status = .sweep → NoneSince D s)) := by
  obtain ⟨b, e⟩ := case_doCollect hi hf e
  obtain ⟨s₁, hc⟩ := collect_spec hi e
  have hinc : ¬ clearing M_GC_COLLECT_FL_INCREMENT := by decide
  refine ⟨hc.newBornInv hi hn hinc, (hc.kept_iff hi hn hinc).trans ?_⟩
  rw [sweepsOld_iff]

/-! ## Runs -/

section Runs

variable {acts : List GCAction} {ω : ℕ → GCWorld} {w w' : GCWorld} {act : GCAction}

/-- The marks, and that the collection that is running does not clear the heap. -/
structure NewBornWorld (D : GCConfig) (w : GCWorld) : Prop where
  marks : NewBornInv D w.heap
  plain : ∀ flags, w.collecting = some flags → ¬ clearing flags

/-- The step finds no shielded cell that was handed out since the roots were marked, if it is the
case that sweeps. -/
def SafeAction (D : GCConfig) (w : GCWorld) (act : GCAction) : Prop :=
  act = .case → w.heap.status = .sweep → NoneSince D w.heap

/-- INTERNAL: an operation of the mutator starts no collection that clears. -/
theorem start_plain {r : Option (BitVec 32)} (hop : Mutator op) (e : op.start D s = .ok (r, s'))
    (hr : r = some flags) : ¬ clearing flags := by
  cases op with
  | alloc th type map waiting =>
    rw [GCOp.start] at e
    cases hpool : gcUsablePool D s type map with
    | none =>
      rw [hpool] at e
      obtain ⟨rfl, -⟩ := Prod.mk.inj (Except.ok.inj e)
      cases hr
    | some bs =>
      rw [hpool] at e
      obtain ⟨_, -, e⟩ := Outcome.bind_eq_ok.mp e
      obtain ⟨rfl, -⟩ := Prod.mk.inj (Except.ok.inj e)
      split_ifs at hr
      obtain rfl := Option.some.inj hr
      decide
  | run flags' waiting =>
    obtain ⟨rfl, -⟩ := Prod.mk.inj (Except.ok.inj e)
    split_ifs at hr
    obtain rfl := Option.some.inj hr
    rcases hop with rfl | rfl <;> decide
  | _ =>
    obtain ⟨_, -, e⟩ := Outcome.bind_eq_ok.mp e
    obtain ⟨rfl, -⟩ := Prod.mk.inj (Except.ok.inj e)
    cases hr

/-- INTERNAL: a step keeps the invariant, and the shielded cells exactly when it is safe. -/
theorem worldStep_newBorn (hi : GCInv D w.heap) (hn : NewBornWorld D w)
    (hp : act.placed D w.heap) (hact : MutatorAction act) (hs : GCWorldStep D w act w') :
    NewBornWorld D w' ∧ (ShieldedKept D w.heap w'.heap ↔ SafeAction D w act) := by
  cases hs with
  | @op o r _ hwait hmap e =>
    obtain ⟨hmarks, hkept⟩ := step_newBorn hi hn.marks hp (start_step hmap e)
    refine ⟨⟨hmarks, fun flags hflags => ?_⟩, iff_of_true hkept fun hcase => ?_⟩
    · cases r with
      | none => exact hn.plain flags hflags
      | some flags' => exact start_plain hact e hflags
    · cases hcase
  | @case flags _ _ done _ hflags e =>
    obtain ⟨hmarks, hkept⟩ := case_newBorn hi hn.marks (hn.plain flags hflags) e
    refine ⟨⟨hmarks, fun flags' hflags' => ?_⟩, hkept.trans ?_⟩
    · split_ifs at hflags'
      obtain rfl := Option.some.inj hflags'
      exact hn.plain _ hflags
    · exact ⟨fun h _ => h, fun h => h rfl⟩

/-- INTERNAL: the invariant holds in every state of a run of the mutator. -/
theorem world_newBorn (h : GCWorldRun D acts ω) (hp : WorldPlaced D acts ω)
    (hacts : ∀ act ∈ acts, MutatorAction act) {n : ℕ} (hn : n ≤ acts.length) :
    GCInv D (ω n).heap ∧ NewBornWorld D (ω n) := by
  refine h.inv_of (fun _ w => GCInv D w.heap ∧ NewBornWorld D w)
    (fun _ w act => act.placed D w.heap ∧ MutatorAction act) ?_ ?_ n hn fun i hi _ =>
      ⟨hp i hi, hacts _ (List.getElem_mem hi)⟩
  · rintro _ rfl
    refine ⟨startup_inv D, ⟨fun word hword => ?_, fun hst => ?_, fun hst => ?_⟩, fun _ hf => ?_⟩
    · exact absurd hword (by simp [gcWorldStartup, gcObjStartup, allNbWords, nbWords])
    · rcases hst with hst | hst <;> cases hst
    · rcases hst with hst | hst <;> cases hst
    · cases hf
  · rintro _ w act w' ⟨hi, hb⟩ hs ⟨hplaced, hact⟩
    exact ⟨worldStep_inv hi hplaced hs, (worldStep_newBorn hi hb hplaced hact hs).1⟩

/-- **New-born cells are kept exactly when no sweep comes between their allocation and the next
marking of the roots.** In a run of the mutator, in which the threads come between the cases of a
collection as they like, no step sweeps a cell that a new-born entry shields if and only if no
sweep finds a shielded cell that was handed out since the roots were marked.
SOURCE: m_gc_obj.c:231-278, 482-522, 570-645 -/
theorem new_born_kept_iff (h : GCWorldRun D acts ω) (hp : WorldPlaced D acts ω)
    (hacts : ∀ act ∈ acts, MutatorAction act) :
    (∀ i, i < acts.length → ShieldedKept D (ω i).heap (ω (i + 1)).heap) ↔
      ∀ i (hi : i < acts.length), SafeAction D (ω i) acts[i] := by
  refine forall_congr' fun i => forall_congr' fun hi => ?_
  obtain ⟨hinv, hnew⟩ := world_newBorn h hp hacts (Nat.le_of_lt hi)
  exact (worldStep_newBorn hinv hnew (hp i hi) (hacts _ (List.getElem_mem hi)) (h.step i hi)).2

/-- No new-born entry below the top of a listed thread is for a cell that was handed out since the
roots were marked. -/
def noEntrySince (s : GCState) : Bool :=
  (allocatedSince s.log).all fun a => (allNbWords s).all fun word => decide ((nbRoot word).1 ≠ a)

/-- INTERNAL: then no such cell is shielded. -/
theorem noneSince_of_noEntry (h : noEntrySince s = true) : NoneSince D s := by
  rintro base pool id - - hsince ⟨word, hword, htarget, -⟩
  simp only [noEntrySince, List.all_eq_true, decide_eq_true_eq] at h
  exact h _ hsince word hword htarget

/-- A cycle in two calls, in which a cell that is handed out after the roots were marked is popped
before the sweep. The cells that the sweep frees are handed out again, and swept once more. -/
def poppedActs : List GCAction :=
  [.op (.alloc 0 .double (some 4096) false), .op (.alloc 0 .string (some 8192) false),
    .op (.alloc 0 .double none false), .op (.setNbLevel 0 1),
    .op (.run M_GC_COLLECT_FL_INCREMENT false), .case, .op (.alloc 0 .double none false),
    .op (.setNbLevel 0 1), .op (.run 0 false), .case, .case, .case,
    .op (.alloc 0 .string (some 8192) false), .op (.alloc 0 .double none false),
    .op (.setNbLevel 0 2), .op (.run 0 false), .case, .case, .case, .case]

/-- The shielded cells of this run are kept. -/
theorem new_born_kept_iff_popped : ∃ ω, GCWorldRun defaultConfig poppedActs ω ∧
    (ω poppedActs.length).heap.log = [.alloc 4264, .alloc 8296, .alloc 4272, .markRoot,
      .alloc 4280, .final .double 4272, .final .double 4280, .final .string 8296, .alloc 8296,
      .alloc 4280, .markRoot, .final .double 4280] ∧
    ∀ i, i < poppedActs.length → ShieldedKept defaultConfig (ω i).heap (ω (i + 1)).heap := by
  have hc : worldChecked defaultConfig (fun _ => [])
      (fun w act => match act with
        | .op _ => true
        | .case => decide (w.heap.status ≠ .sweep) || noEntrySince w.heap)
      (fun w => decide (w.heap.log = [.alloc 4264, .alloc 8296, .alloc 4272, .markRoot,
        .alloc 4280, .final .double 4272, .final .double 4280, .final .string 8296, .alloc 8296,
        .alloc 4280, .markRoot, .final .double 4280])) poppedActs gcWorldStartup = true := by
    decide +kernel
  obtain ⟨ω, hrun, hplaced, hsteps, hlast⟩ := world_of_checked (startup_inv defaultConfig) hc
  refine ⟨ω, hrun, of_decide_eq_true hlast,
    (new_born_kept_iff hrun hplaced ?_).mpr fun i hi hcase hsweep => ?_⟩
  · simp [poppedActs, MutatorAction, Mutator]
  · have hstep := hsteps i hi
    rw [hcase] at hstep
    simp only [Bool.or_eq_true, decide_eq_true_eq] at hstep
    exact noneSince_of_noEntry (hstep.resolve_left fun hne => hne hsweep)

/-- The roots are marked, one cell is handed out, and a complete collection ends the cycle. -/
def betweenActs : List GCAction :=
  [.op (.run M_GC_COLLECT_FL_INCREMENT false), .case,
    .op (.alloc 0 .double (some 4096) false), .op (.run 0 false), .case]

/-- A cell that is handed out after the roots were marked is swept by the next call.
SOURCE: m_gc_obj.c:500-518, 631-633 -/
theorem new_born_counterexample : ¬ ∀ (D : GCConfig) (acts : List GCAction) (ω : ℕ → GCWorld),
    GCWorldRun D acts ω → WorldPlaced D acts ω → (∀ act ∈ acts, MutatorAction act) →
    ∀ i, i < acts.length → ShieldedKept D (ω i).heap (ω (i + 1)).heap := by
  intro hall
  have hc : worldChecked defaultConfig (fun _ => []) (fun _ _ => true)
      (fun w => decide (w.collecting = some 0) &&
        (gcCollectCase defaultConfig (fun _ => []) 1 0 w.heap).check fun r =>
          decide (GCEvent.final .double 4264 ∈ eventsSince w.heap r.2) &&
            (allNbWords r.2).any fun word =>
              decide ((nbRoot word).1 = 4264 ∧ word &&& GC_NB_FL_NO_PTR ≠ 0))
      betweenActs gcWorldStartup = true := by
    decide +kernel
  obtain ⟨ω, hrun, hplaced, -, hlast⟩ := world_of_checked (startup_inv defaultConfig) hc
  rw [Bool.and_eq_true, decide_eq_true_eq] at hlast
  obtain ⟨r, e, hswept⟩ := Outcome.exists_of_check hlast.2
  rw [Bool.and_eq_true, decide_eq_true_eq, List.any_eq_true] at hswept
  obtain ⟨hfinal, word, hword, hentry⟩ := hswept
  obtain ⟨htarget, hflag⟩ := of_decide_eq_true hentry
  obtain ⟨ω', hrun', hplaced', hbefore, hafter⟩ :=
    world_snoc (a := .case) hrun hplaced trivial (.case hlast.1 e)
  have hkept := hall defaultConfig _ ω' hrun' hplaced' (by
    simp [betweenActs, MutatorAction, Mutator]) betweenActs.length (by simp)
  rw [hbefore, hafter] at hkept
  exact hkept .double 4264 hfinal ⟨word, hword, htarget, Or.inl hflag⟩

end Runs

end Ming.Analysis
