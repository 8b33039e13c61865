import Ming.Analysis.GCRootRuns
import Ming.Analysis.HashValueTraversal
import Ming.Model.GCRootMarking

/-!
# What the root table marks

The loop of `gc_mark_root_hash` walks over the table that `m_gc_add_root` has built, whatever
resizes it went through. Objects and records have different addresses, so a lookup by an object
finds no record: every `m_gc_add_root` makes a record, and no `m_gc_remove_root` takes one away.
-/

set_option autoImplicit false

namespace Ming.Analysis

open Ming.Foundation Ming.Model Ming.Interface

variable {N : Set Ptr} {l ops : List RootOp} {op : RootOp} {m m' : GCRootMem} {r : ℕ → GCRootMem}
variable {B : List (List Ptr)} {p rn : Ptr} {mapped : Ptr → Bool} {n fuel i : ℕ}
variable {D : GCConfig} {s : GCState} {l' : List Ptr}

/-- The pointer that a call adds. -/
def RootOp.added : RootOp → Option Ptr
  | .add p => some p
  | .remove _ => none

/-- The pointers that were added, in order. -/
def addedPtrs (ops : List RootOp) : List Ptr := ops.filterMap RootOp.added

/-- No call of `m_gc_remove_root` is given the address of a record. -/
def RemovesObjects (N : Set Ptr) (ops : List RootOp) : Prop := ∀ p, RootOp.remove p ∈ ops → p ∉ N

/-- The records of the table hold the pointers that were added. -/
structure RootBag (N : Set Ptr) (l : List RootOp) (m : GCRootMem) (B : List (List Ptr)) : Prop
    where
  buckets : Buckets m.table B
  node : ∀ rn ∈ B.flatten, rn ∈ N
  ptrs : (B.flatten.map m.ptr).Perm (addedPtrs l)

/-! ## The records -/

/-- INTERNAL: one more pointer is added. -/
theorem addedPtrs_add (l : List RootOp) (p : Ptr) :
    addedPtrs (l ++ [.add p]) = addedPtrs l ++ [p] := by
  rw [addedPtrs, List.filterMap_append]
  rfl

/-- INTERNAL: a removal adds nothing. -/
theorem addedPtrs_remove (l : List RootOp) (p : Ptr) :
    addedPtrs (l ++ [.remove p]) = addedPtrs l := by
  rw [addedPtrs, List.filterMap_append]
  exact List.append_nil _

/-- INTERNAL: the pointers that were added. -/
theorem mem_addedPtrs : p ∈ addedPtrs l ↔ RootOp.add p ∈ l := by
  rw [addedPtrs, List.mem_filterMap]
  constructor
  · rintro ⟨op, hop, hp⟩
    cases op with
    | add q => exact Option.some.inj hp ▸ hop
    | remove q => cases hp
  · intro hp
    exact ⟨.add p, hp, rfl⟩

/-- INTERNAL: no list holds a record at the address of an object. -/
theorem RootBag.notMem (h : RootBag N l m B) (hp : p ∉ N) {j : ℕ} {b : List Ptr}
    (hb : B[j]? = some b) : p ∉ b := by
  intro hpb
  exact hp (h.node p (mem_flatten_of_get hb hpb))

/-- INTERNAL: a pointer that is no node's address is not met. -/
theorem RootBag.not_rootAt (h : RootBag N l m B) (hp : p ∉ N) : ¬ RootAt m p := by
  rintro ⟨-, B', b, hB', hb, hpb⟩
  obtain rfl := hB'.unique h.buckets
  exact h.notMem hp hb hpb

/-- INTERNAL: `m_gc_add_root` makes a record, also for a pointer that has one.
SOURCE: m_gc_root.c:79-110 -/
theorem RootBag.add (h : RootBag N l m B) (hp : p ∉ N) (hrnN : rn ∈ N) (hrn : rn ≠ NULL)
    (hfresh : rn ∉ B.flatten) (e : mGCAddRoot n m p rn true = .ok m') :
    ∃ B', RootBag N (l ++ [.add p]) m' B' := by
  have hptr : p ≠ NULL := by
    rintro rfl
    simp [mGCAddRoot] at e
  obtain ⟨m₁, B', e₁, hB', hperm, hsame, -⟩ := addRoot_spec h.buckets hptr
    (fun b hb => h.notMem hp hb) hrn hfresh (Nat.lt_succ_of_le (le_max_right n B.flatten.length))
  have hle := Nat.le_succ_of_le (le_max_left n B.flatten.length)
  have e₂ := (Outcome.Approx.of_succ (f := fun n => mGCAddRoot n m p rn true)
    (fun n => addRoot_approx n rn true) hle).eq_ok e
  obtain rfl := Except.ok.inj (e₂.symm.trans e₁)
  refine ⟨B', hB', fun x hx => ?_, ?_⟩
  · rcases List.mem_cons.mp (hperm.mem_iff.mp hx) with rfl | hx
    · exact hrnN
    · exact h.node x hx
  · have hold : B.flatten.map m'.ptr = B.flatten.map m.ptr := by
      refine List.map_congr_left fun x hx => ?_
      rw [hsame]
      refine Function.update_of_ne ?_ _ _
      rintro rfl
      exact hfresh hx
    have hnew : m'.ptr rn = p := by rw [hsame, Function.update_self]
    have hmap := hperm.map m'.ptr
    rw [List.map_cons, hnew, hold] at hmap
    rw [addedPtrs_add]
    exact hmap.trans ((h.ptrs.cons p).trans (List.perm_append_singleton p _).symm)

/-- INTERNAL: `m_gc_remove_root` of an object finds no record.
SOURCE: m_gc_root.c:112-136 -/
theorem RootBag.remove (h : RootBag N l m B) (hp : p ∉ N) (e : mGCRemoveRoot n m p = .ok m') :
    RootBag N (l ++ [.remove p]) m' B := by
  have hptr : p ≠ NULL := by
    rintro rfl
    simp [mGCRemoveRoot] at e
  have e₁ := removeRoot_absent h.buckets hptr (h.not_rootAt hp)
    (Nat.lt_succ_of_le (le_max_right n B.flatten.length))
  have hle := Nat.le_succ_of_le (le_max_left n B.flatten.length)
  have e₂ := (Outcome.Approx.of_succ (f := fun n => mGCRemoveRoot n m p)
    (fun n => removeRoot_approx n) hle).eq_ok e
  obtain rfl := Except.ok.inj (e₂.symm.trans e₁)
  refine ⟨h.buckets, h.node, ?_⟩
  rw [addedPtrs_remove]
  exact h.ptrs

/-- INTERNAL: one call. -/
theorem RootBag.step (h : RootBag N l m B) (hs : RootStep N m op m')
    (hop : ∀ p, op = .remove p → p ∉ N) : ∃ B', RootBag N (l ++ [op]) m' B' := by
  cases hs with
  | add hp hrnN hrn hfresh e => exact h.add hp hrnN hrn (hfresh B h.buckets) e
  | remove e => exact ⟨B, h.remove (hop _ rfl) e⟩

/-- INTERNAL: the table at the startup. -/
theorem rootBag_startup (N : Set Ptr) (m : GCRootMem) : RootBag N [] (gcRootHashStartup m) [] :=
  ⟨(rootInv_startup N m).buckets, fun _ hx => absurd hx List.not_mem_nil, .nil⟩

/-- INTERNAL: the records in every state of a run. -/
theorem rootBag_run (h : RootRun N ops r) (hrem : RemovesObjects N ops) (hn : n ≤ ops.length) :
    ∃ B, RootBag N (ops.take n) (r n) B := by
  have hrun := h.inv (fun l m => RemovesObjects N l → ∃ B, RootBag N l m B) ?_ ?_ n hn
  · exact hrun fun p hp => hrem p (List.mem_of_mem_take hp)
  · rintro _ ⟨m₀, rfl⟩ -
    exact ⟨[], rootBag_startup N m₀⟩
  · intro l m op m' ih hs hl
    obtain ⟨B, hB⟩ := ih fun p hp => hl p (List.mem_append_left _ hp)
    refine hB.step hs fun p hp => hl p ?_
    rw [hp]
    exact List.mem_append_right _ (List.mem_singleton.mpr rfl)

/-! ## The loops over the table -/

/-- The pointers of the records in the lists of the table. -/
def tablePtrs (m : GCRootMem) (B : List (List Ptr)) : List Addr :=
  B.flatten.map fun rn => (m.ptr rn).toNat

/-- INTERNAL: a list of the table, as the loop over values sees it. -/
theorem rootList (h : Buckets m.table B) (hmap : ∀ rn ∈ B.flatten, mapped rn = true)
    (hi : i < B.length) : ListOf mapped 0 m.table i B[i] :=
  listOf_table h hmap (fun p hp => by
    rw [containerOf_zero]
    exact h.table.ne_null hp) hi

/-- INTERNAL: the pointer of a record that is mapped. -/
theorem gcRootPtr_ok (h : mapped rn = true) : gcRootPtr mapped m rn = .ok (m.ptr rn).toNat :=
  if_pos h

/-- INTERNAL: the pointers in the order of the lists.
SOURCE: m_hash.h:167-172 -/
theorem rootPointers_spec (h : Buckets m.table B) (hmap : ∀ rn ∈ B.flatten, mapped rn = true)
    (hf : B.flatten.length + B.length < fuel) :
    gcRootPointers mapped fuel m = .ok (tablePtrs m B) := by
  have hloop : mHashForeachValue mapped 0 fuel look m.table =
      .ok (m.table, B.flatten.map (mContainerOf 0)) := by
    refine forLists_table h (fun i hi => foreachValueList_spec (rootList h hmap hi) ?_) (by omega)
    have hlen := (List.sublist_flatten_of_mem (List.getElem_mem hi)).length_le
    omega
  have hsame : B.flatten.map (mContainerOf 0) = B.flatten :=
    (List.map_congr_left fun p _ => containerOf_zero p).trans (List.map_id _)
  have hread : ∀ rns : List Ptr, (∀ rn ∈ rns, mapped rn = true) →
      rns.mapM (gcRootPtr mapped m) = .ok (rns.map fun rn => (m.ptr rn).toNat) := by
    intro rns hrns
    induction rns with
    | nil => rfl
    | cons rn rns ih =>
      rw [List.mapM_cons, gcRootPtr_ok (hrns rn List.mem_cons_self), Outcome.ok_bind,
        ih fun x hx => hrns x (List.mem_cons_of_mem rn hx)]
      rfl
  rw [gcRootPointers, hloop, Outcome.ok_bind, hsame]
  exact hread _ hmap

/-- INTERNAL: the pointers of records that can be read.
SOURCE: m_gc_obj.c:265 -/
theorem markRecords_eq {rns : List Ptr} (h : ∀ rn ∈ rns, mapped rn = true) (s : GCState) :
    rns.foldlM (fun s rn => do
      let ptr ← gcRootPtr mapped m rn
      gcMark D s ptr) s = (rns.map fun rn => (m.ptr rn).toNat).foldlM (gcMark D) s := by
  induction rns generalizing s with
  | nil => rfl
  | cons rn rns ih =>
    rw [List.foldlM_cons, gcRootPtr_ok (h rn List.mem_cons_self), Outcome.ok_bind, List.map_cons,
      List.foldlM_cons]
    exact bind_congr fun s' => ih (fun x hx => h x (List.mem_cons_of_mem rn hx)) s'

/-- INTERNAL: the loop over one list.
SOURCE: m_gc_obj.c:264-266 -/
theorem markRootList_spec (h : ListOf mapped 0 m.table i l') (hmap : ∀ rn ∈ l', mapped rn = true)
    (hf : l'.length < fuel) (s : GCState) :
    gcMarkRootList mapped fuel m D s (BitVec.ofNat 32 i) =
      (l'.map fun rn => (m.ptr rn).toNat).foldlM (gcMark D) s := by
  have hloop := foreachValueList_spec h hf
  rw [foreachValueList, h.index, h.load, Outcome.ok_bind] at hloop
  have hsame : l'.map (mContainerOf 0) = l' :=
    (List.map_congr_left fun p _ => containerOf_zero p).trans (List.map_id _)
  rw [hsame] at hloop
  rw [gcMarkRootList, h.index, h.load, Outcome.ok_bind]
  refine (forLoop_eq_foldlM (fun _ _ _ e => (Except.ok.inj e).symm) hloop _ s).trans ?_
  exact markRecords_eq hmap s

/-- INTERNAL: the lists one after the other. The induction is on the number of lists to come. -/
theorem markRootLists_eq {mark : GCState → Addr → Outcome GCState} {ptr : Ptr → Addr}
    {body : GCState → BitVec 32 → Outcome GCState}
    (hbody : ∀ i (hi : i < B.length) s,
      body s (BitVec.ofNat 32 i) = (B[i].map ptr).foldlM mark s) {j k : ℕ}
    (hjk : j + k = B.length) (s : GCState) :
    ((List.range' j k).map (BitVec.ofNat 32)).foldlM body s =
      ((B.drop j).flatten.map ptr).foldlM mark s := by
  induction k generalizing j s with
  | zero =>
    rw [List.drop_of_length_le (by omega)]
    rfl
  | succ k ih =>
    have hlt : j < B.length := by omega
    rw [List.range'_succ, List.map_cons, List.foldlM_cons, hbody j hlt,
      List.drop_eq_getElem_cons hlt, List.flatten_cons, List.map_append, List.foldlM_append]
    exact bind_congr fun s' => ih (by omega) s'

/-- INTERNAL: **the loop over the table marks the pointers of its records** in the order of the
lists.
SOURCE: m_gc_obj.c:258-267 -/
theorem markRootTable_spec (h : Buckets m.table B) (hmap : ∀ rn ∈ B.flatten, mapped rn = true)
    (hf : B.flatten.length + B.length < fuel) (D : GCConfig) (s : GCState) :
    gcMarkRootTable mapped fuel m D s = (tablePtrs m B).foldlM (gcMark D) s := by
  have hpos := forLoop_positions (s := ()) m.table.hash.nlist (n := fuel) (by rw [h.nlist]; omega)
  rw [gcMarkRootTable]
  refine (forLoop_eq_foldlM (fun _ _ _ e => (Except.ok.inj e).symm) hpos _ s).trans ?_
  rw [h.nlist, List.range_eq_range']
  refine markRootLists_eq (fun i hi s => ?_) (Nat.zero_add _) s
  have hlen := (List.sublist_flatten_of_mem (List.getElem_mem hi)).length_le
  exact markRootList_spec (rootList h hmap hi)
    (fun rn hrn => hmap rn (List.mem_flatten_of_mem (List.getElem_mem hi) hrn)) (by omega) s

/-- **The collector marks every registered pointer, once for each registration.** In every state
of a run of `m_gc_add_root` and `m_gc_remove_root` the loop of `gc_mark_root_hash` over the table
marks exactly the pointers that were added so far, in some order, however often the table was
resized; a removal does not take a pointer away.
SOURCE: m_gc_obj.c:258-267; m_gc_root.c:31-136; m_hash.h:167-172, 537-570 -/
theorem root_table_marks (h : RootRun N ops r) (hrem : RemovesObjects N ops) (hn : n ≤ ops.length)
    (hmap : ∀ rn ∈ N, mapped rn = true) :
    ∃ ptrs : List Ptr, ptrs.Perm (addedPtrs (ops.take n)) ∧ ∃ walk, ∀ fuel ≥ walk, ∀ D s,
      gcMarkRootTable mapped fuel (r n) D s =
        (ptrs.map BitVec.toNat).foldlM (gcMark D) s := by
  obtain ⟨B, hB⟩ := rootBag_run h hrem hn
  refine ⟨B.flatten.map (r n).ptr, hB.ptrs, B.flatten.length + B.length + 1, fun fuel hf D s => ?_⟩
  rw [List.map_map]
  exact markRootTable_spec hB.buckets (fun rn hrn => hmap rn (hB.node rn hrn)) hf D s

/-- A pointer that was registered and removed is marked. -/
theorem root_table_marks_removed : ∃ r, RootRun {4096} [.add 8, .remove 8] r ∧
    ∃ walk, ∀ fuel ≥ walk, ∀ D s, gcMarkRootTable (fun _ => true) fuel (r 2) D s =
      gcMark D s 8 := by
  have hobj : (8 : Ptr) ∉ ({4096} : Set Ptr) := by
    intro e
    exact absurd (show (8 : Ptr) = 4096 from e) (by decide)
  have hnil : RootRun {4096} [] fun _ => rootStart := Run.nil ⟨_, rfl⟩
  obtain ⟨m₁, hm₁⟩ := rootStart_add
  obtain ⟨B, hB⟩ := (rootBag_startup {4096} _).step hm₁ fun p hp => by cases hp
  have hm₂ : RootStep {4096} m₁ (.remove 8) m₁ :=
    .remove (removeRoot_absent hB.buckets (by decide) (hB.not_rootAt hobj) (Nat.lt_succ_self _))
  have hrun := (hnil.snoc hm₁).snoc hm₂
  have hrem : RemovesObjects {4096} [.add 8, .remove 8] := by
    intro p hp
    obtain rfl : p = 8 := by simpa using hp
    exact hobj
  have hmap : ∀ rn ∈ ({4096} : Set Ptr), (fun _ : Ptr => true) rn = true := fun _ _ => rfl
  obtain ⟨ptrs, hperm, walk, hwalk⟩ := root_table_marks hrun hrem (n := 2) le_rfl hmap
  obtain rfl : ptrs = [8] := List.perm_singleton.mp hperm
  refine ⟨_, hrun, walk, fun fuel hf D s => (hwalk fuel hf D s).trans ?_⟩
  exact bind_pure _

end Ming.Analysis
