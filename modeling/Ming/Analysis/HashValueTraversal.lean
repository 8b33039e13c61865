import Ming.Analysis.HashTraversal

/-!
# The loops over the values of a hash table

A loop over values converts nodes to values at the head of a list, at every link, and at the end
of the list. `m_hash_foreach_value_safe` converts the link without a test for `NULL`, so at the
end of a list it goes on with an address that is `off` bytes below zero; only an offset of zero
hides that.
-/

set_option autoImplicit false

namespace Ming.Analysis

open Ming.Foundation Ming.Model Ming.Interface

variable {m m' : HashMem} {B : List (List Ptr)} {mapped : Ptr → Bool} {off val : Ptr}
variable {fuel n i : ℕ} {l : List Ptr}

/-- The body that only looks at what it is given. -/
abbrev look {ι : Type} (m : HashMem) (_ : ι) : Outcome HashMem := .ok m

/-! ## Nodes and their values -/

/-- INTERNAL: the member of the value of a node is the node. -/
theorem memberOf_containerOf (off node : Ptr) : memberOf off (mContainerOf off node) = node :=
  BitVec.sub_add_cancel node off

/-- INTERNAL: the value of the member of a value is the value. -/
theorem containerOf_memberOf (off val : Ptr) : mContainerOf off (memberOf off val) = val :=
  BitVec.add_sub_cancel val off

/-- INTERNAL: the values of given nodes. -/
theorem eq_map_containerOf {vals : List Ptr} (h : vals.map (memberOf off) = l) :
    vals = l.map (mContainerOf off) := by
  rw [← h, List.map_map]
  exact (List.map_id vals).symm.trans (List.map_congr_left fun v _ =>
    (containerOf_memberOf off v).symm)

/-- What a list is like for a loop that does not change it. -/
structure ListOf (mapped : Ptr → Bool) (off : Ptr) (m : HashMem) (i : ℕ) (l : List Ptr) : Prop
    where
  index : (BitVec.ofNat 32 i).toNat = i
  load : m.load (.list i) = .ok (l.headD NULL)
  ne_null : ∀ p ∈ l, p ≠ NULL
  value : ∀ p ∈ l, mContainerOf off p ≠ NULL
  next : ∀ done a rest, l = done ++ a :: rest → readNext mapped m a = .ok (rest.headD NULL)
  slot : ∀ done rest, l = done ++ rest →
    readSlot mapped m (slotAfter (.list i) done) = .ok (rest.headD NULL)
  nodup : l.Nodup

/-- INTERNAL: the lists of a table whose nodes are mapped and inside of values. -/
theorem listOf_table (h : Buckets m B) (hmap : ∀ p ∈ B.flatten, mapped p = true)
    (hval : ∀ p ∈ B.flatten, mContainerOf off p ≠ NULL) (hi : i < B.length) :
    ListOf mapped off m i B[i] := by
  have hget : B[i]? = some B[i] := List.getElem?_eq_getElem hi
  have hmem : ∀ p ∈ B[i], p ∈ B.flatten := fun p hp => mem_flatten_of_get hget hp
  have hlt : B.length < 2 ^ 32 := h.nlist ▸ m.hash.nlist.isLt
  refine ⟨?_, (load_list h hget).1, fun p hp => h.table.ne_null (hmem p hp),
    fun p hp => hval p (hmem p hp), fun done a rest hl => ?_, fun done rest hl => ?_,
    nodup_of_get h hget⟩
  · rw [BitVec.toNat_ofNat]
    exact Nat.mod_eq_of_lt (hi.trans hlt)
  · exact readNext_of_get h (hl ▸ hget) (hmap a (hmem a (by rw [hl]; simp)))
  · exact readSlot_slotAfter h (hl ▸ hget) fun p hp =>
      hmap p (hmem p (by rw [hl]; exact List.mem_append_left _ hp))

/-- INTERNAL: a node that is to come. -/
theorem ListOf.mem (h : ListOf mapped off m i l) {done rest : List Ptr} {a : Ptr}
    (hl : done ++ a :: rest = l) : a ≠ NULL ∧ mContainerOf off a ≠ NULL := by
  have ha : a ∈ l := by
    rw [← hl]
    simp
  exact ⟨h.ne_null a ha, h.value a ha⟩

/-! ## The loops over one list -/

/-- INTERNAL: the inner loop of `m_hash_foreach`.
SOURCE: m_hash.h:84 -/
theorem foreachList_spec (h : ListOf mapped off m i l) (hf : l.length < fuel) :
    foreachList mapped fuel look m (BitVec.ofNat 32 i) = .ok (m, l) := by
  rw [foreachList, h.index, h.load, Outcome.ok_bind]
  exact forLoop_links h.ne_null h.next hf

/-- INTERNAL: the inner loop of `m_hash_foreach_value`.
SOURCE: m_hash.h:169-172 -/
theorem foreachValueList_spec (h : ListOf mapped off m i l) (hf : l.length < fuel) :
    foreachValueList mapped off fuel look m (BitVec.ofNat 32 i) =
      .ok (m, l.map (mContainerOf off)) := by
  obtain ⟨m', val, rounds, e, hmap, rfl, -⟩ := forLoop_visits
    (fun _ val => .ok (if val = NULL then none else some val)) look
    (fun m val => do
      let next ← readNext mapped m (memberOf off val)
      pure (mNodeValue off next))
    (fun done rest m' val => m' = m ∧ val = mNodeValue off (rest.headD NULL) ∧ done ++ rest = l)
    (memberOf off)
    (fun done m' val hinv => by
      rw [hinv.2.1]
      rfl)
    (fun done a rest m' val hinv => by
      obtain ⟨rfl, rfl, hl⟩ := hinv
      obtain ⟨ha, hv⟩ := h.mem hl
      have hval : mNodeValue off ((a :: rest).headD NULL) = mContainerOf off a := if_pos ha
      rw [hval]
      refine ⟨mContainerOf off a, m', mNodeValue off (rest.headD NULL), congrArg _ (if_neg hv),
        memberOf_containerOf off a, rfl, ?_, rfl, rfl, ?_⟩
      · rw [memberOf_containerOf, h.next done a rest hl.symm, Outcome.ok_bind,
          Outcome.pure_eq_ok]
      · rw [List.append_assoc]
        exact hl) ⟨rfl, rfl, rfl⟩ hf
  rw [foreachValueList, h.index, h.load, Outcome.ok_bind, e, eq_map_containerOf hmap]

/-- INTERNAL: the inner loop of `m_hash_foreach_value_prev`.
SOURCE: m_hash.h:247-250 -/
theorem foreachValuePrevList_spec (h : ListOf mapped off m i l) (hf : l.length < fuel) :
    foreachValuePrevList mapped off fuel (fun m _ _ => .ok m) m (BitVec.ofNat 32 i) =
      .ok (m, l.map (mContainerOf off)) := by
  obtain ⟨m', pnode, rounds, e, hmap, rfl, -⟩ := forLoop_visits
    (fun m pnode => do
      let node ← readSlot mapped m pnode
      let val := if node ≠ NULL then mContainerOf off node else NULL
      pure (if val = NULL then none else some (val, pnode)))
    (fun m _ => .ok m)
    (fun m i => do
      let head ← readSlot mapped m i.2
      pure (if head = memberOf off i.1 then .next (memberOf off i.1) else i.2))
    (fun done rest m' pnode => m' = m ∧ pnode = slotAfter (.list i) done ∧ done ++ rest = l)
    (fun i => memberOf off i.1)
    (fun done m' pnode hinv => by
      obtain ⟨rfl, rfl, hl⟩ := hinv
      rw [h.slot done [] hl.symm]
      rfl)
    (fun done a rest m' pnode hinv => by
      obtain ⟨rfl, rfl, hl⟩ := hinv
      obtain ⟨ha, hv⟩ := h.mem hl
      have hslot := h.slot done (a :: rest) hl.symm
      refine ⟨(mContainerOf off a, slotAfter (.list i) done), m', .next a, ?_,
        memberOf_containerOf off a, rfl, ?_, rfl, (slotAfter_append_singleton ..).symm, ?_⟩
      · rw [hslot, Outcome.ok_bind]
        exact congrArg _ ((if_neg fun e => hv ((if_pos ha).symm.trans e)).trans
          (congrArg (fun v => some (v, slotAfter (.list i) done)) (if_pos ha)))
      · rw [hslot, Outcome.ok_bind]
        simp only [memberOf_containerOf]
        exact congrArg _ (if_pos rfl)
      · rw [List.append_assoc]
        exact hl) ⟨rfl, rfl, rfl⟩ hf
  rw [foreachValuePrevList, h.index, show HashSlot.list i = slotAfter (.list i) [] from rfl, e,
    Outcome.ok_bind]
  have hvals : rounds.map Prod.fst = l.map (mContainerOf off) :=
    eq_map_containerOf ((List.map_map ..).trans hmap)
  rw [← hvals]
  rfl

/-- INTERNAL: a value whose member is its first is at the node. -/
theorem containerOf_zero (node : Ptr) : mContainerOf 0 node = node := BitVec.sub_zero node

/-- INTERNAL: a value at its node, or none. -/
theorem nodeValue_zero (node : Ptr) : mNodeValue 0 node = node := by
  rw [mNodeValue]
  split_ifs with h
  · exact containerOf_zero node
  · exact (not_not.mp h).symm

/-- The test of the loop of `m_hash_foreach_value_safe`, which also reads the next node. -/
def valueSafeTest (mapped : Ptr → Bool) (off : Ptr) :
    HashMem → Ptr → Outcome (Option (Ptr × Ptr)) :=
  fun m val => do
    let nval ← (if val ≠ NULL then do
        let next ← readNext mapped m (memberOf off val)
        pure (mContainerOf off next)
      else pure NULL)
    pure (if val = NULL then none else some (val, nval))

/-- INTERNAL: the test at a value of the list.
SOURCE: m_hash.h:208-210 -/
theorem valueSafeTest_value (h : ListOf mapped off m i l) {done rest : List Ptr} {a : Ptr}
    (hl : done ++ a :: rest = l) : valueSafeTest mapped off m (mContainerOf off a) =
      .ok (some (mContainerOf off a, mContainerOf off (rest.headD NULL))) := by
  obtain ⟨-, hv⟩ := h.mem hl
  rw [valueSafeTest, if_pos hv, memberOf_containerOf, h.next done a rest hl.symm, Outcome.ok_bind,
    Outcome.pure_eq_ok, Outcome.ok_bind, if_neg hv, Outcome.pure_eq_ok]

/-- INTERNAL: the test behind the end of a list reads the link of `NULL`.
SOURCE: m_hash.h:208-210 -/
theorem valueSafeTest_behind (hoff : off ≠ 0) (hnull : mapped NULL = false) :
    valueSafeTest mapped off m (mContainerOf off NULL) = .error .unmapped := by
  have hbelow : mContainerOf off NULL ≠ NULL := by
    intro e
    have hzero := congrArg (memberOf off) e
    rw [memberOf_containerOf] at hzero
    exact hoff ((BitVec.zero_add off).symm.trans hzero.symm)
  have hread : readNext mapped m NULL = .error .unmapped := by
    rw [readNext, hnull]
    rfl
  rw [valueSafeTest, if_pos hbelow, memberOf_containerOf, hread]
  rfl

/-- INTERNAL: the inner loop of `m_hash_foreach_value_safe`, when the node comes first in the
value or the list is empty.
SOURCE: m_hash.h:207-211 -/
theorem foreachValueSafeList_spec (h : ListOf mapped off m i l) (hoff : off = 0 ∨ l = [])
    (hf : l.length < fuel) : foreachValueSafeList mapped off fuel look m (BitVec.ofNat 32 i) =
      .ok (m, l.map (mContainerOf off)) := by
  obtain ⟨m', val, rounds, e, hmap, rfl, -⟩ := forLoop_visits
    (valueSafeTest mapped off) (fun m _ => .ok m) (fun _ i => .ok i.2)
    (fun done rest m' val => m' = m ∧ val = mNodeValue off (rest.headD NULL) ∧ done ++ rest = l)
    (fun i => memberOf off i.1)
    (fun done m' val hinv => by
      rw [hinv.2.1]
      rfl)
    (fun done a rest m' val hinv => by
      obtain ⟨rfl, rfl, hl⟩ := hinv
      have hzero : off = 0 := hoff.resolve_right (by rw [← hl]; simp)
      have hval : mNodeValue off ((a :: rest).headD NULL) = mContainerOf off a :=
        if_pos (h.mem hl).1
      have hnext : mContainerOf off (rest.headD NULL) = mNodeValue off (rest.headD NULL) := by
        rw [hzero, containerOf_zero, nodeValue_zero]
      rw [hval]
      refine ⟨_, m', mContainerOf off (rest.headD NULL), valueSafeTest_value h hl,
        memberOf_containerOf off a, rfl, rfl, rfl, hnext, ?_⟩
      rw [List.append_assoc]
      exact hl) ⟨rfl, rfl, rfl⟩ hf
  unfold valueSafeTest at e
  rw [foreachValueSafeList, h.index, h.load, Outcome.ok_bind, e, Outcome.ok_bind]
  have hvals : rounds.map Prod.fst = l.map (mContainerOf off) :=
    eq_map_containerOf ((List.map_map ..).trans hmap)
  rw [← hvals]
  rfl

/-- INTERNAL: from every value of a list on the loop fails. The induction is on the nodes behind
it. -/
theorem valueSafe_fails (h : ListOf mapped off m i l) (hoff : off ≠ 0)
    (hnull : mapped NULL = false) {done rest : List Ptr} {a : Ptr} (hl : done ++ a :: rest = l)
    (r : HashMem × List (Ptr × Ptr)) : forLoop (valueSafeTest mapped off) look
      (fun _ i => .ok i.2) n m (mContainerOf off a) ≠ .ok r := by
  intro e
  have ht := valueSafeTest_value h hl
  obtain ⟨j, r', hr⟩ := forLoop_after_round ht rfl rfl e
  induction rest generalizing done a n r j r' with
  | nil => exact forLoop_fault (valueSafeTest_behind hoff hnull) r' hr
  | cons b rest ih =>
    have hl' : (done ++ [a]) ++ b :: rest = l := by
      rw [List.append_assoc]
      exact hl
    have ht' := valueSafeTest_value h hl'
    obtain ⟨j', r'', hr'⟩ := forLoop_after_round ht' rfl rfl hr
    exact ih hl' r' hr ht' j' r'' hr'

/-- INTERNAL: at the end of a list that is not empty `m_hash_foreach_value_safe` goes on with an
address that is no value.
SOURCE: m_hash.h:208-210 -/
theorem foreachValueSafeList_ne_ok (h : ListOf mapped off m i l) (hoff : off ≠ 0) (hl : l ≠ [])
    (hnull : mapped NULL = false) (r : HashMem × List Ptr) :
    foreachValueSafeList mapped off fuel look m (BitVec.ofNat 32 i) ≠ .ok r := by
  intro e
  obtain ⟨a, rest, rfl⟩ := List.exists_cons_of_ne_nil hl
  rw [foreachValueSafeList, h.index, h.load, Outcome.ok_bind] at e
  have ha : a ≠ NULL := h.ne_null a (List.mem_cons_self ..)
  have hval : mNodeValue off ((a :: rest).headD NULL) = mContainerOf off a := if_pos ha
  rw [hval] at e
  obtain ⟨r', e', -⟩ := Outcome.bind_eq_ok.mp e
  exact valueSafe_fails h hoff hnull (List.nil_append _) r' e'

/-! ## All lists -/

section Lists

variable {inner : HashMem → BitVec 32 → Outcome (HashMem × List Ptr)}
variable (hstate : ∀ m pos r, inner m pos = .ok r → r.1 = m) (hi : i < m.hash.nlist.toNat)
include hstate hi

/-- INTERNAL: a loop over the lists from `j` on that returned has run through the list `i`. The
induction is on the fuel. -/
theorem forLists_from_eq_ok {j : ℕ} {acc : List Ptr}
    {r : (HashMem × List Ptr) × List (BitVec 32)} (hj : j ≤ i)
    (e : forLoop (fun (s : HashMem × List Ptr) pos =>
        .ok (if pos < s.1.hash.nlist then some pos else none))
      (fun s pos => do
        let r ← inner s.1 pos
        pure (r.1, s.2 ++ r.2))
      (fun _ pos => .ok (pos + 1)) n (m, acc) (BitVec.ofNat 32 j) = .ok r) :
    ∃ r', inner m (BitVec.ofNat 32 i) = .ok r' := by
  induction n generalizing j acc r with
  | zero => cases e
  | succ n ih =>
    have hlt : j < 2 ^ 32 := (hj.trans_lt hi).trans m.hash.nlist.isLt
    have hpos : BitVec.ofNat 32 j < m.hash.nlist := by
      rw [BitVec.lt_def, BitVec.toNat_ofNat, Nat.mod_eq_of_lt hlt]
      exact hj.trans_lt hi
    rcases forLoop_eq_ok e with ⟨ht, -⟩ | ⟨pos, s, k, r', ht, hb, hk, hr, -⟩
    · rw [if_pos hpos] at ht
      cases ht
    · rw [if_pos hpos] at ht
      obtain rfl := Option.some.inj (Except.ok.inj ht)
      obtain ⟨r₁, e₁, hs⟩ := Outcome.bind_eq_ok.mp hb
      obtain rfl := Except.ok.inj hk
      obtain rfl := Except.ok.inj hs
      rcases Nat.eq_or_lt_of_le hj with rfl | hj'
      · exact ⟨r₁, e₁⟩
      · have hm : r₁.1 = m := hstate _ _ _ e₁
        have hnext : BitVec.ofNat 32 j + 1 = BitVec.ofNat 32 (j + 1) :=
          (BitVec.ofNat_add ..).symm
        rw [hm, hnext] at hr
        exact ih hj' hr

/-- INTERNAL: a loop over all lists that returned has run through every list. -/
theorem forLists_eq_ok {r : HashMem × List Ptr} (h : forLists fuel inner m = .ok r) :
    ∃ r', inner m (BitVec.ofNat 32 i) = .ok r' := by
  obtain ⟨r', e, -⟩ := Outcome.bind_eq_ok.mp h
  exact forLists_from_eq_ok hstate hi (Nat.zero_le i) e

end Lists

/-- INTERNAL: a loop that goes through each list without a change goes through all of them. -/
theorem forLists_table (h : Buckets m B) {f : Ptr → Ptr}
    {inner : HashMem → BitVec 32 → Outcome (HashMem × List Ptr)}
    (hinner : ∀ i (hi : i < B.length), inner m (BitVec.ofNat 32 i) = .ok (m, B[i].map f))
    (hf : B.length < fuel) : forLists fuel inner m = .ok (m, B.flatten.map f) := by
  have hlen : (B.map (List.map f)).length = B.length := List.length_map _
  have hspec := forLists_spec (B.map (List.map f)) (fun _ m' => m' = m) inner
    (fun i m' hm => by rw [hm, h.nlist, hlen])
    (fun i m' hm hi => ⟨m, by
      rw [hm, hinner i (hlen ▸ hi), List.getElem_map], rfl⟩) rfl (hlen.symm ▸ hf)
  obtain ⟨m', e, rfl⟩ := hspec
  rw [e, List.map_flatten]

/-- The loops over values bind `val` to the containers of the nodes that `m_hash_foreach` visits,
in the same order, and end without reading anything else. -/
def ValueLoopsAgree (mapped : Ptr → Bool) (off : Ptr) (fuel : ℕ) (m : HashMem) : Prop :=
  ∃ nodes, mHashForeach mapped fuel look m = .ok (m, nodes) ∧
    mHashForeachValue mapped off fuel look m = .ok (m, nodes.map (mContainerOf off)) ∧
    mHashForeachValueSafe mapped off fuel look m = .ok (m, nodes.map (mContainerOf off)) ∧
    mHashForeachValuePrev mapped off fuel (fun m _ _ => .ok m) m =
      .ok (m, nodes.map (mContainerOf off))

/-- INTERNAL: `m_hash_foreach_value_safe` returns only where the node comes first in the value,
or the table is empty. -/
theorem foreachValueSafe_ok (h : Buckets m B) (hmap : ∀ p, mapped p = true ↔ p ∈ B.flatten)
    (hval : ∀ p ∈ B.flatten, mContainerOf off p ≠ NULL) {r : HashMem × List Ptr}
    (e : mHashForeachValueSafe mapped off fuel look m = .ok r) : off = 0 ∨ B.flatten = [] := by
  by_contra hnot
  obtain ⟨hoff, hne⟩ := not_or.mp hnot
  obtain ⟨p, hp⟩ := List.exists_mem_of_ne_nil _ hne
  obtain ⟨l, hl, hpl⟩ := List.mem_flatten.mp hp
  obtain ⟨i, hi, rfl⟩ := List.mem_iff_getElem.mp hl
  have hnull : mapped NULL = false := by
    rw [← Bool.not_eq_true, hmap]
    exact fun hn => h.table.ne_null hn rfl
  have hstate : ∀ m pos r, foreachValueSafeList mapped off fuel look m pos = .ok r → r.1 = m := by
    intro m pos r e
    obtain ⟨node, -, e'⟩ := Outcome.bind_eq_ok.mp e
    obtain ⟨r', hloop, hr⟩ := Outcome.bind_eq_ok.mp e'
    rw [← Except.ok.inj hr]
    change r'.1 = m
    refine forLoop_state ?_ hloop
    intro s i s' hb
    exact (Except.ok.inj hb).symm
  obtain ⟨r', e'⟩ := forLists_eq_ok hstate (h.nlist.symm ▸ hi) e
  exact foreachValueSafeList_ne_ok (listOf_table h (fun p hp => (hmap p).mpr hp) hval hi) hoff
    (List.ne_nil_of_mem hpl) hnull r' e'

/-- **The loops over values agree with the loop over nodes** exactly when the node comes first in
its value or the table holds no node. For any other layout `m_hash_foreach_value_safe` goes on at
the end of a list with the address `off` bytes below `NULL` and reads the link of that value.
SOURCE: m_hash.h:167-172, 205-211, 245-250; m_macros.h:80-112 -/
theorem value_loops_agree_iff (h : Buckets m B) (hmap : ∀ p, mapped p = true ↔ p ∈ B.flatten)
    (hval : ∀ p ∈ B.flatten, mContainerOf off p ≠ NULL)
    (hf : B.flatten.length + B.length < fuel) :
    ValueLoopsAgree mapped off fuel m ↔ off = 0 ∨ B.flatten = [] := by
  have hlist : ∀ i (hi : i < B.length), ListOf mapped off m i B[i] ∧ B[i].length < fuel ∧
      (B.flatten = [] → B[i] = []) := fun i hi => by
    have hle := bucket_length_le (List.getElem?_eq_getElem hi)
    refine ⟨listOf_table h (fun p hp => (hmap p).mpr hp) hval hi, by omega, fun hnil => ?_⟩
    rw [hnil] at hle
    exact List.eq_nil_of_length_eq_zero (Nat.le_zero.mp hle)
  have hB : B.length < fuel := by omega
  constructor
  · intro hagree
    obtain ⟨nodes, -, -, e, -⟩ := hagree
    exact foreachValueSafe_ok h hmap hval e
  · intro hoff
    refine ⟨B.flatten, ?_, ?_, ?_, ?_⟩
    · have hnode := forLists_table (f := id) h (fun i hi => by
        rw [List.map_id]
        exact foreachList_spec (hlist i hi).1 (hlist i hi).2.1) hB
      rwa [List.map_id] at hnode
    · exact forLists_table h
        (fun i hi => foreachValueList_spec (hlist i hi).1 (hlist i hi).2.1) hB
    · exact forLists_table h (fun i hi => foreachValueSafeList_spec (hlist i hi).1
        (hoff.imp_right (hlist i hi).2.2) (hlist i hi).2.1) hB
    · exact forLists_table h
        (fun i hi => foreachValuePrevList_spec (hlist i hi).1 (hlist i hi).2.1) hB

/-- A table of four nodes which come first in their values. -/
theorem value_loops_agree_lists :
    ValueLoopsAgree (fun p => decide (p ∈ [48, 24, 16, 8])) 0 8 threeLists :=
  (value_loops_agree_iff threeLists_buckets (fun p => by simp)
    (fun p hp => by
      simp only [List.flatten_cons, List.flatten_nil, List.append_nil, List.cons_append,
        List.nil_append, List.mem_cons, List.not_mem_nil, or_false] at hp
      rcases hp with rfl | rfl | rfl | rfl <;> decide) (by decide)).mpr (Or.inl rfl)

/-- A table of one node at `16`, in a value at `8`. -/
theorem value_loops_agree_fails :
    Buckets ⟨⟨[16], 1, 1⟩, fun _ => NULL⟩ [[16]] ∧
    mHashForeachValueSafe (fun p => p == 16) 8 4 look ⟨⟨[16], 1, 1⟩, fun _ => NULL⟩ =
      .error .unmapped ∧
    ¬ ValueLoopsAgree (fun p => p == 16) 8 4 ⟨⟨[16], 1, 1⟩, fun _ => NULL⟩ := by
  have hrun : mHashForeachValueSafe (fun p => p == 16) 8 4 look
      ⟨⟨[16], 1, 1⟩, fun _ => NULL⟩ = .error .unmapped := rfl
  refine ⟨buckets_singleton (by decide), hrun, fun hagree => ?_⟩
  obtain ⟨nodes, -, -, hsafe, -⟩ := hagree
  rw [hrun] at hsafe
  cases hsafe

end Ming.Analysis
