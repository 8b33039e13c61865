import Ming.Analysis.HashRuns
import Ming.Model.HashTraverse

/-!
# Traversal of the hash table under removal

A loop over one list keeps two parts of it: the visited nodes that were not removed, and the
nodes that are still to come. The safe loop has saved the first of the latter, and the loop with
`pnode` the slot behind the former. A body that unlinks the visited node, in whichever way it
finds it, keeps both.
-/

set_option autoImplicit false

namespace Ming.Analysis

open Ming.Foundation Ming.Model Ming.Interface

variable {K ι : Type} {ops : MHashOps K} {m m' : HashMem} {B : List (List Ptr)} {S : List Ptr}
variable {mapped : Ptr → Bool} {rm : Ptr → Bool} {fuel i : ℕ} {l l₁ l₂ : List Ptr} {p : Ptr}

/-! ## The loop over the lists -/

/-- Between two lists: the indices of the lists that were done and of those to come, and what
the body was given so far. -/
def ListsInv (V : List (List ι)) (Inv : ℕ → HashMem → Prop) (done rest : List ℕ)
    (s : HashMem × List ι) (pos : BitVec 32) : Prop :=
  done ++ rest = List.range V.length ∧ pos = BitVec.ofNat 32 done.length ∧
    Inv done.length s.1 ∧ s.2 = (V.take done.length).flatten

/-- INTERNAL: the lists one after the other. `V` has what the loop over each list gives to the
body. -/
theorem forLists_spec (V : List (List ι)) (Inv : ℕ → HashMem → Prop)
    (inner : HashMem → BitVec 32 → Outcome (HashMem × List ι))
    (hnlist : ∀ i m, Inv i m → m.hash.nlist.toNat = V.length)
    (hinner : ∀ i m, Inv i m → ∀ hi : i < V.length, ∃ m',
      inner m (BitVec.ofNat 32 i) = .ok (m', V[i]) ∧ Inv (i + 1) m')
    (h : Inv 0 m) (hf : V.length < fuel) :
    ∃ m', forLists fuel inner m = .ok (m', V.flatten) ∧ Inv V.length m' := by
  have hlt : V.length < 2 ^ 32 := hnlist 0 m h ▸ m.hash.nlist.isLt
  have hinit : ListsInv V Inv [] (List.range V.length) (m, []) 0 := ⟨rfl, rfl, h, by simp⟩
  obtain ⟨s, pos, rounds, e, -, -, -, hinv, hrounds⟩ := forLoop_visits
    (fun (s : HashMem × List ι) pos =>
      .ok (if pos < s.1.hash.nlist then some pos else none))
    (fun s pos => do
      let r ← inner s.1 pos
      pure (r.1, s.2 ++ r.2))
    (fun _ pos => .ok (pos + 1)) (ListsInv V Inv) BitVec.toNat
    (fun done s pos hinv => by
      obtain ⟨hsplit, rfl, hinv, -⟩ := hinv
      have hlen : done.length = V.length := by simpa using congrArg List.length hsplit
      refine congrArg _ (if_neg ?_)
      rw [BitVec.lt_def, hnlist _ _ hinv, hlen, BitVec.toNat_ofNat, Nat.mod_eq_of_lt hlt]
      exact lt_irrefl _)
    (fun done a rest s pos hinv => by
      obtain ⟨hsplit, rfl, hinv, hvisited⟩ := hinv
      have hlen : done.length < V.length := by
        have := congrArg List.length hsplit
        simp only [List.length_append, List.length_cons, List.length_range] at this
        omega
      have ha : a = done.length := by
        have := congrArg (fun l => l[done.length]?) hsplit
        simpa [List.getElem?_range hlen] using this
      have hpos : (BitVec.ofNat 32 done.length).toNat = done.length := by
        rw [BitVec.toNat_ofNat]
        exact Nat.mod_eq_of_lt (hlen.trans hlt)
      obtain ⟨m', e, hinv'⟩ := hinner done.length s.1 hinv hlen
      refine ⟨_, (m', s.2 ++ V[done.length]), _, congrArg _ (if_pos ?_), ?_, ?_, rfl,
        ?_, ?_, ?_, ?_⟩
      · rw [BitVec.lt_def, hpos, hnlist _ _ hinv]
        exact hlen
      · exact hpos.trans ha.symm
      · simp only [e, Outcome.ok_bind, Outcome.pure_eq_ok]
      · rw [List.append_assoc]
        exact hsplit
      · rw [List.length_append, List.length_singleton, BitVec.ofNat_add]
        rfl
      · rw [List.length_append, List.length_singleton]
        exact hinv'
      · rw [List.length_append, List.length_singleton, List.take_succ_eq_append_getElem hlen,
          List.flatten_append, hvisited]
        simp) hinit (n := fuel) (by simpa using hf)
  refine ⟨s.1, ?_, by simpa using hinv⟩
  rw [forLists, e]
  refine congrArg Except.ok (Prod.ext rfl ?_)
  simpa using hrounds

/-! ## Slots and chains -/

/-- INTERNAL: a list begins at its first node. -/
theorem chain_headD (h : Chain m.next NULL p l) : p = l.headD NULL := by
  cases l with
  | nil => exact h
  | cons a l => exact h.1

/-- INTERNAL: the head of a list and its chain. -/
theorem load_list (h : Buckets m B) (hB : B[i]? = some l) :
    m.load (.list i) = .ok (l.headD NULL) ∧ Chain m.next NULL (l.headD NULL) l := by
  obtain ⟨head, l', hl, hB', hc⟩ := h.table.at_pos (List.getElem?_eq_some_iff.mp hB).1
  obtain rfl := Option.some.inj (hB'.symm.trans hB)
  obtain rfl := chain_headD hc
  exact ⟨by simp only [HashMem.load, hl], hc⟩

/-- INTERNAL: the slot behind some nodes of a list leads to what follows them. -/
theorem readSlot_slotAfter (h : Buckets m B) (hB : B[i]? = some (l₁ ++ l₂))
    (hmap : ∀ p ∈ l₁, mapped p = true) :
    readSlot mapped m (slotAfter (.list i) l₁) = .ok (l₂.headD NULL) := by
  obtain ⟨hload, hc⟩ := load_list h hB
  rcases List.eq_nil_or_concat l₁ with rfl | ⟨l, a, rfl⟩
  · exact hload
  · rw [List.concat_eq_append, List.append_assoc] at hc
    rw [List.concat_eq_append, slotAfter_append_singleton, readSlot, readNext,
      if_pos (hmap a (by simp)), chain_headD hc.tail]
    rfl

/-- INTERNAL: the link of a node leads to what follows it. -/
theorem readNext_of_get (h : Buckets m B) {a : Ptr} (hB : B[i]? = some (l₁ ++ a :: l₂))
    (hmap : mapped a = true) : readNext mapped m a = .ok (l₂.headD NULL) := by
  rw [readNext, if_pos hmap, chain_headD (load_list h hB).2.tail]

/-- INTERNAL: a node of a list is not null. -/
theorem ne_null_of_get (h : Buckets m B) {a : Ptr} (hB : B[i]? = some (l₁ ++ a :: l₂)) :
    a ≠ NULL :=
  h.table.ne_null (mem_flatten_of_get hB (by simp))

/-- INTERNAL: no node is twice in a list. -/
theorem nodup_of_get (h : Buckets m B) (hB : B[i]? = some l) : l.Nodup := by
  obtain ⟨rest, hperm, -⟩ := flatten_perm_of_get hB
  exact (List.nodup_append.mp (hperm.nodup_iff.mp h.nodup)).1

/-! ## Bodies that remove the current node -/

/-- The nodes that stay. -/
def kept (rm : Ptr → Bool) (l : List Ptr) : List Ptr := l.filter fun p => !rm p

/-- INTERNAL: one more node is visited. -/
theorem kept_append_singleton (rm : Ptr → Bool) (l : List Ptr) (a : Ptr) :
    kept rm (l ++ [a]) = kept rm l ++ (if rm a then [] else [a]) := by
  rw [kept, List.filter_append]
  cases h : rm a <;> simp [h, kept]

/-- A body that unlinks the chosen nodes, each in the slot behind the nodes before it, and
keeps a property of the table. -/
structure Unlinks (P : HashMem → List (List Ptr) → Prop) (rm : Ptr → Bool)
    (body : HashMem → Ptr → HashSlot → Outcome HashMem) : Prop where
  buckets : ∀ m B, P m B → Buckets m B
  unlink : ∀ m B i l₁ a l₂, P m B → B[i]? = some (l₁ ++ a :: l₂) → ∃ m',
    body m a (slotAfter (.list i) l₁) = .ok m' ∧
      P m' (B.set i (l₁ ++ ((if rm a then [] else [a]) ++ l₂)))

section OneList

variable {P : HashMem → List (List Ptr) → Prop}
variable {body : HashMem → Ptr → HashSlot → Outcome HashMem}

/-- The list with index `i` in the middle of its loop. -/
def MidList (P : HashMem → List (List Ptr) → Prop) (rm : Ptr → Bool) (B : List (List Ptr))
    (i : ℕ) (done rest : List Ptr) (m : HashMem) : Prop :=
  P m (B.set i (kept rm done ++ rest))

/-- INTERNAL: the list before its loop. -/
theorem MidList.start (h : P m B) (hB : B[i]? = some l) : MidList P rm B i [] l m := by
  obtain ⟨_, rfl⟩ := List.getElem?_eq_some_iff.mp hB
  rwa [MidList, show kept rm [] ++ B[i] = B[i] from rfl, List.set_getElem_self]

/-- INTERNAL: the body in the middle of a list. -/
theorem Unlinks.midList (hu : Unlinks P rm body) (hi : i < B.length) {done rest : List Ptr}
    {a : Ptr} (h : MidList P rm B i done (a :: rest) m) :
    ∃ m', body m a (slotAfter (.list i) (kept rm done)) = .ok m' ∧
      MidList P rm B i (done ++ [a]) rest m' := by
  obtain ⟨m', e, h'⟩ := hu.unlink m _ i (kept rm done) a rest h (List.getElem?_set_self hi)
  refine ⟨m', e, ?_⟩
  rw [MidList, kept_append_singleton, List.append_assoc]
  rwa [List.set_set] at h'

/-- INTERNAL: the inner loop of `m_hash_foreach_safe`.
SOURCE: m_hash.h:110-112 -/
theorem foreachSafeList_spec {body : HashMem → Ptr → Outcome HashMem}
    (hu : Unlinks P rm fun m node _ => body m node) (h : P m B) (hB : B[i]? = some l)
    (hmap : ∀ p ∈ l, mapped p = true) (hi : i < 2 ^ 32) (hf : l.length < fuel) :
    ∃ m', foreachSafeList mapped fuel body m (BitVec.ofNat 32 i) = .ok (m', l) ∧
      P m' (B.set i (kept rm l)) := by
  have hlt : i < B.length := (List.getElem?_eq_some_iff.mp hB).1
  obtain ⟨m', rounds, e, hmap', hfinal, -⟩ := forLoop_saved
    (fun m node => do
      let nnext ← (if node ≠ NULL then readNext mapped m node else pure NULL)
      pure (if node = NULL then none else some (node, nnext))) body
    (fun done rest m => MidList P rm B i done rest m ∧ ∀ p ∈ rest, mapped p = true)
    (fun done m hinv => rfl)
    (fun done a rest m hinv => by
      obtain ⟨hmid, hrest⟩ := hinv
      have hget := List.getElem?_set_self (a := kept rm done ++ a :: rest) hlt
      have ha := ne_null_of_get (hu.buckets _ _ hmid) hget
      obtain ⟨m', e, hmid'⟩ := hu.midList hlt hmid
      refine ⟨?_, m', e, hmid', fun p hp => hrest p (List.mem_cons_of_mem a hp)⟩
      rw [if_pos ha, readNext_of_get (hu.buckets _ _ hmid) hget (hrest a (by simp)),
        Outcome.ok_bind, if_neg ha, Outcome.pure_eq_ok]) ⟨MidList.start h hB, hmap⟩ hf
  refine ⟨m', ?_, by simpa [MidList] using hfinal⟩
  have hpos : (BitVec.ofNat 32 i).toNat = i := by
    rw [BitVec.toNat_ofNat]
    exact Nat.mod_eq_of_lt hi
  rw [foreachSafeList, hpos, (load_list (hu.buckets _ _ h) hB).1, Outcome.ok_bind, e,
    Outcome.ok_bind, ← hmap']
  rfl

/-- INTERNAL: the link behind the nodes that were kept. -/
theorem Unlinks.readSlot_kept (hu : Unlinks P rm body) (hi : i < B.length) {done rest : List Ptr}
    (h : MidList P rm B i done rest m) (hdone : ∀ p ∈ done, mapped p = true) :
    readSlot mapped m (slotAfter (.list i) (kept rm done)) = .ok (rest.headD NULL) :=
  readSlot_slotAfter (hu.buckets _ _ h) (List.getElem?_set_self hi) fun p hp =>
    hdone p (List.mem_of_mem_filter hp)

/-- INTERNAL: the node in front of the others is none of them. -/
theorem Unlinks.next_ne (hu : Unlinks P rm body) (hi : i < B.length) {done rest : List Ptr}
    {a : Ptr} (h : MidList P rm B i done (a :: rest) m) : rest.headD NULL ≠ a := by
  have hget := List.getElem?_set_self (a := kept rm done ++ a :: rest) hi
  have hb := hu.buckets _ _ h
  cases rest with
  | nil => exact (ne_null_of_get hb hget).symm
  | cons b rest =>
    have hnd := nodup_of_get hb hget
    rw [List.nodup_append, List.nodup_cons] at hnd
    exact fun e => hnd.2.1.1 (by rw [← show b = a from e]; simp)

/-- INTERNAL: the step of `m_hash_foreach_prev` after the body, which finds by the link whether
the node is still there.
SOURCE: m_hash.h:139-140 -/
theorem Unlinks.stepPrev (hu : Unlinks P rm body) (hi : i < B.length) {done rest : List Ptr}
    {a : Ptr} (h : MidList P rm B i done (a :: rest) m)
    (h' : MidList P rm B i (done ++ [a]) rest m') (hdone : ∀ p ∈ done, mapped p = true) :
    (do
      let head ← readSlot mapped m' (slotAfter (.list i) (kept rm done))
      pure (if head = a then .next a else slotAfter (.list i) (kept rm done)) :
        Outcome HashSlot) = .ok (slotAfter (.list i) (kept rm (done ++ [a]))) := by
  have hmid : MidList P rm B i done ((if rm a then [] else [a]) ++ rest) m' := by
    rwa [MidList, kept_append_singleton, List.append_assoc] at h'
  rw [hu.readSlot_kept hi hmid hdone, Outcome.ok_bind, kept_append_singleton]
  cases hrm : rm a with
  | false => simp [slotAfter_append_singleton]
  | true =>
    -- the node is gone, and what follows it is another node or `NULL`
    simp only [if_true, List.nil_append, List.append_nil, Outcome.pure_eq_ok,
      if_neg (hu.next_ne hi h)]

/-- INTERNAL: the inner loop of `m_hash_foreach_prev`.
SOURCE: m_hash.h:138-140 -/
theorem foreachPrevList_spec (hu : Unlinks P rm body) (h : P m B) (hB : B[i]? = some l)
    (hmap : ∀ p ∈ l, mapped p = true) (hi : i < 2 ^ 32) (hf : l.length < fuel) :
    ∃ m', foreachPrevList mapped fuel body m (BitVec.ofNat 32 i) = .ok (m', l) ∧
      P m' (B.set i (kept rm l)) := by
  have hlt : i < B.length := (List.getElem?_eq_some_iff.mp hB).1
  obtain ⟨m', pnode, rounds, e, hmap', hfinal, -⟩ := forLoop_visits
    (fun m pnode => do
      let node ← readSlot mapped m pnode
      pure (if node = NULL then none else some (node, pnode)))
    (fun m i => body m i.1 i.2)
    (fun m i => do
      let head ← readSlot mapped m i.2
      pure (if head = i.1 then .next i.1 else i.2))
    (fun done rest m pnode => MidList P rm B i done rest m ∧
      pnode = slotAfter (.list i) (kept rm done) ∧ (∀ p ∈ done, mapped p = true) ∧
      ∀ p ∈ rest, mapped p = true) Prod.fst
    (fun done m pnode hinv => by
      obtain ⟨hmid, rfl, hdone, -⟩ := hinv
      rw [hu.readSlot_kept hlt hmid hdone]
      rfl)
    (fun done a rest m pnode hinv => by
      obtain ⟨hmid, rfl, hdone, hrest⟩ := hinv
      have hget := List.getElem?_set_self (a := kept rm done ++ a :: rest) hlt
      have ha := ne_null_of_get (hu.buckets _ _ hmid) hget
      obtain ⟨m', e, hmid'⟩ := hu.midList hlt hmid
      have hdone' : ∀ p ∈ done ++ [a], mapped p = true := fun p hp => by
        rcases List.mem_append.mp hp with hp | hp
        · exact hdone p hp
        · exact List.mem_singleton.mp hp ▸ hrest a (by simp)
      refine ⟨(a, _), m', slotAfter (.list i) (kept rm (done ++ [a])), ?_, rfl, e,
        hu.stepPrev hlt hmid hmid' hdone, hmid', rfl, hdone',
        fun p hp => hrest p (List.mem_cons_of_mem a hp)⟩
      rw [hu.readSlot_kept hlt hmid hdone, Outcome.ok_bind]
      exact congrArg _ (if_neg ha))
      ⟨MidList.start h hB, rfl, by simp, hmap⟩ hf
  refine ⟨m', ?_, by simpa [MidList] using hfinal⟩
  have hpos : (BitVec.ofNat 32 i).toNat = i := by
    rw [BitVec.toNat_ofNat]
    exact Nat.mod_eq_of_lt hi
  rw [foreachPrevList, hpos, show HashSlot.list i = slotAfter (.list i) (kept rm []) from rfl, e,
    Outcome.ok_bind, ← hmap']
  rfl

end OneList

/-! ## All lists -/

/-- The buckets when the lists with an index below `i` were done. -/
def doneBuckets (rm : Ptr → Bool) (B : List (List Ptr)) (i : ℕ) : List (List Ptr) :=
  (B.take i).map (kept rm) ++ B.drop i

/-- INTERNAL: a loop keeps the number of the lists. -/
theorem doneBuckets_length (rm : Ptr → Bool) (B : List (List Ptr)) (i : ℕ) :
    (doneBuckets rm B i).length = B.length := by
  simp only [doneBuckets, List.length_append, List.length_map, List.length_take, List.length_drop]
  omega

/-- INTERNAL: the lists after the whole loop. -/
theorem doneBuckets_all (rm : Ptr → Bool) (B : List (List Ptr)) :
    doneBuckets rm B B.length = B.map (kept rm) := by
  simp [doneBuckets]

/-- INTERNAL: the next list, and the buckets after it. -/
theorem doneBuckets_next (rm : Ptr → Bool) (hi : i < B.length) :
    (doneBuckets rm B i)[i]? = some B[i] ∧
      (doneBuckets rm B i).set i (kept rm B[i]) = doneBuckets rm B (i + 1) := by
  have hlen : ((B.take i).map (kept rm)).length = i := by
    rw [List.length_map, List.length_take]
    omega
  have hdrop : B.drop i = B[i] :: B.drop (i + 1) := List.drop_eq_getElem_cons hi
  rw [doneBuckets, doneBuckets, hdrop]
  constructor
  · rw [List.getElem?_append_right hlen.le, hlen, Nat.sub_self]
    rfl
  · rw [List.set_append_right _ _ hlen.le, hlen, Nat.sub_self,
      List.take_succ_eq_append_getElem hi, List.map_append, List.append_assoc]
    rfl

/-- INTERNAL: a loop over all lists whose loop over one list visits its nodes and unlinks the
chosen ones. -/
theorem removing_spec (rm : Ptr → Bool) {P : HashMem → List (List Ptr) → Prop}
    {inner : HashMem → BitVec 32 → Outcome (HashMem × List Ptr)}
    (hP : ∀ m B, P m B → Buckets m B)
    (hinner : ∀ m B' i l, P m B' → B'[i]? = some l → l ∈ B → i < 2 ^ 32 →
      ∃ m', inner m (BitVec.ofNat 32 i) = .ok (m', l) ∧ P m' (B'.set i (kept rm l)))
    (h : P m B) (hf : B.length < fuel) :
    ∃ m', forLists fuel inner m = .ok (m', B.flatten) ∧ P m' (B.map (kept rm)) := by
  have hlt : B.length < 2 ^ 32 := (hP _ _ h).nlist ▸ m.hash.nlist.isLt
  rw [← doneBuckets_all]
  refine forLists_spec B (fun i m => P m (doneBuckets rm B i)) inner
    (fun i m hm => ?_) (fun i m hm hi => ?_) h hf
  · rw [(hP _ _ hm).nlist, doneBuckets_length]
  · obtain ⟨hget, hset⟩ := doneBuckets_next rm hi
    rw [← hset]
    exact hinner m _ i B[i] hm hget (List.getElem_mem hi) (hi.trans hlt)

/-! ## Removal by key and by slot -/

/-- The body `if (…) m_hash_remove (hash, key of node, ops)`. -/
def removeKey (fuel : ℕ) (ops : MHashOps K) (rm : Ptr → Bool) (m : HashMem) (node : Ptr) :
    Outcome HashMem :=
  if rm node then do
    let (m, _) ← mHashRemove fuel m (ops.getKey node) ops
    pure m
  else pure m

/-- The body `if (…) m_hash_remove_from_prev (hash, pnode)`. -/
def removePrev (rm : Ptr → Bool) (m : HashMem) (node : Ptr) (pnode : HashSlot) :
    Outcome HashMem :=
  if rm node then do
    let (m, _) ← mHashRemoveFromPrev m pnode
    pure m
  else pure m

/-- INTERNAL: `m_hash_remove_from_prev` unlinks the current node.
SOURCE: m_hash.h:440-457 -/
theorem unlinks_removePrev (rm : Ptr → Bool) : Unlinks Buckets rm (removePrev rm) := by
  refine ⟨fun m B h => h, fun m B i l₁ a l₂ h hB => ?_⟩
  rw [removePrev]
  cases hrm : rm a with
  | false =>
    obtain ⟨hi, hget⟩ := List.getElem?_eq_some_iff.mp hB
    refine ⟨m, rfl, ?_⟩
    have hself : B.set i (l₁ ++ a :: l₂) = B := by rw [← hget, List.set_getElem_self]
    exact hself.symm ▸ h
  | true =>
    obtain ⟨m', e, h', -⟩ := removeFromPrev_spec h hB
    refine ⟨m', ?_, h'⟩
    rw [if_pos rfl, e]
    rfl

/-- INTERNAL: `m_hash_remove` of the key of the current node unlinks that node, since no other
node has its key.
SOURCE: m_hash.h:406-433 -/
theorem unlinks_removeKey (hl : LawfulHash ops.kv ops.equal) (hf : S.length < fuel) :
    Unlinks (fun m B => ∃ S', HashInv ops m S' B ∧ S'.length ≤ S.length) rm
      fun m node _ => removeKey fuel ops rm m node := by
  refine ⟨fun m B h => h.choose_spec.1.buckets, fun m B i l₁ a l₂ h hB => ?_⟩
  obtain ⟨S', h, hlen⟩ := h
  rw [removeKey]
  cases hrm : rm a with
  | false =>
    obtain ⟨hi, hget⟩ := List.getElem?_eq_some_iff.mp hB
    refine ⟨m, rfl, S', ?_, hlen⟩
    have hself : B.set i (l₁ ++ a :: l₂) = B := by rw [← hget, List.set_getElem_self]
    exact hself.symm ▸ h
  | true =>
    have haS : a ∈ S' := h.perm.mem_iff.mp (mem_flatten_of_get hB (by simp))
    have hfind : lookupIn ops m B (ops.getKey a) = some a :=
      (h.lookupIn_iff hl _ a).mpr ⟨haS, hl.refl _⟩
    rcases remove_spec ops (ops.getKey a) h.buckets (h.length_lt h.bound)
      (h.length_lt (lt_of_le_of_lt hlen hf)) with ⟨hnone, -⟩ | ⟨k₁, b, k₂, m', hB', hb, e, h', hn⟩
    · rw [hfind] at hnone
      cases hnone
    · obtain rfl : a = b := Option.some.inj (hfind.symm.trans hb)
      -- the walk stops at the same place of the same list
      obtain rfl := bucket_unique (a := a) h.buckets.nodup hB hB' (by simp) (by simp)
      have hnd := nodup_of_get h.buckets hB
      have hsame := Option.some.inj (hB.symm.trans hB')
      rw [List.nodup_append, List.nodup_cons] at hnd
      have hnd' := nodup_of_get h.buckets hB'
      rw [List.nodup_append, List.nodup_cons] at hnd'
      obtain ⟨rfl, -, rfl⟩ := (List.append_cons_inj_of_notMem
        (fun hm => hnd.2.2 a hm a (by simp) rfl) hnd.2.1.1).mp hsame
      refine ⟨m', ?_, eraseKey ops (ops.getKey a) S', h.unlink hl hB hfind h' hn,
        (List.length_filter_le _ _).trans hlen⟩
      rw [if_pos rfl, e]
      rfl

/-- INTERNAL: the table of the nodes that stay. -/
theorem HashInv.kept (h : HashInv ops m S B) (hb : Buckets m' (B.map (kept rm))) :
    HashInv ops m' (S.filter fun p => !rm p) (B.map (kept rm)) ∧
      m'.hash.size.toNat + (S.filter rm).length = m.hash.size.toNat := by
  have hflat : (B.map (Analysis.kept rm)).flatten = B.flatten.filter fun p => !rm p :=
    List.filter_flatten.symm
  have hperm := h.perm.filter fun p => !rm p
  have hnl : m'.hash.nlist = m.hash.nlist := by
    apply BitVec.eq_of_toNat_eq
    rw [hb.nlist, h.buckets.nlist, List.length_map]
  have hle : (S.filter fun p => !rm p).length ≤ S.length := List.length_filter_le _ _
  refine ⟨⟨hb, hflat ▸ hperm, ?_, h.keys.sublist List.filter_sublist, hle.trans_lt h.bound⟩, ?_⟩
  · intro i l hl p hp
    obtain ⟨l', hl', rfl⟩ := List.mem_map.mp (List.mem_of_getElem? hl)
    rw [List.getElem?_map] at hl
    obtain ⟨l'', hget, hl''⟩ := Option.map_eq_some_iff.mp hl
    have hp' : p ∈ l'' := List.mem_of_mem_filter (hl'' ▸ hp)
    have hb : bucketOf m' = bucketOf m := by
      funext kv
      simp only [bucketOf, hnl]
    rw [hb]
    exact h.placed i l'' hget p hp'
  · have hsplit : (S.filter fun p => !rm p).length + (S.filter rm).length = S.length := by
      have := List.length_eq_length_filter_add (l := S) rm
      omega
    rw [hb.size, h.buckets.size, hflat, hperm.length_eq, h.perm.length_eq, BitVec.toNat_ofNat,
      BitVec.toNat_ofNat, Nat.mod_eq_of_lt h.bound, Nat.mod_eq_of_lt (hle.trans_lt h.bound)]
    exact hsplit

/-- **Hash traversal under removal.** For every well-formed table and every choice of nodes,
`m_hash_foreach_safe` with `m_hash_remove` of the current key and `m_hash_foreach_prev` with
`m_hash_remove_from_prev` of the current link visit every node that was present at the start
once; `size` drops by the number of the chosen nodes, and the table holds exactly the others,
each in its bucket.
SOURCE: m_hash.h:108-112, 136-140, 406-457 -/
theorem hash_removal_traversal (hl : LawfulHash ops.kv ops.equal) (h : HashInv ops m S B)
    (rm : Ptr → Bool) (hmap : ∀ p ∈ S, mapped p = true) (hf : S.length + B.length < fuel) :
    B.flatten.Perm S ∧ B.flatten.Nodup ∧
    (∃ m', mHashForeachSafe mapped fuel (removeKey fuel ops rm) m = .ok (m', B.flatten) ∧
      HashInv ops m' (S.filter fun p => !rm p) (B.map (kept rm)) ∧
      m'.hash.size.toNat + (S.filter rm).length = m.hash.size.toNat) ∧
    (∃ m', mHashForeachPrev mapped fuel (removePrev rm) m = .ok (m', B.flatten) ∧
      HashInv ops m' (S.filter fun p => !rm p) (B.map (kept rm)) ∧
      m'.hash.size.toNat + (S.filter rm).length = m.hash.size.toNat) := by
  have hS : S.length < fuel := by omega
  have hB : B.length < fuel := by omega
  have hone : ∀ l ∈ B, (∀ p ∈ l, mapped p = true) ∧ l.length < fuel := fun l hlB => by
    obtain ⟨i, hi, rfl⟩ := List.mem_iff_getElem.mp hlB
    have hget : B[i]? = some B[i] := List.getElem?_eq_getElem hi
    refine ⟨fun p hp => hmap p (h.perm.mem_iff.mp (mem_flatten_of_get hget hp)), ?_⟩
    exact (bucket_length_le hget).trans_lt (h.length_lt hS)
  refine ⟨h.perm, h.buckets.nodup, ?_, ?_⟩
  · have hu : Unlinks _ rm _ := unlinks_removeKey hl hS
    obtain ⟨m', e, hm'⟩ := removing_spec rm hu.buckets
      (fun m B' i l hP hB' hlB hi =>
        foreachSafeList_spec hu hP hB' (hone l hlB).1 hi (hone l hlB).2) ⟨S, h, le_rfl⟩ hB
    exact ⟨m', e, h.kept (hu.buckets _ _ hm')⟩
  · have hu := unlinks_removePrev rm
    obtain ⟨m', e, hm'⟩ := removing_spec rm hu.buckets
      (fun m B' i l hP hB' hlB hi =>
        foreachPrevList_spec hu hP hB' (hone l hlB).1 hi (hone l hlB).2) h.buckets hB
    exact ⟨m', e, h.kept hm'⟩

/-- INTERNAL: a table of one list with one node. -/
theorem buckets_singleton (hp : p ≠ NULL) :
    Buckets ⟨⟨[p], 1, 1⟩, fun _ => NULL⟩ [[p]] := by
  refine ⟨⟨rfl, fun i head l hl hB => ?_⟩, rfl, by simp, rfl⟩
  cases i with
  | zero =>
    obtain rfl := Option.some.inj hl
    obtain rfl := Option.some.inj hB
    exact ⟨rfl, hp, rfl⟩
  | succ i => cases hl

/-- Three lists: 48 before 24, then 16, then 8. -/
def threeLists : HashMem :=
  ⟨⟨[48, 16, 8], 4, 3⟩, fun p => if p = 48 then 24 else NULL⟩

/-- INTERNAL: the lists of this table. -/
theorem threeLists_buckets : Buckets threeLists [[48, 24], [16], [8]] := by
  refine ⟨⟨rfl, fun i head l hl hB => ?_⟩, rfl, by decide, rfl⟩
  match i with
  | 0 =>
    obtain rfl := Option.some.inj hl
    obtain rfl := Option.some.inj hB
    exact ⟨rfl, by decide, rfl, by decide, rfl⟩
  | 1 | 2 =>
    obtain rfl := Option.some.inj hl
    obtain rfl := Option.some.inj hB
    exact ⟨rfl, by decide, rfl⟩
  | i + 3 => cases hl

/-- Three lists of pointers. The body removes the second node of one list and the only one of
another. -/
theorem hash_removal_traversal_lists :
    ∃ m', mHashForeachSafe (fun _ => true) 8
        (removeKey 8 ⟨id, mPtrHashKvFunc, mPtrHashEqualFunc⟩ fun p => p == 24 || p == 16)
        threeLists = .ok (m', [48, 24, 16, 8]) ∧
      Buckets m' [[48], [], [8]] ∧ m'.hash.size.toNat + 2 = 4 := by
  have hinv : HashInv ⟨id, mPtrHashKvFunc, mPtrHashEqualFunc⟩ threeLists [48, 24, 16, 8]
      [[48, 24], [16], [8]] := by
    refine ⟨threeLists_buckets, List.Perm.refl _, fun i l hB p hp => ?_, ?_, by decide⟩
    · match i with
      | 0 | 1 | 2 =>
        obtain rfl := Option.some.inj hB
        simp only [List.mem_cons, List.not_mem_nil, or_false] at hp
        rcases hp with rfl | rfl <;> rfl
      | i + 3 => cases hB
    · simp [mPtrHashEqualFunc]
  obtain ⟨-, -, ⟨m', e, hm', hsize⟩, -⟩ := hash_removal_traversal ptrHash_lawful hinv
    (fun p => p == 24 || p == 16) (fun _ _ => rfl) (show 4 + 3 < 8 by decide)
  exact ⟨m', e, hm'.buckets, hsize⟩

end Ming.Analysis
