import Ming.Interface.HashBuckets

/-!
# The operations of m_hash.h on buckets

One specification for each function: what it returns with fuel enough, and the buckets the
memory holds afterwards. None of them asks where a node stands, so they also apply to a
table whose nodes were inserted under foreign hash values.
-/

set_option autoImplicit false

namespace Ming.Analysis

open Ming.Foundation Ming.Model Ming.Interface

variable {K : Type} {ops : MHashOps K} {m : HashMem} {B : List (List Ptr)} {key : K}

/-! ## Positions -/

/-- The bucket of a hash value. -/
def bucketOf (m : HashMem) (kv : BitVec 32) : ℕ := kv.toNat % m.hash.nlist.toNat

/-- INTERNAL: a remainder by a number that is not zero. -/
theorem umod_eq {a b : BitVec 32} (hb : b ≠ 0) :
    umod a b = .ok (a % b) ∧ (a % b).toNat = a.toNat % b.toNat :=
  ⟨if_neg hb, BitVec.toNat_umod⟩

/-- INTERNAL: a hash value names a list. -/
theorem bucketOf_lt (h : Buckets m B) (hn : m.hash.nlist ≠ 0) (kv : BitVec 32) :
    bucketOf m kv < B.length := by
  rw [← h.nlist]
  refine Nat.mod_lt _ (Nat.pos_of_ne_zero fun e => hn ?_)
  exact BitVec.eq_of_toNat_eq e

/-- INTERNAL: a table that is not empty has buckets. -/
theorem nlist_ne_zero (h : Buckets m B) (hs : m.hash.size ≠ 0) : m.hash.nlist ≠ 0 := by
  intro e
  have hB : B = [] := List.length_eq_zero_iff.mp (by rw [← h.nlist, e]; rfl)
  refine hs ?_
  rw [h.size, hB]
  rfl

/-- INTERNAL: a table of size zero has no nodes, unless the counter has wrapped. -/
theorem flatten_eq_nil (h : Buckets m B) (hlt : B.flatten.length < 2 ^ 32)
    (hs : m.hash.size = 0) : B.flatten = [] := by
  refine List.length_eq_zero_iff.mp ?_
  have e := congrArg BitVec.toNat (h.size.symm.trans hs)
  rw [BitVec.toNat_ofNat, Nat.mod_eq_of_lt hlt] at e
  exact e

/-- INTERNAL: the entry of the buffer for a hash value. -/
theorem load_bucket (h : Buckets m B) (hn : m.hash.nlist ≠ 0) (kv : BitVec 32) :
    ∃ pos head l, umod kv m.hash.nlist = .ok pos ∧ pos.toNat = bucketOf m kv ∧
      m.load (.list pos.toNat) = .ok head ∧ m.hash.lists[bucketOf m kv]? = some head ∧
      B[bucketOf m kv]? = some l ∧ Chain m.next NULL head l := by
  obtain ⟨e, hpos⟩ := umod_eq (a := kv) hn
  obtain ⟨head, l, hl, hB, hc⟩ := h.table.at_pos (bucketOf_lt h hn kv)
  refine ⟨_, head, l, e, hpos, ?_, hl, hB, hc⟩
  have hl' : m.hash.lists[(kv % m.hash.nlist).toNat]? = some head := by
    rw [hpos]
    exact hl
  simp only [HashMem.load, hl']

/-! ## Lookup -/

/-- The node of a list whose key is equal to `key`. -/
def findKey (ops : MHashOps K) (key : K) (l : List Ptr) : Option Ptr :=
  l.find? fun p => ops.equal key (ops.getKey p)

/-- INTERNAL: the walk of `m_hash_lookup_with_kv` along one chain.
SOURCE: m_hash.h:329-335 -/
theorem lookupLoop_eq {p : Ptr} {l : List Ptr} (h : Chain m.next NULL p l) {fuel : ℕ}
    (hf : l.length < fuel) :
    mHashLookupLoop m key ops fuel p = .ok ((findKey ops key l).getD NULL) := by
  induction fuel generalizing p l with
  | zero => omega
  | succ fuel ih =>
    cases l with
    | nil =>
      obtain rfl : p = NULL := h
      simp [mHashLookupLoop, findKey]
    | cons a l =>
      obtain ⟨rfl, hp, hc⟩ := h
      simp only [mHashLookupLoop, hp, if_false, findKey, List.find?_cons]
      cases hk : ops.equal key (ops.getKey p) with
      | true => simp
      | false =>
        simp only [Bool.false_eq_true, if_false]
        exact ih hc (by simpa using hf)

/-- What `m_hash_lookup` finds in the buckets `B`. -/
def lookupIn (ops : MHashOps K) (m : HashMem) (B : List (List Ptr)) (key : K) : Option Ptr :=
  (B[bucketOf m (ops.kv key)]?).bind (findKey ops key)

/-- INTERNAL: nothing is found in an empty table. -/
theorem lookupIn_of_empty (h : Buckets m B) (hlt : B.flatten.length < 2 ^ 32)
    (hs : m.hash.size = 0) : lookupIn ops m B key = none := by
  unfold lookupIn
  cases hB : B[bucketOf m (ops.kv key)]? with
  | none => rfl
  | some l =>
    have hl : l = [] := List.eq_nil_iff_forall_not_mem.mpr fun p hp => by
      have := mem_flatten_of_get hB hp
      rw [flatten_eq_nil h hlt hs] at this
      simp at this
    simp [hl, findKey]

/-- INTERNAL: a list has at most all nodes. -/
theorem bucket_length_le {i : ℕ} {l : List Ptr} (hB : B[i]? = some l) :
    l.length ≤ B.flatten.length := by
  obtain ⟨rest, hperm, -⟩ := flatten_perm_of_get hB
  rw [hperm.length_eq, List.length_append]
  omega

/-- INTERNAL: **`m_hash_lookup_with_kv`** returns the first node with the key in the bucket
of the key, and the hash value.
SOURCE: m_hash.h:312-339 -/
theorem lookupWithKv_eq (h : Buckets m B) (hlt : B.flatten.length < 2 ^ 32) {fuel : ℕ}
    (hf : B.flatten.length < fuel) :
    mHashLookupWithKv fuel m key ops = .ok ((lookupIn ops m B key).getD NULL, ops.kv key) := by
  unfold mHashLookupWithKv
  by_cases hs : m.hash.size = 0
  · simp [hs, lookupIn_of_empty h hlt hs]
  · obtain ⟨pos, head, l, e1, -, e2, -, hB, hc⟩ := load_bucket h (nlist_ne_zero h hs) (ops.kv key)
    have hlen : l.length < fuel := lt_of_le_of_lt (bucket_length_le hB) hf
    have hin : lookupIn ops m B key = findKey ops key l := by simp [lookupIn, hB]
    rw [if_pos hs, e1, Outcome.ok_bind, e2, Outcome.ok_bind, lookupLoop_eq hc hlen, hin]
    rfl

/-- INTERNAL: **`m_hash_lookup`**.
SOURCE: m_hash.h:391-395 -/
theorem lookup_eq (h : Buckets m B) (hlt : B.flatten.length < 2 ^ 32) {fuel : ℕ}
    (hf : B.flatten.length < fuel) :
    mHashLookup fuel m key ops = .ok ((lookupIn ops m B key).getD NULL) := by
  unfold mHashLookup
  rw [lookupWithKv_eq h hlt hf]
  rfl

/-- The slot that leads to what follows the nodes of `l`. -/
def slotAfter (slot : HashSlot) : List Ptr → HashSlot
  | [] => slot
  | a :: l => slotAfter (.next a) l

/-- INTERNAL: the slot behind a last node is its link. -/
theorem slotAfter_append_singleton (slot : HashSlot) (l : List Ptr) (a : Ptr) :
    slotAfter slot (l ++ [a]) = .next a := by
  induction l generalizing slot with
  | nil => rfl
  | cons b l ih => exact ih _

/-- The result of a walk that finds `none` or a node behind the nodes before it. -/
def walkResult (slot : HashSlot) (P : Ptr → Bool) : List Ptr → Ptr × Option HashSlot
  | [] => (NULL, none)
  | a :: l => if P a then (a, some slot) else walkResult (.next a) P l

/-- INTERNAL: a walk fails when no node qualifies, and otherwise stops at the first. -/
theorem walkResult_cases (slot : HashSlot) (P : Ptr → Bool) (l : List Ptr) :
    (l.find? P = none ∧ walkResult slot P l = (NULL, none)) ∨
      ∃ l₁ a l₂, l = l₁ ++ a :: l₂ ∧ l.find? P = some a ∧
        walkResult slot P l = (a, some (slotAfter slot l₁)) := by
  induction l generalizing slot with
  | nil => exact Or.inl ⟨rfl, rfl⟩
  | cons a l ih =>
    cases hP : P a with
    | true => exact Or.inr ⟨[], a, l, rfl, by simp [hP], by simp [walkResult, hP, slotAfter]⟩
    | false =>
      rcases ih (.next a) with ⟨hnone, e⟩ | ⟨l₁, b, l₂, rfl, hfind, e⟩
      · exact Or.inl ⟨by simp [hP, hnone], by simp [walkResult, hP, e]⟩
      · refine Or.inr ⟨a :: l₁, b, l₂, rfl, ?_, ?_⟩
        · rw [List.find?_cons, hP]
          exact hfind
        · simp [walkResult, hP, e, slotAfter]

/-- INTERNAL: the walk of `m_hash_lookup_with_prev` along one chain.
SOURCE: m_hash.h:368-378 -/
theorem lookupPrevLoop_eq {slot : HashSlot} {p : Ptr} {l : List Ptr}
    (h : Chain m.next NULL p l) {fuel : ℕ} (hf : l.length < fuel) :
    mHashLookupPrevLoop m key ops fuel slot p =
      .ok (walkResult slot (fun q => ops.equal key (ops.getKey q)) l) := by
  induction fuel generalizing slot p l with
  | zero => omega
  | succ fuel ih =>
    cases l with
    | nil =>
      obtain rfl : p = NULL := h
      simp [mHashLookupPrevLoop, walkResult]
    | cons a l =>
      obtain ⟨rfl, hp, hc⟩ := h
      simp only [mHashLookupPrevLoop, hp, if_false, walkResult]
      split_ifs with hk
      · rfl
      · exact ih hc (by simpa using hf)

/-- INTERNAL: **`m_hash_lookup_with_prev`** returns the first node with the key in the bucket
of the key, and the slot that holds it.
SOURCE: m_hash.h:351-382 -/
theorem lookupWithPrev_of_size (ops : MHashOps K) (key : K) (h : Buckets m B)
    (hs : m.hash.size ≠ 0) {fuel : ℕ} (hf : B.flatten.length < fuel) :
    (lookupIn ops m B key = none ∧ mHashLookupWithPrev fuel m key ops = .ok (NULL, none)) ∨
      ∃ l₁ a l₂, B[bucketOf m (ops.kv key)]? = some (l₁ ++ a :: l₂) ∧
        lookupIn ops m B key = some a ∧
        mHashLookupWithPrev fuel m key ops =
          .ok (a, some (slotAfter (.list (bucketOf m (ops.kv key))) l₁)) := by
  obtain ⟨pos, head, l, e1, hpos, e2, -, hB, hc⟩ :=
    load_bucket h (nlist_ne_zero h hs) (ops.kv key)
  have hlen : l.length < fuel := lt_of_le_of_lt (bucket_length_le hB) hf
  have hin : lookupIn ops m B key = findKey ops key l := by simp [lookupIn, hB]
  unfold mHashLookupWithPrev
  rw [if_pos hs, e1, Outcome.ok_bind]
  dsimp only
  rw [e2, Outcome.ok_bind, lookupPrevLoop_eq hc hlen, hin, hpos]
  rcases walkResult_cases (.list (bucketOf m (ops.kv key)))
    (fun q => ops.equal key (ops.getKey q)) l with ⟨hnone, e⟩ | ⟨l₁, a, l₂, rfl, hfind, e⟩
  · exact Or.inl ⟨hnone, by rw [e]⟩
  · exact Or.inr ⟨l₁, a, l₂, hB, hfind, by rw [e]⟩

/-- INTERNAL: the same for a table whose counter has not wrapped. -/
theorem lookupWithPrev_spec (ops : MHashOps K) (key : K) (h : Buckets m B)
    (hlt : B.flatten.length < 2 ^ 32) {fuel : ℕ} (hf : B.flatten.length < fuel) :
    (lookupIn ops m B key = none ∧ mHashLookupWithPrev fuel m key ops = .ok (NULL, none)) ∨
      ∃ l₁ a l₂, B[bucketOf m (ops.kv key)]? = some (l₁ ++ a :: l₂) ∧
        lookupIn ops m B key = some a ∧
        mHashLookupWithPrev fuel m key ops =
          .ok (a, some (slotAfter (.list (bucketOf m (ops.kv key))) l₁)) := by
  by_cases hs : m.hash.size = 0
  · refine Or.inl ⟨lookupIn_of_empty h hlt hs, ?_⟩
    unfold mHashLookupWithPrev
    simp [hs]
  · exact lookupWithPrev_of_size ops key h hs hf

/-- INTERNAL: whatever the counter says, a key that no node of its bucket has is not found.
SOURCE: m_hash.h:312-382 -/
theorem lookups_of_absent (h : Buckets m B)
    (hnone : ∀ l, B[bucketOf m (ops.kv key)]? = some l →
      ∀ p ∈ l, ops.equal key (ops.getKey p) = false)
    {fuel : ℕ} (hf : B.flatten.length < fuel) :
    mHashLookupWithKv fuel m key ops = .ok (NULL, ops.kv key) ∧
      mHashLookupWithPrev fuel m key ops = .ok (NULL, none) := by
  unfold mHashLookupWithKv mHashLookupWithPrev
  by_cases hs : m.hash.size = 0
  · simp [hs]
  · obtain ⟨pos, head, l, e1, -, e2, -, hB, hc⟩ := load_bucket h (nlist_ne_zero h hs) (ops.kv key)
    have hlen : l.length < fuel := lt_of_le_of_lt (bucket_length_le hB) hf
    have hfind : findKey ops key l = none :=
      List.find?_eq_none.mpr fun p hp => by simp [hnone l hB p hp]
    rw [if_pos hs, if_pos hs, e1, Outcome.ok_bind, Outcome.ok_bind]
    dsimp only
    rw [e2, Outcome.ok_bind, Outcome.ok_bind, lookupLoop_eq hc hlen, lookupPrevLoop_eq hc hlen,
      hfind]
    rcases walkResult_cases (.list pos.toNat) (fun q => ops.equal key (ops.getKey q)) l with
      ⟨-, e⟩ | ⟨_, a, _, -, hsome, -⟩
    · exact ⟨rfl, by rw [e]⟩
    · rw [show List.find? _ l = none from hfind] at hsome
      simp at hsome

/-! ## Removal -/

/-- INTERNAL: the slot behind the nodes before `a` holds `a`. -/
theorem load_slotAfter {slot : HashSlot} {p a : Ptr} {l₁ l₂ : List Ptr}
    (hl : m.load slot = .ok p) (hc : Chain m.next NULL p (l₁ ++ a :: l₂)) :
    m.load (slotAfter slot l₁) = .ok a := by
  induction l₁ generalizing slot p with
  | nil =>
    obtain ⟨rfl, -, -⟩ := hc
    exact hl
  | cons b l₁ ih => exact ih rfl hc.2.2

/-- INTERNAL: **`m_hash_remove_from_prev`** unlinks the node in the slot.
SOURCE: m_hash.h:440-457 -/
theorem removeFromPrev_spec (h : Buckets m B) {i : ℕ} {a : Ptr} {l₁ l₂ : List Ptr}
    (hB : B[i]? = some (l₁ ++ a :: l₂)) :
    ∃ m', mHashRemoveFromPrev m (slotAfter (.list i) l₁) = .ok (m', a) ∧
      Buckets m' (B.set i (l₁ ++ l₂)) ∧ m'.hash.nlist = m.hash.nlist := by
  have hi : i < B.length := (List.getElem?_eq_some_iff.mp hB).1
  obtain ⟨head, l, hl, hB', hc⟩ := h.table.at_pos hi
  rw [hB, Option.some.injEq] at hB'
  subst hB'
  have hload : m.load (.list i) = .ok head := by simp only [HashMem.load, hl]
  have ha : a ≠ NULL := hc.ne_null (by simp)
  obtain ⟨rest, hperm, hset⟩ := flatten_perm_of_get hB
  have hndl : (l₁ ++ a :: l₂).Nodup := (List.nodup_append.mp (hperm.nodup_iff.mp h.nodup)).1
  -- the store into the slot
  obtain ⟨m₁, e₁, htable, hsize, hnlist⟩ : ∃ m₁,
      m.store (slotAfter (.list i) l₁) (m.next a) = .ok m₁ ∧
      Table m₁.next m₁.hash.lists (B.set i (l₁ ++ l₂)) ∧ m₁.hash.size = m.hash.size ∧
      m₁.hash.nlist = m.hash.nlist := by
    rcases List.eq_nil_or_concat l₁ with rfl | ⟨l₁', b, rfl⟩
    · refine ⟨_, if_pos (h.table.length ▸ hi), ?_, rfl, rfl⟩
      exact h.table.set hB h.nodup hc.tail fun _ _ _ => rfl
    · rw [List.concat_eq_append, slotAfter_append_singleton]
      rw [List.concat_eq_append, List.append_assoc] at hndl hc hB
      refine ⟨_, rfl, ?_, rfl, rfl⟩
      have htab : Table (Function.update m.next b (m.next a)) (m.hash.lists.set i head)
          (B.set i (l₁' ++ b :: l₂)) :=
        h.table.set hB h.nodup (Chain.unlink hndl hc) fun p _ hp =>
          Function.update_of_ne (by rintro rfl; exact hp (by simp)) _ _
      obtain ⟨hi', rfl⟩ := List.getElem?_eq_some_iff.mp hl
      rw [List.set_getElem_self] at htab
      rw [List.append_assoc]
      exact htab
  have hflat : (B.set i (l₁ ++ l₂)).flatten.length + 1 = B.flatten.length := by
    rw [(hset _).length_eq, hperm.length_eq]
    simp only [List.length_append, List.length_cons]
    omega
  refine ⟨m₁.setSize (m₁.hash.size - 1), ?_, ⟨htable, ?_, ?_, ?_⟩, hnlist⟩
  · unfold mHashRemoveFromPrev
    rw [load_slotAfter hload hc, Outcome.ok_bind, if_neg ha, e₁]
    rfl
  · rw [List.length_set, ← h.nlist, ← hnlist]
    rfl
  · refine (hset _).nodup_iff.mpr ?_
    have := hperm.nodup_iff.mp h.nodup
    exact this.sublist (((List.sublist_cons_self a l₂).append_left l₁).append_right rest)
  · have e : (m₁.setSize (m₁.hash.size - 1)).hash.size = m.hash.size - 1 := by
      rw [← hsize]
      rfl
    rw [e, h.size, ← hflat, BitVec.ofNat_add]
    exact BitVec.add_sub_cancel _ _

/-- INTERNAL: the walk of `m_hash_remove` is that of `m_hash_lookup_with_prev` followed by
the unlinking of `m_hash_remove_from_prev`. -/
theorem removeLoop_eq {slot : HashSlot} {p : Ptr} {l : List Ptr} (hl : m.load slot = .ok p)
    (h : Chain m.next NULL p l) {fuel : ℕ} (hf : l.length < fuel) :
    mHashRemoveLoop m key ops fuel slot =
      match (walkResult slot (fun q => ops.equal key (ops.getKey q)) l).2 with
      | none => .ok (m, NULL)
      | some prev => mHashRemoveFromPrev m prev := by
  induction fuel generalizing slot p l with
  | zero => omega
  | succ fuel ih =>
    simp only [mHashRemoveLoop, hl, Outcome.ok_bind]
    cases l with
    | nil =>
      obtain rfl : p = NULL := h
      simp [walkResult]
    | cons a l =>
      obtain ⟨rfl, hp, hc⟩ := h
      simp only [hp, if_false, walkResult]
      split_ifs with hk
      · dsimp only
        unfold mHashRemoveFromPrev
        rw [hl, Outcome.ok_bind, if_neg hp]
      · exact ih rfl hc (by simpa using hf)

/-- INTERNAL: **`m_hash_remove`** unlinks the node that `m_hash_lookup` finds.
SOURCE: m_hash.h:406-433 -/
theorem remove_spec (ops : MHashOps K) (key : K) (h : Buckets m B)
    (hlt : B.flatten.length < 2 ^ 32) {fuel : ℕ} (hf : B.flatten.length < fuel) :
    (lookupIn ops m B key = none ∧ mHashRemove fuel m key ops = .ok (m, NULL)) ∨
      ∃ l₁ a l₂ m', B[bucketOf m (ops.kv key)]? = some (l₁ ++ a :: l₂) ∧
        lookupIn ops m B key = some a ∧ mHashRemove fuel m key ops = .ok (m', a) ∧
        Buckets m' (B.set (bucketOf m (ops.kv key)) (l₁ ++ l₂)) ∧
        m'.hash.nlist = m.hash.nlist := by
  unfold mHashRemove
  by_cases hs : m.hash.size = 0
  · exact Or.inl ⟨lookupIn_of_empty h hlt hs, by simp [hs]⟩
  · obtain ⟨pos, head, l, e1, hpos, e2, -, hB, hc⟩ :=
      load_bucket h (nlist_ne_zero h hs) (ops.kv key)
    have hlen : l.length < fuel := lt_of_le_of_lt (bucket_length_le hB) hf
    have hin : lookupIn ops m B key = findKey ops key l := by simp [lookupIn, hB]
    rw [if_pos hs, e1, Outcome.ok_bind, removeLoop_eq e2 hc hlen, hin, hpos]
    rcases walkResult_cases (.list (bucketOf m (ops.kv key)))
      (fun q => ops.equal key (ops.getKey q)) l with ⟨hnone, e⟩ | ⟨l₁, a, l₂, rfl, hfind, e⟩
    · exact Or.inl ⟨hnone, by rw [e]⟩
    · obtain ⟨m', e', hB', hn'⟩ := removeFromPrev_spec h hB
      exact Or.inr ⟨l₁, a, l₂, m', hB, hfind, by rw [e]; exact e', hB', hn'⟩

/-! ## Insertion -/

/-- INTERNAL: **`m_hash_insert_with_kv`** links a new node in front of the bucket of the
given hash value.
SOURCE: m_hash.h:480-496 -/
theorem insertWithKv_spec (h : Buckets m B) {node : Ptr} (hn : node ≠ NULL)
    (hfresh : node ∉ B.flatten) (hnl : m.hash.nlist ≠ 0) (kv : BitVec 32) :
    ∃ m' l, mHashInsertWithKv m node kv = .ok m' ∧ B[bucketOf m kv]? = some l ∧
      Buckets m' (B.set (bucketOf m kv) (node :: l)) ∧ m'.hash.nlist = m.hash.nlist := by
  obtain ⟨pos, head, l, e1, hpos, e2, hl, hB, -⟩ := load_bucket h hnl kv
  obtain ⟨rest, hperm, hset⟩ := flatten_perm_of_get hB
  have htab := h.table.push hn hfresh h.nodup hl hB
  have hlt' : bucketOf m kv < m.hash.lists.length := by
    rw [h.table.length]
    exact bucketOf_lt h hnl kv
  refine ⟨⟨⟨m.hash.lists.set (bucketOf m kv) node, m.hash.size + 1, m.hash.nlist⟩,
    Function.update m.next node head⟩, l, ?_, hB, ⟨htab, ?_, ?_, ?_⟩, rfl⟩
  · unfold mHashInsertWithKv
    rw [if_neg hn, if_neg hnl, e1, Outcome.ok_bind, e2, Outcome.ok_bind, hpos]
    simp only [HashMem.store, Outcome.ok_bind]
    rw [if_pos hlt']
    rfl
  · rw [List.length_set]
    exact h.nlist
  · rw [(hset _).nodup_iff, List.cons_append, List.nodup_cons, ← hperm.mem_iff,
      ← hperm.nodup_iff]
    exact ⟨hfresh, h.nodup⟩
  · rw [(hset _).length_eq, List.cons_append, List.length_cons, ← hperm.length_eq]
    show m.hash.size + 1 = _
    rw [h.size, BitVec.ofNat_add]
    rfl

/-! ## Resizing -/

/-- INTERNAL: moving the nodes of one old chain, none of which is in the new buffer yet.
SOURCE: m_hash.h:555-560 -/
theorem resizeChain_spec {nsize : BitVec 32} (hns : nsize ≠ 0) {next : Ptr → Ptr} {p : Ptr}
    {nbuf l : List Ptr} {NB : List (List Ptr)} (hc : Chain next NULL p l)
    (ht : Table next nbuf NB) (hlen : NB.length = nsize.toNat) (hnd : (l ++ NB.flatten).Nodup)
    (hpl : PlacedBy (fun q => (ops.kv (ops.getKey q)).toNat % nsize.toNat) NB)
    {fuel : ℕ} (hf : l.length < fuel) :
    ∃ nbuf' next' NB', mHashResizeChain ops nsize fuel p (nbuf, next) = .ok (nbuf', next') ∧
      Table next' nbuf' NB' ∧ NB'.length = nsize.toNat ∧ NB'.flatten.Perm (l ++ NB.flatten) ∧
      PlacedBy (fun q => (ops.kv (ops.getKey q)).toNat % nsize.toNat) NB' ∧
      ∀ q, q ∉ l → next' q = next q := by
  induction fuel generalizing p l nbuf next NB with
  | zero => omega
  | succ fuel ih =>
    cases l with
    | nil =>
      obtain rfl : p = NULL := hc
      exact ⟨nbuf, next, NB, by simp [mHashResizeChain], ht, hlen, by simp, hpl, fun _ _ => rfl⟩
    | cons a l =>
      obtain ⟨rfl, hp, hc⟩ := hc
      obtain ⟨e, hi⟩ := umod_eq (a := ops.kv (ops.getKey p)) hns
      have hlt : (ops.kv (ops.getKey p) % nsize).toNat < NB.length := by
        rw [hi, hlen]
        exact Nat.mod_lt _ (Nat.pos_of_ne_zero fun e0 => hns (BitVec.eq_of_toNat_eq e0))
      obtain ⟨head, b, hl, hB, -⟩ := ht.at_pos hlt
      have hnd' := hnd
      simp only [List.cons_append, List.nodup_cons, List.mem_append, not_or] at hnd'
      obtain ⟨⟨hpl', hpB⟩, hrest⟩ := hnd'
      obtain ⟨rest, hperm, hset⟩ := flatten_perm_of_get hB
      have hpush : (NB.set (ops.kv (ops.getKey p) % nsize).toNat (p :: b)).flatten.Perm
          (p :: NB.flatten) := (hset _).trans (hperm.symm.cons p)
      have htab := ht.push hp hpB (List.nodup_append.mp hrest).2.1 hl hB
      have hlnd : (l ++ (NB.set (ops.kv (ops.getKey p) % nsize).toNat (p :: b)).flatten).Nodup := by
        rw [(hpush.append_left l).nodup_iff, List.perm_middle.nodup_iff, List.nodup_cons]
        exact ⟨by simp [hpl', hpB], hrest⟩
      obtain ⟨nbuf', next', NB', e', ht', hlen', hperm', hpl'', hframe⟩ :=
        ih (hc.update_of_notMem hpl') htab (by simpa using hlen) hlnd
          (hpl.set (by
            intro q hq
            rcases List.mem_cons.mp hq with rfl | hq
            · exact hi.symm
            · exact hpl _ b hB q hq)) (by simpa using hf)
      refine ⟨nbuf', next', NB', ?_, ht', hlen', ?_, hpl'', fun q hq => ?_⟩
      · simp only [mHashResizeChain, hp, if_false, e, Outcome.ok_bind, hl]
        exact e'
      · exact hperm'.trans ((hpush.append_left l).trans List.perm_middle)
      · simp only [List.mem_cons, not_or] at hq
        rw [hframe q hq.2, Function.update_of_ne hq.1]

/-- INTERNAL: the outer loop after the first `k` lists.
SOURCE: m_hash.h:555 -/
theorem resizeLoop_spec (ops : MHashOps K) (h : Buckets m B) {nsize : BitVec 32}
    (hns : nsize ≠ 0) {fuel : ℕ}
    (hf : B.flatten.length < fuel) (k : ℕ) (hk : k ≤ B.length) :
    ∃ nbuf next NB, (List.range k).foldlM (fun st pos => do
        let node ← m.load (.list pos)
        mHashResizeChain ops nsize fuel node st)
        (List.replicate nsize.toNat NULL, m.next) = .ok (nbuf, next) ∧
      Table next nbuf NB ∧ NB.length = nsize.toNat ∧
      NB.flatten.Perm (B.take k).flatten ∧
      PlacedBy (fun q => (ops.kv (ops.getKey q)).toNat % nsize.toNat) NB ∧
      ∀ q, q ∉ (B.take k).flatten → next q = m.next q := by
  induction k with
  | zero =>
    refine ⟨_, m.next, _, rfl, Table.replicate _, by simp, by simp, ?_, fun _ _ => rfl⟩
    intro i l hl p hp
    rw [List.getElem?_replicate] at hl
    split_ifs at hl
    cases hl
    simp at hp
  | succ k ih =>
    obtain ⟨nbuf, next, NB, e, ht, hlen, hperm, hpl, hframe⟩ := ih (by omega)
    obtain ⟨head, l, hl, hB, hc⟩ := h.table.at_pos (show k < B.length by omega)
    have htake : (B.take (k + 1)).flatten = (B.take k).flatten ++ l := by
      rw [List.take_add_one, hB]
      simp
    -- the nodes of list `k` have not been touched yet
    have hndk : ((B.take k).flatten ++ l).Nodup := by
      have hnd := h.nodup
      rw [← List.take_append_drop (k + 1) B, List.flatten_append, htake] at hnd
      exact (List.nodup_append.mp hnd).1
    obtain ⟨-, -, hdisj⟩ := List.nodup_append.mp hndk
    have hc' : Chain next NULL head l := hc.congr fun p hp =>
      hframe p fun hpt => hdisj p hpt p hp rfl
    have hnd : (l ++ NB.flatten).Nodup :=
      (((hperm.append_left l).trans List.perm_append_comm).nodup_iff).mpr hndk
    obtain ⟨nbuf', next', NB', e', ht', hlen', hperm', hpl', hframe'⟩ :=
      resizeChain_spec hns hc' ht hlen hnd hpl (lt_of_le_of_lt (bucket_length_le hB) hf)
    refine ⟨nbuf', next', NB', ?_, ht', hlen', ?_, hpl', fun q hq => ?_⟩
    · rw [List.range_succ, List.foldlM_append, e, Outcome.ok_bind]
      simp only [List.foldlM_cons, List.foldlM_nil, HashMem.load, hl, Outcome.ok_bind, e',
        Outcome.pure_eq_ok]
    · rw [htake]
      exact hperm'.trans ((hperm.append_left l).trans List.perm_append_comm)
    · rw [htake, List.mem_append, not_or] at hq
      rw [hframe' q hq.2, hframe q hq.1]

/-- INTERNAL: **`m_hash_resize`** either leaves the table alone or moves every node to the
bucket of its own key in a larger buffer, which then has at least nine buckets.
SOURCE: m_hash.h:537-571 -/
theorem resize_spec (ops : MHashOps K) (h : Buckets m B) {fuel : ℕ}
    (hf : B.flatten.length < fuel) (alloc : Bool) :
    ∃ m' r, mHashResize fuel m ops alloc = .ok (m', r) ∧
      ((m' = m ∧ (r = .ok → m.hash.nlist ≠ 0)) ∨ r = .ok ∧ m'.hash.nlist ≠ 0 ∧ ∃ B', Buckets m' B' ∧
        B'.flatten.Perm B.flatten ∧
        PlacedBy (fun q => bucketOf m' (ops.kv (ops.getKey q))) B') ∧
      (alloc = true → r = .ok) := by
  unfold mHashResize
  by_cases hle : m.hash.nlist * 3 ≤ m.hash.size
  · rw [if_pos hle]
    cases alloc with
    | false => exact ⟨m, .errNoMem, rfl, Or.inl ⟨rfl, nofun⟩, nofun⟩
    | true =>
      set nsize : BitVec 32 := if m.hash.size > 9 then m.hash.size else 9 with hnsize
      have hns : nsize ≠ 0 := by
        rw [hnsize]
        split_ifs with h9
        · rintro e
          rw [e] at h9
          exact absurd h9 (by decide)
        · decide
      obtain ⟨nbuf, next, NB, e, ht, hlen, hperm, hpl, -⟩ :=
        resizeLoop_spec ops h hns hf B.length le_rfl
      rw [List.take_length] at hperm
      refine ⟨⟨⟨nbuf, m.hash.size, nsize⟩, next⟩, .ok, ?_, Or.inr ⟨rfl, hns, NB,
        ⟨ht, hlen.symm, hperm.nodup_iff.mpr h.nodup, ?_⟩, hperm, hpl⟩, fun _ => rfl⟩
      · rw [if_neg (by decide)]
        simp only [h.nlist]
        rw [e]
        rfl
      · rw [hperm.length_eq]
        exact h.size
  · rw [if_neg hle]
    refine ⟨m, .ok, rfl, Or.inl ⟨rfl, fun _ e => hle ?_⟩, fun _ => rfl⟩
    rw [e]
    simp [BitVec.le_def]

end Ming.Analysis
