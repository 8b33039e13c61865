import Ming.Analysis.HashOperations

/-!
# The hash table is a finite map over whole runs

A run starts at `m_hash_init`; its steps are resizes whose allocation may fail, insertions
of nodes with absent keys, removals by key or by slot, and writes of the program to
anything that is not a node of the table. The content of the table is tracked as a list of
nodes by what the steps are meant to do, and the memory is shown to agree with it.
-/

set_option autoImplicit false

namespace Ming.Analysis

open Ming.Foundation Ming.Model Ming.Interface

variable {K : Type} {ops : MHashOps K} {m m' : HashMem} {S : List Ptr} {B : List (List Ptr)}
  {key : K}

/-! ## More fuel -/

/-- INTERNAL: more fuel, in the loop of a lookup.
SOURCE: m_hash.h:330-335 -/
theorem hashLookupLoop_approx (n : ℕ) (p : Ptr) :
    Outcome.Approx (mHashLookupLoop m key ops n p) (mHashLookupLoop m key ops (n + 1) p) := by
  induction n generalizing p with
  | zero => exact Outcome.Approx.outOfFuel _
  | succ n ih =>
    rw [mHashLookupLoop, mHashLookupLoop]
    exact .ite (.refl _) (.ite (.refl _) (ih _))

/-- INTERNAL: more fuel, in a lookup that returns the hash value. -/
theorem lookupWithKv_approx (n : ℕ) :
    Outcome.Approx (mHashLookupWithKv n m key ops) (mHashLookupWithKv (n + 1) m key ops) :=
  .ite (.bind (.refl _) fun _ => .bind (.refl _) fun _ =>
    .bind (hashLookupLoop_approx _ _) fun _ => .refl _) (.refl _)

/-- INTERNAL: more fuel, in a lookup. -/
theorem lookup_approx (n : ℕ) :
    Outcome.Approx (mHashLookup n m key ops) (mHashLookup (n + 1) m key ops) :=
  .bind (lookupWithKv_approx n) fun _ => .refl _

/-- INTERNAL: more fuel, in the loop of a lookup that returns the slot. -/
theorem lookupPrevLoop_approx (n : ℕ) (slot : HashSlot) (p : Ptr) :
    Outcome.Approx (mHashLookupPrevLoop m key ops n slot p)
      (mHashLookupPrevLoop m key ops (n + 1) slot p) := by
  induction n generalizing slot p with
  | zero => exact Outcome.Approx.outOfFuel _
  | succ n ih =>
    rw [mHashLookupPrevLoop, mHashLookupPrevLoop]
    exact .ite (.refl _) (.ite (.refl _) (.bind (.refl _) fun _ => ih _ _))

/-- INTERNAL: more fuel, in a lookup that returns the slot. -/
theorem lookupWithPrev_approx (n : ℕ) :
    Outcome.Approx (mHashLookupWithPrev n m key ops) (mHashLookupWithPrev (n + 1) m key ops) :=
  .ite (.bind (.refl _) fun _ => .bind (.refl _) fun _ => lookupPrevLoop_approx _ _ _) (.refl _)

/-- INTERNAL: more fuel, in the loop of a removal. -/
theorem removeLoop_approx (n : ℕ) (slot : HashSlot) :
    Outcome.Approx (mHashRemoveLoop m key ops n slot) (mHashRemoveLoop m key ops (n + 1) slot) := by
  induction n generalizing slot with
  | zero => exact Outcome.Approx.outOfFuel _
  | succ n ih =>
    rw [mHashRemoveLoop, mHashRemoveLoop]
    exact .bind (.refl _) fun _ => .ite (.refl _) (.ite (.refl _) (ih _))

/-- INTERNAL: more fuel, in a removal. -/
theorem hashRemove_approx (n : ℕ) :
    Outcome.Approx (mHashRemove n m key ops) (mHashRemove (n + 1) m key ops) :=
  .ite (.bind (.refl _) fun _ => removeLoop_approx _ _) (.refl _)

/-- INTERNAL: more fuel, in one list of a resize.
SOURCE: m_hash.h:555-560 -/
theorem resizeChain_approx (nsize : BitVec 32) (n : ℕ) (p : Ptr) (st : List Ptr × (Ptr → Ptr)) :
    Outcome.Approx (mHashResizeChain ops nsize n p st)
      (mHashResizeChain ops nsize (n + 1) p st) := by
  induction n generalizing p st with
  | zero => exact Outcome.Approx.outOfFuel _
  | succ n ih =>
    rw [mHashResizeChain, mHashResizeChain]
    refine .ite (.refl _) (.bind (.refl _) fun i => ?_)
    cases st.1[i.toNat]? with
    | none => exact .refl _
    | some head => exact ih _ _

/-- INTERNAL: more fuel, in a resize.
SOURCE: m_hash.h:537-570 -/
theorem hashResize_approx (alloc : Bool) (n : ℕ) :
    Outcome.Approx (mHashResize n m ops alloc) (mHashResize (n + 1) m ops alloc) :=
  .ite (.ite (.refl _) (.bind (.foldlM (fun _ _ => .bind (.refl _) fun _ =>
    resizeChain_approx _ _ _ _) _ _) fun _ => .refl _)) (.refl _)

/-! ## The invariant -/

/-- What m_hash.h asks of the functions of a table: equality is an equivalence, and equal
keys have equal hash values. -/
structure LawfulHash (kv : K → BitVec 32) (equal : K → K → Bool) : Prop where
  refl : ∀ a, equal a a = true
  symm : ∀ a b, equal a b = true → equal b a = true
  trans : ∀ a b c, equal a b = true → equal b c = true → equal a c = true
  kv_eq : ∀ a b, equal a b = true → kv a = kv b

/-- The invariant of a run: the buckets hold exactly the nodes of the map, each where its
key belongs, and no two of them have equal keys. -/
structure HashInv (ops : MHashOps K) (m : HashMem) (S : List Ptr) (B : List (List Ptr)) :
    Prop where
  buckets : Buckets m B
  perm : B.flatten.Perm S
  placed : PlacedBy (fun q => bucketOf m (ops.kv (ops.getKey q))) B
  keys : S.Pairwise fun p q => ops.equal (ops.getKey p) (ops.getKey q) = false
  bound : S.length < 2 ^ 32

/-- INTERNAL: fuel for all nodes is fuel for the lists. -/
theorem HashInv.length_lt (h : HashInv ops m S B) {n : ℕ} (hn : S.length < n) :
    B.flatten.length < n := by
  rw [h.perm.length_eq]
  exact hn

/-- INTERNAL: nodes of the map with equal keys are the same node. -/
theorem key_unique (hl : LawfulHash ops.kv ops.equal)
    (hk : S.Pairwise fun p q => ops.equal (ops.getKey p) (ops.getKey q) = false) {p q : Ptr}
    (hp : p ∈ S) (hq : q ∈ S) (he : ops.equal (ops.getKey p) (ops.getKey q) = true) : p = q := by
  induction S with
  | nil => simp at hp
  | cons a S ih =>
    obtain ⟨ha, hS⟩ := List.pairwise_cons.mp hk
    rcases List.mem_cons.mp hp with rfl | hpS
    · rcases List.mem_cons.mp hq with rfl | hqS
      · rfl
      · simp [ha q hqS] at he
    · rcases List.mem_cons.mp hq with rfl | hqS
      · have := ha p hpS
        simp [hl.symm _ _ he] at this
      · exact ih hS hpS hqS

/-- INTERNAL: what a lookup finds in the buckets is the node of the map with the key. -/
theorem HashInv.lookupIn_iff (hl : LawfulHash ops.kv ops.equal) (h : HashInv ops m S B)
    (key : K) (p : Ptr) :
    lookupIn ops m B key = some p ↔ p ∈ S ∧ ops.equal key (ops.getKey p) = true := by
  unfold lookupIn findKey
  constructor
  · intro e
    obtain ⟨l, hB, hfind⟩ := Option.bind_eq_some_iff.mp e
    have hp := List.mem_of_find?_eq_some hfind
    exact ⟨h.perm.mem_iff.mp (mem_flatten_of_get hB hp),
      List.find?_some (p := fun q => ops.equal key (ops.getKey q)) hfind⟩
  · rintro ⟨hp, he⟩
    obtain ⟨l, hB, hpl⟩ := h.placed.mem (h.perm.mem_iff.mpr hp)
    rw [hl.kv_eq _ _ he, hB, Option.bind_some]
    cases hfind : l.find? fun q => ops.equal key (ops.getKey q) with
    | none => exact absurd he (List.find?_eq_none.mp hfind p hpl)
    | some q =>
      have hq := h.perm.mem_iff.mp (mem_flatten_of_get hB (List.mem_of_find?_eq_some hfind))
      have heq : ops.equal key (ops.getKey q) = true :=
        List.find?_some (p := fun q => ops.equal key (ops.getKey q)) hfind
      rw [key_unique hl h.keys hq hp (hl.trans _ _ _ (hl.symm _ _ heq) he)]

/-- INTERNAL: a lookup finds nothing when no node of the map has the key. -/
theorem HashInv.lookupIn_none (hl : LawfulHash ops.kv ops.equal) (h : HashInv ops m S B)
    (key : K) :
    lookupIn ops m B key = none ↔ ∀ p ∈ S, ops.equal key (ops.getKey p) = false := by
  constructor
  · intro e p hp
    cases he : ops.equal key (ops.getKey p) with
    | false => rfl
    | true =>
      have := (h.lookupIn_iff hl key p).mpr ⟨hp, he⟩
      simp [e] at this
  · intro hnone
    cases e : lookupIn ops m B key with
    | none => rfl
    | some p =>
      obtain ⟨hp, he⟩ := (h.lookupIn_iff hl key p).mp e
      simp [hnone p hp] at he

/-- A lookup result: the node of the map with the key, or `NULL` when there is none. -/
def FindsKey (ops : MHashOps K) (S : List Ptr) (key : K) (r : Outcome Ptr) : Prop :=
  (∀ p, p ≠ NULL → (r = .ok p ↔ p ∈ S ∧ ops.equal key (ops.getKey p) = true)) ∧
    (r = .ok NULL ↔ ∀ p ∈ S, ops.equal key (ops.getKey p) = false)

/-- INTERNAL: a node of the table is not null. -/
theorem HashInv.ne_null (h : HashInv ops m S B) {p : Ptr} (hp : p ∈ S) : p ≠ NULL :=
  h.buckets.table.ne_null (h.perm.mem_iff.mpr hp)

/-- INTERNAL: returning what is found in the buckets is the right result. -/
theorem HashInv.findsKey (hl : LawfulHash ops.kv ops.equal) (h : HashInv ops m S B) (key : K) :
    FindsKey ops S key (.ok ((lookupIn ops m B key).getD NULL)) := by
  cases e : lookupIn ops m B key with
  | none =>
    have hnone := (h.lookupIn_none hl key).mp e
    refine ⟨fun p hp => ⟨fun he => absurd (Except.ok.inj he).symm hp, fun ⟨hpS, he⟩ => ?_⟩,
      fun _ => hnone, fun _ => rfl⟩
    simp [hnone p hpS] at he
  | some q =>
    obtain ⟨hq, heq⟩ := (h.lookupIn_iff hl key q).mp e
    refine ⟨fun p _ => ⟨?_, fun hp => ?_⟩, fun he => ?_, fun hnone => ?_⟩
    · rintro ⟨⟩
      exact ⟨hq, heq⟩
    · have := (h.lookupIn_iff hl key p).mpr hp
      rw [e] at this
      rw [Option.getD_some, Option.some.inj this]
    · exact absurd (Except.ok.inj he) (h.ne_null hq)
    · simp [hnone q hq] at heq

/-- INTERNAL: the right result is unique. -/
theorem FindsKey.unique {r r' : Outcome Ptr} (hS : ∀ p ∈ S, p ≠ NULL)
    (h : FindsKey ops S key r) (h' : FindsKey ops S key r') : r = r' := by
  by_cases hex : ∃ p ∈ S, ops.equal key (ops.getKey p) = true
  · obtain ⟨p, hp, he⟩ := hex
    rw [(h.1 p (hS p hp)).mpr ⟨hp, he⟩, (h'.1 p (hS p hp)).mpr ⟨hp, he⟩]
  · have hnone : ∀ p ∈ S, ops.equal key (ops.getKey p) = false := fun p hp =>
      Bool.eq_false_iff.mpr fun he => hex ⟨p, hp, he⟩
    rw [h.2.mpr hnone, h'.2.mpr hnone]

/-! ## One step -/

/-- INTERNAL: writes outside the nodes of the table keep the invariant. -/
theorem HashInv.other {ops' : MHashOps K} (h : HashInv ops m S B) (hkv : ops'.kv = ops.kv)
    (heq : ops'.equal = ops.equal) (hh : m'.hash = m.hash)
    (hn : ∀ p ∈ S, m'.next p = m.next p ∧ ops'.getKey p = ops.getKey p) :
    HashInv ops' m' S B := by
  refine ⟨⟨?_, ?_, h.buckets.nodup, ?_⟩, h.perm, ?_, ?_, ?_⟩
  · rw [hh]
    exact h.buckets.table.congr fun p hp => (hn p (h.perm.mem_iff.mp hp)).1
  · rw [hh]
    exact h.buckets.nlist
  · rw [hh]
    exact h.buckets.size
  · refine h.placed.congr fun p hp => ?_
    simp only [bucketOf, hh, hkv, (hn p (h.perm.mem_iff.mp hp)).2]
  · refine List.Pairwise.imp_of_mem (fun {p q} hp hq hpq => ?_) h.keys
    rw [heq, (hn p hp).2, (hn q hq).2]
    exact hpq
  · exact h.bound

/-- INTERNAL: an insertion of an absent key. -/
theorem HashInv.insertWithKv (hl : LawfulHash ops.kv ops.equal) (h : HashInv ops m S B)
    {node : Ptr} (hn : node ≠ NULL)
    (habs : ∀ p ∈ S, ops.equal (ops.getKey node) (ops.getKey p) = false)
    (hnl : m.hash.nlist ≠ 0) (hlt : S.length + 1 < 2 ^ 32) :
    ∃ m₁ B₁, mHashInsertWithKv m node (ops.kv (ops.getKey node)) = .ok m₁ ∧
      HashInv ops m₁ (node :: S) B₁ := by
  have hfresh : node ∉ B.flatten := fun hm => by
    have := habs node (h.perm.mem_iff.mp hm)
    simp [hl.refl] at this
  obtain ⟨m₁, l, e, hB, hbuckets, hnl'⟩ := insertWithKv_spec h.buckets hn hfresh hnl
    (ops.kv (ops.getKey node))
  obtain ⟨rest, hperm, hset⟩ := flatten_perm_of_get hB
  refine ⟨m₁, _, e, hbuckets, ?_, ?_, List.pairwise_cons.mpr ⟨habs, h.keys⟩, hlt⟩
  · exact (hset _).trans ((hperm.symm.trans h.perm).cons node)
  · have hb : bucketOf m₁ = bucketOf m := by
      funext kv
      simp only [bucketOf, hnl']
    rw [hb]
    refine h.placed.set fun p hp => ?_
    rcases List.mem_cons.mp hp with rfl | hp
    · rfl
    · exact h.placed _ l hB p hp

/-- The map without the key. -/
def eraseKey (ops : MHashOps K) (key : K) (S : List Ptr) : List Ptr :=
  S.filter fun p => !ops.equal key (ops.getKey p)

/-- INTERNAL: unlinking the node with the key. -/
theorem HashInv.unlink (hl : LawfulHash ops.kv ops.equal) (h : HashInv ops m S B) {a : Ptr}
    {l₁ l₂ : List Ptr} {i : ℕ} (hB : B[i]? = some (l₁ ++ a :: l₂))
    (ha : lookupIn ops m B key = some a) (hbuckets : Buckets m' (B.set i (l₁ ++ l₂)))
    (hnl : m'.hash.nlist = m.hash.nlist) :
    HashInv ops m' (eraseKey ops key S) (B.set i (l₁ ++ l₂)) := by
  obtain ⟨haS, hak⟩ := (h.lookupIn_iff hl key a).mp ha
  obtain ⟨rest, hperm, hset⟩ := flatten_perm_of_get hB
  have hrest : (a :: (l₁ ++ l₂ ++ rest)).Perm S := by
    refine (List.Perm.symm ?_).trans h.perm
    refine hperm.trans ?_
    rw [List.append_assoc, List.append_assoc]
    exact List.perm_middle
  have hnd : (a :: (l₁ ++ l₂ ++ rest)).Nodup :=
    hrest.nodup_iff.mpr (h.perm.nodup_iff.mp h.buckets.nodup)
  refine ⟨hbuckets, ?_, ?_, List.Pairwise.sublist List.filter_sublist h.keys,
    lt_of_le_of_lt (List.length_filter_le _ _) h.bound⟩
  · -- every other node of the map has another key
    refine (hset _).trans ?_
    have hfilter := hrest.filter fun p => !ops.equal key (ops.getKey p)
    rw [List.filter_cons_of_neg (by simp [hak]), List.filter_eq_self.mpr ?_] at hfilter
    · exact hfilter
    · intro p hp
      have hpS := hrest.mem_iff.mp (List.mem_cons_of_mem a hp)
      cases he : ops.equal key (ops.getKey p) with
      | false => rfl
      | true =>
        have hpa := key_unique hl h.keys hpS haS (hl.trans _ _ _ (hl.symm _ _ he) hak)
        exact absurd hp (hpa ▸ (List.nodup_cons.mp hnd).1)
  · have hb : bucketOf m' = bucketOf m := by
      funext kv
      simp only [bucketOf, hnl]
    rw [hb]
    refine h.placed.set fun p hp => h.placed i _ hB p ?_
    rcases List.mem_append.mp hp with hp | hp
    · simp [hp]
    · simp [hp]

/-- INTERNAL: a key that is not found is not there. -/
theorem HashInv.eraseKey_of_none (hl : LawfulHash ops.kv ops.equal) (h : HashInv ops m S B)
    (hnone : lookupIn ops m B key = none) : eraseKey ops key S = S := by
  refine List.filter_eq_self.mpr fun p hp => ?_
  simp [(h.lookupIn_none hl key).mp hnone p hp]

/-- INTERNAL: **`m_hash_remove`** on the map. -/
theorem HashInv.remove (hl : LawfulHash ops.kv ops.equal) (h : HashInv ops m S B) (key : K)
    {n : ℕ} (hn : S.length < n) :
    ∃ m₁ B₁ p, mHashRemove n m key ops = .ok (m₁, p) ∧ FindsKey ops S key (.ok p) ∧
      HashInv ops m₁ (eraseKey ops key S) B₁ := by
  have hfind := h.findsKey hl key
  have hf := h.length_lt hn
  rcases remove_spec ops key h.buckets (h.length_lt h.bound) hf with
    ⟨hnone, e⟩ | ⟨l₁, a, l₂, m₁, hB, ha, e, hbuckets, hnl⟩
  · refine ⟨m, B, NULL, e, by simpa [hnone] using hfind, ?_⟩
    rw [h.eraseKey_of_none hl hnone]
    exact h
  · exact ⟨m₁, _, a, e, by simpa [ha] using hfind, h.unlink hl hB ha hbuckets hnl⟩

/-- INTERNAL: **`m_hash_lookup_with_prev` and `m_hash_remove_from_prev`** on the map. -/
theorem HashInv.removeFromPrev (hl : LawfulHash ops.kv ops.equal) (h : HashInv ops m S B)
    {n : ℕ} (hn : S.length < n) {a : Ptr} {slot : HashSlot}
    (hlook : mHashLookupWithPrev n m key ops = .ok (a, some slot)) :
    ∃ m₁ B₁, mHashRemoveFromPrev m slot = .ok (m₁, a) ∧
      HashInv ops m₁ (eraseKey ops key S) B₁ := by
  have hf := h.length_lt hn
  rcases lookupWithPrev_spec ops key h.buckets (h.length_lt h.bound) hf with
    ⟨-, e⟩ | ⟨l₁, b, l₂, hB, hb, e⟩
  · rw [hlook] at e
    simp at e
  · rw [hlook] at e
    obtain ⟨rfl, e'⟩ := Prod.mk.inj (Except.ok.inj e)
    obtain rfl := Option.some.inj e'
    obtain ⟨m₁, e₁, hbuckets, hnl⟩ := removeFromPrev_spec h.buckets hB
    exact ⟨m₁, _, e₁, h.unlink hl hB hb hbuckets hnl⟩

/-- INTERNAL: **`m_hash_resize`** on the map, whether the allocation succeeds or not. -/
theorem HashInv.resize (h : HashInv ops m S B) (alloc : Bool) {n : ℕ} (hn : S.length < n) :
    ∃ m₁ B₁ r, mHashResize n m ops alloc = .ok (m₁, r) ∧ HashInv ops m₁ S B₁ := by
  have hf := h.length_lt hn
  obtain ⟨m₁, r, e, hcase, -⟩ := resize_spec ops h.buckets hf alloc
  rcases hcase with ⟨rfl, -⟩ | ⟨-, -, B₁, hbuckets, hperm, hplaced⟩
  · exact ⟨m₁, B, r, e, h⟩
  · exact ⟨m₁, B₁, r, e, hbuckets, hperm.trans h.perm, hplaced, h.keys, h.bound⟩

/-! ## Runs -/

/-- The runs of a program that uses a table: memory, keys of the nodes, and the nodes of
the map. -/
inductive HashRun (kv : K → BitVec 32) (equal : K → K → Bool) :
    HashMem → (Ptr → K) → List Ptr → Prop
  | init (m : HashMem) (getKey : Ptr → K) : HashRun kv equal (mHashInit m) getKey []
  | resize {m m' : HashMem} {getKey : Ptr → K} {S : List Ptr} {n : ℕ} {alloc : Bool}
      {r : MResult} : HashRun kv equal m getKey S →
      mHashResize n m ⟨getKey, kv, equal⟩ alloc = .ok (m', r) → HashRun kv equal m' getKey S
  | insertWithKv {m m' : HashMem} {getKey : Ptr → K} {S : List Ptr} {node : Ptr} :
      HashRun kv equal m getKey S → node ≠ NULL →
      (∀ p ∈ S, equal (getKey node) (getKey p) = false) → m.hash.nlist ≠ 0 →
      S.length + 1 < 2 ^ 32 → mHashInsertWithKv m node (kv (getKey node)) = .ok m' →
      HashRun kv equal m' getKey (node :: S)
  | insert {m m' : HashMem} {getKey : Ptr → K} {S : List Ptr} {node : Ptr} :
      HashRun kv equal m getKey S → node ≠ NULL →
      (∀ p ∈ S, equal (getKey node) (getKey p) = false) → m.hash.nlist ≠ 0 →
      S.length + 1 < 2 ^ 32 → mHashInsert m node ⟨getKey, kv, equal⟩ = .ok m' →
      HashRun kv equal m' getKey (node :: S)
  | remove {m m' : HashMem} {getKey : Ptr → K} {S : List Ptr} {n : ℕ} {key : K} {p : Ptr} :
      HashRun kv equal m getKey S → mHashRemove n m key ⟨getKey, kv, equal⟩ = .ok (m', p) →
      HashRun kv equal m' getKey (eraseKey ⟨getKey, kv, equal⟩ key S)
  | removeFromPrev {m m' : HashMem} {getKey : Ptr → K} {S : List Ptr} {n : ℕ} {key : K}
      {a p : Ptr} {slot : HashSlot} : HashRun kv equal m getKey S →
      mHashLookupWithPrev n m key ⟨getKey, kv, equal⟩ = .ok (a, some slot) →
      mHashRemoveFromPrev m slot = .ok (m', p) →
      HashRun kv equal m' getKey (eraseKey ⟨getKey, kv, equal⟩ key S)
  | other {m m' : HashMem} {getKey getKey' : Ptr → K} {S : List Ptr} :
      HashRun kv equal m getKey S → m'.hash = m.hash →
      (∀ p ∈ S, m'.next p = m.next p ∧ getKey' p = getKey p) → HashRun kv equal m' getKey' S

/-- INTERNAL: every state of a run has the invariant. -/
theorem hashRun_inv {kv : K → BitVec 32} {equal : K → K → Bool} (hl : LawfulHash kv equal)
    {getKey : Ptr → K} (h : HashRun kv equal m getKey S) :
    ∃ B, HashInv ⟨getKey, kv, equal⟩ m S B := by
  induction h with
  | init m getKey =>
    refine ⟨[], ⟨⟨rfl, by simp⟩, rfl, by simp, rfl⟩, .refl _, ?_, List.Pairwise.nil, by simp⟩
    intro i l hl
    simp at hl
  | @resize m m' getKey S n alloc r _ e ih =>
    obtain ⟨B, hB⟩ := ih
    obtain ⟨m₁, B₁, r₁, e₁, hB₁⟩ := hB.resize alloc (Nat.lt_succ_of_le (le_max_right n S.length))
    have e' := (Outcome.Approx.of_succ (f := fun n => mHashResize n m ⟨getKey, kv, equal⟩ alloc)
      (fun n => hashResize_approx alloc n)
      (Nat.le_succ_of_le (le_max_left n S.length))).eq_ok e
    rw [e'] at e₁
    obtain ⟨rfl, -⟩ := Prod.mk.inj (Except.ok.inj e₁)
    exact ⟨B₁, hB₁⟩
  | insertWithKv _ hn habs hnl hlt e ih =>
    obtain ⟨B, hB⟩ := ih
    obtain ⟨m₁, B₁, e₁, hB₁⟩ := hB.insertWithKv hl hn habs hnl hlt
    rw [e] at e₁
    obtain rfl := Except.ok.inj e₁
    exact ⟨B₁, hB₁⟩
  | insert _ hn habs hnl hlt e ih =>
    obtain ⟨B, hB⟩ := ih
    obtain ⟨m₁, B₁, e₁, hB₁⟩ := hB.insertWithKv hl hn habs hnl hlt
    rw [show mHashInsertWithKv _ _ _ = _ from e] at e₁
    obtain rfl := Except.ok.inj e₁
    exact ⟨B₁, hB₁⟩
  | @remove m m' getKey S n key p _ e ih =>
    obtain ⟨B, hB⟩ := ih
    obtain ⟨m₁, B₁, p₁, e₁, -, hB₁⟩ :=
      hB.remove hl key (Nat.lt_succ_of_le (le_max_right n S.length))
    have e' := (Outcome.Approx.of_succ (f := fun n => mHashRemove n m key ⟨getKey, kv, equal⟩)
      (fun n => hashRemove_approx n) (Nat.le_succ_of_le (le_max_left n S.length))).eq_ok e
    rw [e'] at e₁
    obtain ⟨rfl, -⟩ := Prod.mk.inj (Except.ok.inj e₁)
    exact ⟨B₁, hB₁⟩
  | @removeFromPrev m m' getKey S n key a p slot _ elook e ih =>
    obtain ⟨B, hB⟩ := ih
    have elook' := (Outcome.Approx.of_succ
      (f := fun n => mHashLookupWithPrev n m key ⟨getKey, kv, equal⟩)
      (fun n => lookupWithPrev_approx n) (Nat.le_succ_of_le (le_max_left n S.length))).eq_ok elook
    obtain ⟨m₁, B₁, e₁, hB₁⟩ :=
      hB.removeFromPrev hl (Nat.lt_succ_of_le (le_max_right n S.length)) elook'
    rw [e] at e₁
    obtain ⟨rfl, -⟩ := Prod.mk.inj (Except.ok.inj e₁)
    exact ⟨B₁, hB₁⟩
  | other _ hh hn ih =>
    obtain ⟨B, hB⟩ := ih
    exact ⟨B, hB.other rfl rfl hh hn⟩

/-- The nodes that the three lookups return. -/
def lookupResults (n : ℕ) (m : HashMem) (key : K) (ops : MHashOps K) : List (Outcome Ptr) :=
  [mHashLookup n m key ops, (mHashLookupWithKv n m key ops).map Prod.fst,
    (mHashLookupWithPrev n m key ops).map Prod.fst]

/-- INTERNAL: the three lookups return the node of the map with the key. -/
theorem HashInv.lookupResults_find (hl : LawfulHash ops.kv ops.equal) (h : HashInv ops m S B)
    {n : ℕ} (hn : S.length < n) (key : K) :
    ∀ r ∈ lookupResults n m key ops, FindsKey ops S key r := by
  have hf := h.length_lt hn
  have hfind := h.findsKey hl key
  intro r hr
  simp only [lookupResults, List.mem_cons, List.not_mem_nil, or_false] at hr
  rcases hr with rfl | rfl | rfl
  · rw [lookup_eq h.buckets (h.length_lt h.bound) hf]
    exact hfind
  · rw [lookupWithKv_eq h.buckets (h.length_lt h.bound) hf]
    exact hfind
  · rcases lookupWithPrev_spec ops key h.buckets (h.length_lt h.bound) hf with
      ⟨hnone, e⟩ | ⟨l₁, a, l₂, -, ha, e⟩
    · rw [hnone] at hfind
      rw [e]
      exact hfind
    · rw [ha] at hfind
      rw [e]
      exact hfind

/-- INTERNAL: with any fuel, no operation evaluates a modulo by zero. -/
theorem HashInv.ne_divByZero (hl : LawfulHash ops.kv ops.equal) (h : HashInv ops m S B) (n : ℕ)
    (key : K) (alloc : Bool) :
    mHashLookup n m key ops ≠ .error .divByZero ∧
    mHashLookupWithKv n m key ops ≠ .error .divByZero ∧
    mHashLookupWithPrev n m key ops ≠ .error .divByZero ∧
    mHashRemove n m key ops ≠ .error .divByZero ∧
    mHashResize n m ops alloc ≠ .error .divByZero := by
  set N := max n (S.length + 1) with hN
  have hnN : n ≤ N := le_max_left _ _
  have hS : S.length < N := lt_of_lt_of_le (Nat.lt_succ_self _) (le_max_right _ _)
  have hf := h.length_lt hS
  obtain ⟨p, e⟩ : ∃ p, mHashLookupWithPrev N m key ops = .ok p := by
    rcases lookupWithPrev_spec ops key h.buckets (h.length_lt h.bound) hf with
      ⟨-, e⟩ | ⟨_, _, _, -, -, e⟩
    · exact ⟨_, e⟩
    · exact ⟨_, e⟩
  obtain ⟨m₁, B₁, p₁, e₁, -⟩ := h.remove hl key hS
  obtain ⟨m₂, B₂, r₂, e₂, -⟩ := h.resize alloc hS
  have hd : Fault.divByZero ≠ .outOfFuel := nofun
  refine ⟨?_, ?_, ?_, ?_, ?_⟩
  · exact (Outcome.Approx.of_succ (f := fun n => mHashLookup n m key ops)
      (fun n => lookup_approx n) hnN).ne_error (lookup_eq h.buckets (h.length_lt h.bound) hf) hd
  · exact (Outcome.Approx.of_succ (f := fun n => mHashLookupWithKv n m key ops)
      (fun n => lookupWithKv_approx n) hnN).ne_error
        (lookupWithKv_eq h.buckets (h.length_lt h.bound) hf) hd
  · exact (Outcome.Approx.of_succ (f := fun n => mHashLookupWithPrev n m key ops)
      (fun n => lookupWithPrev_approx n) hnN).ne_error e hd
  · exact (Outcome.Approx.of_succ (f := fun n => mHashRemove n m key ops)
      (fun n => hashRemove_approx n) hnN).ne_error e₁ hd
  · exact (Outcome.Approx.of_succ (f := fun n => mHashResize n m ops alloc)
      (fun n => hashResize_approx alloc n) hnN).ne_error e₂ hd

/-- INTERNAL: `m_hash_insert_with_kv` checks the number of lists before it divides by it. -/
theorem insertWithKv_ne_divByZero (m : HashMem) (node : Ptr) (kv : BitVec 32) :
    mHashInsertWithKv m node kv ≠ .error .divByZero := by
  unfold mHashInsertWithKv
  split_ifs with hn hnl
  · simp
  · simp
  · obtain ⟨e, -⟩ := umod_eq (a := kv) hnl
    rw [e, Outcome.ok_bind]
    simp only [HashMem.load, HashMem.store]
    cases m.hash.lists[(kv % m.hash.nlist).toNat]? with
    | none => simp
    | some head =>
      simp only [Outcome.ok_bind]
      split_ifs
      · simp
      · simp

/-- **The hash table is a finite map over whole runs.** In every state of a run each node of
the map is in exactly one chain, that of the bucket of its key; `size` counts the nodes;
every lookup and every removal returns the node with the key exactly when there is one; a
removal through the link that a lookup gave returns the node that was looked up; a resize,
successful or not, changes no lookup; an insertion of an absent key returns; and no modulo by
zero is evaluated, with whatever fuel.
SOURCE: m_hash.h:312-571 -/
theorem hash_run_map {kv : K → BitVec 32} {equal : K → K → Bool} (hl : LawfulHash kv equal)
    {getKey : Ptr → K} (h : HashRun kv equal m getKey S) :
    (∃ B, Buckets m B ∧ B.flatten.Perm S ∧
      PlacedBy (fun p => (kv (getKey p)).toNat % m.hash.nlist.toNat) B) ∧
    m.hash.size.toNat = S.length ∧
    (∀ n key, S.length < n →
      (∀ r ∈ lookupResults n m key ⟨getKey, kv, equal⟩, FindsKey ⟨getKey, kv, equal⟩ S key r) ∧
      FindsKey ⟨getKey, kv, equal⟩ S key
        ((mHashRemove n m key ⟨getKey, kv, equal⟩).map Prod.snd)) ∧
    (∀ n key a slot, S.length < n →
      mHashLookupWithPrev n m key ⟨getKey, kv, equal⟩ = .ok (a, some slot) →
      ∃ m', mHashRemoveFromPrev m slot = .ok (m', a)) ∧
    (∀ n alloc, S.length < n → ∃ m' r, mHashResize n m ⟨getKey, kv, equal⟩ alloc = .ok (m', r) ∧
      ∀ k key, S.length < k → lookupResults k m' key ⟨getKey, kv, equal⟩ =
        lookupResults k m key ⟨getKey, kv, equal⟩) ∧
    (∀ node, node ≠ NULL → (∀ p ∈ S, equal (getKey node) (getKey p) = false) →
      m.hash.nlist ≠ 0 → S.length + 1 < 2 ^ 32 →
      ∃ m', mHashInsert m node ⟨getKey, kv, equal⟩ = .ok m') ∧
    (∀ n key alloc node hv,
      mHashLookup n m key ⟨getKey, kv, equal⟩ ≠ .error .divByZero ∧
      mHashLookupWithKv n m key ⟨getKey, kv, equal⟩ ≠ .error .divByZero ∧
      mHashLookupWithPrev n m key ⟨getKey, kv, equal⟩ ≠ .error .divByZero ∧
      mHashRemove n m key ⟨getKey, kv, equal⟩ ≠ .error .divByZero ∧
      mHashResize n m ⟨getKey, kv, equal⟩ alloc ≠ .error .divByZero ∧
      mHashInsertWithKv m node hv ≠ .error .divByZero) := by
  obtain ⟨B, hB⟩ := hashRun_inv hl h
  have hnull : ∀ p ∈ S, p ≠ NULL := fun p hp => hB.ne_null hp
  refine ⟨⟨B, hB.buckets, hB.perm, hB.placed⟩, ?_, ?_, ?_, ?_, ?_, ?_⟩
  · rw [hB.buckets.size, BitVec.toNat_ofNat, hB.perm.length_eq, Nat.mod_eq_of_lt hB.bound]
  · intro n key hn
    obtain ⟨m₁, B₁, p, e, hfind, -⟩ := hB.remove hl key hn
    refine ⟨hB.lookupResults_find hl hn key, ?_⟩
    rw [e]
    exact hfind
  · intro n key a slot hn hlook
    obtain ⟨m₁, -, e, -⟩ := hB.removeFromPrev hl hn hlook
    exact ⟨m₁, e⟩
  · intro n alloc hn
    obtain ⟨m₁, B₁, r, e, hB₁⟩ := hB.resize alloc hn
    refine ⟨m₁, r, e, fun k key hk => ?_⟩
    have h₁ := hB₁.lookupResults_find hl hk key
    have h₂ := hB.lookupResults_find hl hk key
    simp only [lookupResults, List.mem_cons, List.not_mem_nil, or_false, forall_eq_or_imp,
      forall_eq] at h₁ h₂ ⊢
    rw [h₁.1.unique hnull h₂.1, h₁.2.1.unique hnull h₂.2.1, h₁.2.2.unique hnull h₂.2.2]
  · intro node hn habs hnl hlt
    obtain ⟨m₁, B₁, e, -⟩ := hB.insertWithKv hl hn habs hnl hlt
    exact ⟨m₁, e⟩
  · intro n key alloc node hv
    obtain ⟨h1, h2, h3, h4, h5⟩ := hB.ne_divByZero hl n key alloc
    exact ⟨h1, h2, h3, h4, h5, insertWithKv_ne_divByZero m node hv⟩

/-- Pointers as keys: `m_ptr_hash_kv_func` and `m_ptr_hash_equal_func`. -/
theorem ptrHash_lawful : LawfulHash mPtrHashKvFunc mPtrHashEqualFunc :=
  ⟨fun a => by simp [mPtrHashEqualFunc], fun a b => by simp [mPtrHashEqualFunc, eq_comm],
    fun a b c => by simp only [mPtrHashEqualFunc, decide_eq_true_eq]; exact Eq.trans,
    fun a b => by simp only [mPtrHashEqualFunc, decide_eq_true_eq]; exact congrArg _⟩

/-- A run that grows a table, inserts three nodes into one list and removes the one between the
others. -/
theorem hash_run_map_collided :
    ∃ m, HashRun mPtrHashKvFunc mPtrHashEqualFunc m id [152, 8] ∧ m.hash.size.toNat = 2 ∧
      mHashLookup 3 m 8 ⟨id, mPtrHashKvFunc, mPtrHashEqualFunc⟩ = .ok 8 ∧
      mHashLookup 3 m 80 ⟨id, mPtrHashKvFunc, mPtrHashEqualFunc⟩ = .ok NULL := by
  obtain ⟨m₀, h₀, hm₀⟩ : ∃ m, HashRun mPtrHashKvFunc mPtrHashEqualFunc m id [] ∧
      m = ⟨⟨List.replicate 9 NULL, 0, 9⟩, id⟩ :=
    ⟨_, .resize (n := 1) (.init ⟨⟨[], 0, 0⟩, id⟩ id)
      (show mHashResize 1 _ _ true = .ok _ from rfl), rfl⟩
  subst hm₀
  have h₁ := h₀.insert (by decide) (by simp) (by decide) (by decide)
    (show mHashInsert _ 8 _ = .ok _ from rfl)
  have h₂ := h₁.insert (by decide) (by simp [mPtrHashEqualFunc]) (by decide) (by decide)
    (show mHashInsert _ 80 _ = .ok _ from rfl)
  have h₃ := h₂.insert (by decide) (by simp [mPtrHashEqualFunc]) (by decide) (by decide)
    (show mHashInsert _ 152 _ = .ok _ from rfl)
  have h₄ := h₃.remove (show mHashRemove 4 _ 80 _ = .ok _ from rfl)
  have hrun : HashRun mPtrHashKvFunc mPtrHashEqualFunc _ id [152, 8] := h₄
  obtain ⟨-, hsize, hfind, -⟩ := hash_run_map ptrHash_lawful hrun
  have hfinds := fun key => (hfind 3 key (by decide)).1 _ List.mem_cons_self
  exact ⟨_, hrun, hsize, ((hfinds 8).1 8 (by decide)).mpr ⟨by decide, by decide⟩,
    (hfinds 80).2.mpr (by simp [mPtrHashEqualFunc])⟩

end Ming.Analysis
