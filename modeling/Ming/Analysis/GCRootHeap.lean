import Mathlib.Data.List.Flatten
import Ming.Analysis.GCBufRuns
import Ming.Analysis.GCRootRuns
import Ming.Analysis.HashValueTraversal
import Ming.Foundation.Runs
import Ming.Model.GCRootHeap

/-!
# The memory of the root table over whole runs

The links of the records lead from records to records, so a function that walks along them stays
within the blocks of the table, whatever it looks for; there it does what the function without
blocks does. A run allocates a block for every new record and one for every resize, and gives
back the records that it removes and the buffers that it leaves.
-/

set_option autoImplicit false

namespace Ming.Analysis

open Ming.Foundation Ming.Model Ming.Interface

variable {h h' : GCRootHeap} {B : List (List Ptr)} {R : List Ptr} {p node key : Ptr}
variable {fuel i : ℕ} {slot : HashSlot} {next : Ptr → Ptr} {L : Ptr → Prop}

/-- The links that leave `L` end. -/
def Closed (L : Ptr → Prop) (next : Ptr → Ptr) : Prop := ∀ p, L p → next p = NULL ∨ L (next p)

/-- The table with the buckets `B` lies in blocks: the records `R`, among them those in the
buckets, and the buffer. -/
structure RootBlocks (h : GCRootHeap) (B : List (List Ptr)) (R : List Ptr) : Prop where
  buckets : Buckets h.mem.table B
  sub : ∀ rn ∈ B.flatten, rn ∈ R
  record : ∀ rn ∈ R, ∃ size, h.block rn = some size ∧ 24 ≤ size
  null : h.mem.table.hash.nlist = 0 → h.lists = NULL
  buffer : h.mem.table.hash.nlist ≠ 0 → h.lists ≠ NULL ∧ h.lists ∉ R ∧
    ∃ size, h.block h.lists = some size ∧ 8 * B.length ≤ size
  only : ∀ p, h.block p ≠ none → p ∈ R ∨ (p = h.lists ∧ h.mem.table.hash.nlist ≠ 0)

/-! ## Links -/

/-- INTERNAL: the link of a record leads to a record. -/
theorem Closed.of_buckets {m : HashMem} (hB : Buckets m B) : Closed (· ∈ B.flatten) m.next := by
  intro p hp
  obtain ⟨l, hl, hpl⟩ := List.mem_flatten.mp hp
  obtain ⟨i, hi, rfl⟩ := List.mem_iff_getElem.mp hl
  obtain ⟨l₁, l₂, e⟩ := List.append_of_mem hpl
  have hget : B[i]? = some (l₁ ++ p :: l₂) := by rw [List.getElem?_eq_getElem hi, e]
  have hnext : m.next p = l₂.headD NULL := chain_headD (load_list hB hget).2.tail
  cases l₂ with
  | nil => exact Or.inl hnext
  | cons q l₂ => exact Or.inr (hnext ▸ mem_flatten_of_get hget (by simp))

/-- INTERNAL: the head of a list is a record. -/
theorem load_closed {m : HashMem} (hB : Buckets m B) (e : m.load (.list i) = .ok p) :
    p = NULL ∨ p ∈ B.flatten := by
  by_cases hi : i < B.length
  · have hget : B[i]? = some B[i] := List.getElem?_eq_getElem hi
    have hp : p = B[i].headD NULL := Except.ok.inj (e.symm.trans (load_list hB hget).1)
    cases hl : B[i] with
    | nil => exact Or.inl (by rw [hp, hl]; rfl)
    | cons q l => exact Or.inr (by rw [hp, hl]; exact mem_flatten_of_get hget (by rw [hl]; simp))
  · have hlen : m.hash.lists.length ≤ i := hB.table.length ▸ Nat.le_of_not_lt hi
    simp only [HashMem.load, List.getElem?_eq_none hlen] at e
    cases e

/-! ## Accesses -/

/-- INTERNAL: an access inside of a block. -/
theorem access_ok {size off len : ℕ} (hb : h.block p = some size) (hle : off + len ≤ size) :
    h.access p off len = .ok () := by
  rw [GCRootHeap.access, hb]
  exact if_pos hle

/-- INTERNAL: an access inside of a record. -/
theorem RootBlocks.access_record (hb : RootBlocks h B R) (hp : p ∈ R) {off len : ℕ}
    (hle : off + len ≤ 24) : h.access p off len = .ok () := by
  obtain ⟨size, hsize, hge⟩ := hb.record p hp
  exact access_ok hsize (hle.trans hge)

/-- A slot whose word can be accessed. -/
def SlotOk (h : GCRootHeap) (slot : HashSlot) : Prop :=
  h.access (h.place slot).1 (h.place slot).2 8 = .ok ()

/-- INTERNAL: a slot that can be accessed is loaded. -/
theorem SlotOk.load (hs : SlotOk h slot) : h.load slot = h.mem.table.load slot := by
  rw [GCRootHeap.load, hs]
  rfl

/-- INTERNAL: a slot that can be accessed is stored. -/
theorem SlotOk.store (hs : SlotOk h slot) (v : Ptr) :
    h.store slot v = (h.mem.table.store slot v).map h.setTable := by
  rw [GCRootHeap.store, hs, Outcome.ok_bind]
  cases h.mem.table.store slot v <;> rfl

/-- INTERNAL: the link of a record can be accessed. -/
theorem RootBlocks.slot_next (hb : RootBlocks h B R) (hp : p ∈ R) : SlotOk h (.next p) :=
  hb.access_record hp (show 0 + 8 ≤ 24 by decide)

/-- INTERNAL: the head of a list can be accessed. -/
theorem RootBlocks.slot_list (hb : RootBlocks h B R) (hi : i < B.length) :
    SlotOk h (.list i) := by
  have hne : h.mem.table.hash.nlist ≠ 0 := by
    intro hz
    have hlen : 0 = B.length := by
      rw [← hb.buckets.nlist, hz]
      rfl
    omega
  obtain ⟨-, -, size, hsize, hle⟩ := hb.buffer hne
  exact access_ok hsize (show 8 * i + 8 ≤ size by omega)

/-! ## Lookups -/

/-- INTERNAL: the walk of a lookup.
SOURCE: m_hash.h:330-335 -/
theorem RootBlocks.lookupLoop_eq (hb : RootBlocks h B R) (hp : p = NULL ∨ p ∈ B.flatten) :
    h.mHashLookupLoop key fuel p = mHashLookupLoop h.mem.table key gcRootHashOps fuel p := by
  induction fuel generalizing p with
  | zero => rfl
  | succ fuel ih =>
    rw [GCRootHeap.mHashLookupLoop, mHashLookupLoop]
    by_cases hz : p = NULL
    · rw [if_pos hz, if_pos hz]
    · have hmem := hp.resolve_left hz
      rw [if_neg hz, if_neg hz, (hb.slot_next (hb.sub p hmem)).load]
      change (if gcRootHashOps.equal key (gcRootHashOps.getKey p) = true then _ else _) = _
      split_ifs
      · rfl
      · exact ih (Closed.of_buckets hb.buckets p hmem)

/-- INTERNAL: `pos = kv % hash->nlist` is the index of a list.
SOURCE: m_hash.h:327, 363 -/
theorem RootBlocks.umod_pos (hb : RootBlocks h B R) (hs : h.mem.table.hash.size ≠ 0)
    (kv : BitVec 32) : ∃ pos, umod kv h.mem.table.hash.nlist = .ok pos ∧ pos.toNat < B.length := by
  have hnl := nlist_ne_zero hb.buckets hs
  obtain ⟨pos, head, l, e, hpos, -⟩ := load_bucket hb.buckets hnl kv
  exact ⟨pos, e, hpos ▸ bucketOf_lt hb.buckets hnl kv⟩

/-- INTERNAL: a lookup stays within the blocks of the table. -/
theorem RootBlocks.lookupWithKv_eq (hb : RootBlocks h B R) :
    h.mHashLookupWithKv fuel key = mHashLookupWithKv fuel h.mem.table key gcRootHashOps := by
  rw [GCRootHeap.mHashLookupWithKv, mHashLookupWithKv]
  by_cases hs : h.mem.table.hash.size ≠ 0
  · rw [if_pos hs, if_pos hs]
    obtain ⟨pos, e, hlt⟩ := hb.umod_pos hs (mPtrHashKvFunc key)
    rw [e, show gcRootHashOps.kv key = mPtrHashKvFunc key from rfl, e, Outcome.ok_bind,
      Outcome.ok_bind, (hb.slot_list hlt).load]
    cases hload : h.mem.table.load (.list pos.toNat) with
    | error f => rfl
    | ok q =>
      rw [Outcome.ok_bind, Outcome.ok_bind, hb.lookupLoop_eq (load_closed hb.buckets hload)]
  · rw [if_neg hs, if_neg hs]
    rfl

/-- INTERNAL: the walk of a lookup that remembers the slot. -/
theorem RootBlocks.lookupPrevLoop_eq (hb : RootBlocks h B R) (hp : p = NULL ∨ p ∈ B.flatten) :
    h.mHashLookupPrevLoop key fuel slot p =
      mHashLookupPrevLoop h.mem.table key gcRootHashOps fuel slot p := by
  induction fuel generalizing p slot with
  | zero => rfl
  | succ fuel ih =>
    rw [GCRootHeap.mHashLookupPrevLoop, mHashLookupPrevLoop]
    dsimp only
    by_cases hz : p = NULL
    · rw [if_pos hz, if_pos hz]
    · have hmem := hp.resolve_left hz
      rw [if_neg hz, if_neg hz, (hb.slot_next (hb.sub p hmem)).load]
      change (if gcRootHashOps.equal key (gcRootHashOps.getKey p) = true then _ else _) = _
      split_ifs
      · rfl
      · exact ih (Closed.of_buckets hb.buckets p hmem)

/-- INTERNAL: the same for the lookup that remembers the slot. -/
theorem RootBlocks.lookupWithPrev_eq (hb : RootBlocks h B R) :
    h.mHashLookupWithPrev fuel key = mHashLookupWithPrev fuel h.mem.table key gcRootHashOps := by
  rw [GCRootHeap.mHashLookupWithPrev, mHashLookupWithPrev]
  by_cases hs : h.mem.table.hash.size ≠ 0
  · rw [if_pos hs, if_pos hs]
    obtain ⟨pos, e, hlt⟩ := hb.umod_pos hs (mPtrHashKvFunc key)
    rw [e, show gcRootHashOps.kv key = mPtrHashKvFunc key from rfl, e, Outcome.ok_bind,
      Outcome.ok_bind]
    dsimp only
    rw [(hb.slot_list hlt).load]
    cases hload : h.mem.table.load (.list pos.toNat) with
    | error f => rfl
    | ok q =>
      rw [Outcome.ok_bind, Outcome.ok_bind]
      exact hb.lookupPrevLoop_eq (load_closed hb.buckets hload)
  · rw [if_neg hs, if_neg hs]

/-! ## Changes of the table -/

/-- INTERNAL: the removal of a record that a slot holds.
SOURCE: m_hash.h:440-456 -/
theorem RootBlocks.removeFromPrev_eq (hb : RootBlocks h B R) (hs : SlotOk h slot)
    (hload : h.mem.table.load slot = .ok node) (hnode : node ∈ R) :
    h.mHashRemoveFromPrev slot =
      (mHashRemoveFromPrev h.mem.table slot).map fun r => h.setTable r.1 := by
  rw [GCRootHeap.mHashRemoveFromPrev, mHashRemoveFromPrev, hs.load, hload, Outcome.ok_bind,
    Outcome.ok_bind]
  split_ifs
  · rfl
  · have hnext : h.load (.next node) = .ok (h.mem.table.next node) := (hb.slot_next hnode).load
    rw [hnext, Outcome.ok_bind, hs.store]
    cases h.mem.table.store slot (h.mem.table.next node) <;> rfl

/-- INTERNAL: the insertion of a record.
SOURCE: m_hash.h:480-496 -/
theorem RootBlocks.insertWithKv_eq (hb : RootBlocks h B R) (hnode : node ∈ R) (kv : BitVec 32) :
    h.mHashInsertWithKv node kv = (mHashInsertWithKv h.mem.table node kv).map h.setTable := by
  rw [GCRootHeap.mHashInsertWithKv, mHashInsertWithKv]
  split_ifs with hz hnl
  · rfl
  · rfl
  · obtain ⟨pos, head, l, e, hpos, hload, -⟩ := load_bucket hb.buckets hnl kv
    have hlt : pos.toNat < B.length := hpos ▸ bucketOf_lt hb.buckets hnl kv
    have hlink : h.store (.next node) head =
        .ok (h.setTable ⟨h.mem.table.hash, Function.update h.mem.table.next node head⟩) :=
      (hb.slot_next hnode).store head
    have hslot : ∀ t, SlotOk (h.setTable t) (.list pos.toNat) := fun _ => hb.slot_list hlt
    rw [e, Outcome.ok_bind, Outcome.ok_bind, (hb.slot_list hlt).load, hload, Outcome.ok_bind,
      Outcome.ok_bind, hlink, Outcome.ok_bind, (hslot _).store]
    change _ = ((HashMem.store ⟨h.mem.table.hash, Function.update h.mem.table.next node head⟩
      (.list pos.toNat) node >>= _).map _)
    cases e₂ : HashMem.store ⟨h.mem.table.hash, Function.update h.mem.table.next node head⟩
      (.list pos.toNat) node with
    | error f =>
      change ((HashMem.store ⟨h.mem.table.hash, _⟩ (.list pos.toNat) node).map _ >>= _) = _
      rw [e₂]
      rfl
    | ok t =>
      change ((HashMem.store ⟨h.mem.table.hash, _⟩ (.list pos.toNat) node).map _ >>= _) = _
      rw [e₂]
      rfl

/-! ## Resizing -/

/-- The nodes that the resize has moved hang in the new lists. -/
def Moved (L : Ptr → Prop) (nsize : BitVec 32) (st : List Ptr × (Ptr → Ptr)) : Prop :=
  st.1.length = nsize.toNat ∧ (∀ x ∈ st.1, x = NULL ∨ L x) ∧ Closed L st.2

/-- INTERNAL: a node is moved to the head of a new list. -/
theorem Moved.push {nsize : BitVec 32} {heads : List Ptr} {head : Ptr}
    (hm : Moved L nsize (heads, next)) (hp : L p) (hi : heads[i]? = some head) :
    Moved L nsize (heads.set i p, Function.update next p head) := by
  obtain ⟨hlen, hheads, hclosed⟩ := hm
  refine ⟨(List.length_set ..).trans hlen, fun x hx => ?_, fun q hq => ?_⟩
  · rcases List.mem_or_eq_of_mem_set hx with hx | rfl
    · exact hheads x hx
    · exact Or.inr hp
  · dsimp only
    by_cases hqp : q = p
    · subst hqp
      rw [Function.update_self]
      exact hheads head (List.mem_of_getElem? hi)
    · rw [Function.update_of_ne hqp]
      exact hclosed q hq

/-- INTERNAL: the nodes of one list.
SOURCE: m_hash.h:555-560 -/
theorem resizeChain_eq {nbuf : Ptr} {nsize : BitVec 32} (hL : ∀ x, L x → h.access x 0 8 = .ok ())
    (hbuf : ∀ i < nsize.toNat, h.access nbuf (8 * i) 8 = .ok ()) {heads : List Ptr}
    (hp : p = NULL ∨ L p) (hm : Moved L nsize (heads, next)) :
    h.mHashResizeChain nbuf nsize fuel p (heads, next) =
        mHashResizeChain gcRootHashOps nsize fuel p (heads, next) ∧
      ∀ st, mHashResizeChain gcRootHashOps nsize fuel p (heads, next) = .ok st →
        Moved L nsize st := by
  induction fuel generalizing p heads next with
  | zero => exact ⟨rfl, fun st e => by cases e⟩
  | succ fuel ih =>
    rw [GCRootHeap.mHashResizeChain, mHashResizeChain]
    by_cases hz : p = NULL
    · rw [if_pos hz, if_pos hz]
      exact ⟨rfl, fun st e => Except.ok.inj e ▸ hm⟩
    · have hmem := hp.resolve_left hz
      rw [if_neg hz, if_neg hz, hL p hmem, Outcome.ok_bind]
      by_cases hns : nsize = 0
      · rw [umod, umod, if_pos hns, if_pos hns]
        exact ⟨rfl, fun st e => by cases e⟩
      · obtain ⟨e, hpos⟩ := umod_eq (a := mPtrHashKvFunc (gcRootGetKey p)) hns
        have hlt : (mPtrHashKvFunc (gcRootGetKey p) % nsize).toNat < heads.length := by
          rw [hpos, show heads.length = nsize.toNat from hm.1]
          exact Nat.mod_lt _ (Nat.pos_of_ne_zero fun hz => hns (BitVec.eq_of_toNat_eq hz))
        have hget := List.getElem?_eq_getElem hlt
        have hkv : gcRootHashOps.kv (gcRootHashOps.getKey p) = mPtrHashKvFunc (gcRootGetKey p) :=
          rfl
        rw [hkv, e, Outcome.ok_bind, Outcome.ok_bind]
        rw [hbuf _ (hm.1 ▸ hlt), Outcome.ok_bind, hget]
        exact ih (hm.2.2 p hmem) (hm.push hmem hget)

/-- INTERNAL: the bytes of the list heads.
SOURCE: m_hash.h:549 -/
theorem hashListsSize_toNat (n : BitVec 32) : (hashListsSize n).toNat = 8 * n.toNat := by
  have hlt := n.isLt
  rw [hashListsSize, BitVec.toNat_mul, BitVec.toNat_setWidth]
  change 8 * (n.toNat % 2 ^ 64) % 2 ^ 64 = _
  omega

/-- INTERNAL: the size that `m_gc_free_buf` gets for a buffer, as long as it fits.
SOURCE: m_gc_root.c:50-54; m_gc_buf.c:110-114 -/
theorem hashListsSize_ne_zero {n : BitVec 32} (hn : n ≠ 0) (hlt : n.toNat < 2 ^ 29) :
    (hashListsSize n).setWidth 32 ≠ 0 := by
  intro e
  have hz := congrArg BitVec.toNat e
  rw [BitVec.toNat_setWidth, hashListsSize_toNat, Nat.mod_eq_of_lt (by omega)] at hz
  have hnz : n.toNat = 0 := by
    change 8 * n.toNat = 0 at hz
    omega
  exact hn (BitVec.eq_of_toNat_eq hnz)

/-- INTERNAL: a new block of at least the size of a record.
SOURCE: m_gc_buf.c:61-78 -/
theorem RootBlocks.alloc (hb : RootBlocks h B R) {answer : Ptr} {size : BitVec 64}
    (ha : answer ≠ NULL) (hfresh : h.block answer = none) (hlow : 24 ≤ size.toNat)
    (hhigh : size.toNat ≤ 2 ^ 64 - 8) :
    RootBlocks (h.mGCAllocBuf size answer) B (answer :: R) ∧
      ∃ n, (h.mGCAllocBuf size answer).block answer = some n ∧ size.toNat ≤ n := by
  have hle := le_sizeAlign hhigh
  have hsame : ∀ q, q ≠ answer → (h.mGCAllocBuf size answer).block q = h.block q := by
    intro q hq
    rw [GCRootHeap.mGCAllocBuf, if_neg ha]
    exact Function.update_of_ne hq _ _
  have hnew : (h.mGCAllocBuf size answer).block answer = some (gcSizeAlign size).toNat := by
    rw [GCRootHeap.mGCAllocBuf, if_neg ha]
    exact Function.update_self ..
  have hmem : (h.mGCAllocBuf size answer).mem = h.mem := by
    rw [GCRootHeap.mGCAllocBuf, if_neg ha]
  have hlists : (h.mGCAllocBuf size answer).lists = h.lists := by
    rw [GCRootHeap.mGCAllocBuf, if_neg ha]
  have hused : ∀ q n, h.block q = some n → q ≠ answer := by
    rintro q n hq rfl
    exact absurd (hq.symm.trans hfresh) (Option.some_ne_none n)
  refine ⟨⟨hmem ▸ hb.buckets, fun rn hrn => List.mem_cons_of_mem _ (hb.sub rn hrn),
    fun rn hrn => ?_, fun hz => ?_, fun hnz => ?_, fun q hq => ?_⟩, _, hnew, hle⟩
  · rcases List.mem_cons.mp hrn with rfl | hrn
    · exact ⟨_, hnew, hlow.trans hle⟩
    · obtain ⟨n, hn, hge⟩ := hb.record rn hrn
      exact ⟨n, (hsame rn (hused rn n hn)).trans hn, hge⟩
  · rw [hmem] at hz
    exact hlists.trans (hb.null hz)
  · rw [hmem] at hnz
    obtain ⟨hne, hout, n, hn, hge⟩ := hb.buffer hnz
    rw [hlists]
    refine ⟨hne, fun hm => ?_, n, (hsame _ (hused _ n hn)).trans hn, hge⟩
    rcases List.mem_cons.mp hm with e | hm
    · exact hused _ n hn e
    · exact hout hm
  · rw [hmem, hlists]
    by_cases hqa : q = answer
    · exact Or.inl (hqa ▸ List.mem_cons_self)
    · rw [hsame q hqa] at hq
      exact (hb.only q hq).imp_left (List.mem_cons_of_mem _)

/-- INTERNAL: the lists one after the other.
SOURCE: m_hash.h:555-560 -/
theorem RootBlocks.resizeLoop_eq (hb : RootBlocks h B R) (fuel : ℕ) {nbuf : Ptr}
    {nsize : BitVec 32} {n : ℕ} (hn : h.block nbuf = some n) (hle : 8 * nsize.toNat ≤ n) :
    (List.range B.length).foldlM (fun st pos => do
        let node ← h.load (.list pos)
        h.mHashResizeChain nbuf nsize fuel node st)
        (List.replicate nsize.toNat NULL, h.mem.table.next) =
      (List.range B.length).foldlM (fun st pos => do
        let node ← h.mem.table.load (.list pos)
        mHashResizeChain gcRootHashOps nsize fuel node st)
        (List.replicate nsize.toNat NULL, h.mem.table.next) := by
  refine Outcome.foldlM_eq_of_inv (Moved (· ∈ B.flatten) nsize) ?_ fun st pos hpos hm => ?_
  · refine ⟨List.length_replicate, fun x hx => Or.inl (List.eq_of_mem_replicate hx), ?_⟩
    exact Closed.of_buckets hb.buckets
  · rw [(hb.slot_list (List.mem_range.mp hpos)).load]
    cases hload : h.mem.table.load (.list pos) with
    | error f => exact ⟨rfl, fun st e => by cases e⟩
    | ok q =>
      rw [Outcome.ok_bind, Outcome.ok_bind]
      exact resizeChain_eq (fun x hx => hb.slot_next (hb.sub x hx))
        (fun i hi => access_ok hn (by omega)) (load_closed hb.buckets hload) hm

/-- INTERNAL: the new buffer takes the place of the old one, which is given back.
SOURCE: m_hash.h:562-566 -/
theorem RootBlocks.swapBuffer {answer : Ptr} {n : ℕ} {t : HashMem} {B' : List (List Ptr)}
    (hb : RootBlocks h B (answer :: R)) (ha : answer ≠ NULL) (hR : answer ∉ R)
    (hn : h.block answer = some n) (hle : 8 * B'.length ≤ n) (ht : Buckets t B')
    (hperm : B'.flatten.Perm B.flatten) (hsub : ∀ rn ∈ B.flatten, rn ∈ R)
    (hlt : h.mem.table.hash.nlist.toNat < 2 ^ 29) (hnz : t.hash.nlist ≠ 0) :
    ∃ h₁, (if h.lists ≠ NULL then
        h.mGCFreeBuf h.lists ((hashListsSize h.mem.table.hash.nlist).setWidth 32) else pure h) =
      .ok h₁ ∧ RootBlocks { h₁.setTable t with lists := answer } B' R ∧ h₁.mem = h.mem := by
  by_cases hz : h.mem.table.hash.nlist = 0
  · have hlists := hb.null hz
    refine ⟨h, if_neg (not_not.mpr hlists), ⟨ht, fun rn hrn => hsub rn (hperm.mem_iff.mp hrn),
      fun rn hrn => hb.record rn (List.mem_cons_of_mem _ hrn), fun e => absurd e hnz,
      fun _ => ⟨ha, hR, n, hn, hle⟩, fun q hq => ?_⟩, rfl⟩
    rcases hb.only q hq with hq | ⟨-, hne⟩
    · rcases List.mem_cons.mp hq with e | hq
      · exact Or.inr ⟨e, hnz⟩
      · exact Or.inl hq
    · exact absurd hz hne
  · obtain ⟨hne, hout, k, hk, -⟩ := hb.buffer hz
    have hfree : h.mGCFreeBuf h.lists ((hashListsSize h.mem.table.hash.nlist).setWidth 32) =
        .ok { h with block := Function.update h.block h.lists none } := by
      rw [GCRootHeap.mGCFreeBuf, if_neg (not_or.mpr ⟨hne, hashListsSize_ne_zero hz hlt⟩), hk]
      rfl
    have hother : ∀ q, q ≠ h.lists → Function.update h.block h.lists none q = h.block q :=
      fun q hq => Function.update_of_ne hq _ _
    have hkeep : ∀ q ∈ answer :: R, q ≠ h.lists := by
      rintro q hq rfl
      exact hout hq
    refine ⟨_, (if_pos hne).trans hfree, ⟨ht, fun rn hrn => hsub rn (hperm.mem_iff.mp hrn),
      fun rn hrn => ?_, fun e => absurd e hnz, fun _ => ⟨ha, hR, n, ?_, hle⟩, fun q hq => ?_⟩, rfl⟩
    · obtain ⟨size, hsize, hge⟩ := hb.record rn (List.mem_cons_of_mem _ hrn)
      exact ⟨size, (hother rn (hkeep rn (List.mem_cons_of_mem _ hrn))).trans hsize, hge⟩
    · exact (hother answer (hkeep answer List.mem_cons_self)).trans hn
    · have hql : q ≠ h.lists := by
        rintro rfl
        exact hq (Function.update_self ..)
      have hq' : h.block q ≠ none := fun e => hq ((hother q hql).trans e)
      rcases hb.only q hq' with hm | ⟨e, -⟩
      · rcases List.mem_cons.mp hm with e | hm
        · exact Or.inr ⟨e, hnz⟩
        · exact Or.inl hm
      · exact absurd e hql

/-- What a resize may leave: nothing changed, or the same records in more lists. -/
structure Resized (h : GCRootHeap) (B : List (List Ptr)) (R : List Ptr) (h' : GCRootHeap)
    (B' : List (List Ptr)) : Prop where
  blocks : RootBlocks h' B' R
  perm : B'.flatten.Perm B.flatten
  lists : h'.mem.table.hash.nlist ≠ 0
  few : h'.mem.table.hash.nlist.toNat ≤
    max h.mem.table.hash.nlist.toNat (max 9 h.mem.table.hash.size.toNat)
  ptr : h'.mem.ptr = h.mem.ptr
  ref : h'.mem.ref = h.mem.ref

/-- INTERNAL: an allocation does not touch the table. -/
theorem mGCAllocBuf_mem (h : GCRootHeap) (size : BitVec 64) (answer : Ptr) :
    (h.mGCAllocBuf size answer).mem = h.mem := by
  rw [GCRootHeap.mGCAllocBuf]
  split_ifs <;> rfl

/-- INTERNAL: **`m_hash_resize` stays within the blocks of the table**: it fails without a change
when `malloc` fails, and leaves the same records otherwise.
SOURCE: m_hash.h:537-570 -/
theorem RootBlocks.resize (hb : RootBlocks h B R) (hlt : h.mem.table.hash.nlist.toNat < 2 ^ 29)
    (hf : B.flatten.length < fuel) {answer : Ptr} (ha : answer ≠ NULL → h.block answer = none) :
    (answer = NULL ∧ h.mHashResize fuel answer = .ok (h, .errNoMem)) ∨
      ∃ h' B', h.mHashResize fuel answer = .ok (h', .ok) ∧ Resized h B R h' B' ∧
        mHashResize fuel h.mem.table gcRootHashOps (decide (answer ≠ NULL)) =
          .ok (h'.mem.table, .ok) := by
  rw [GCRootHeap.mHashResize, mHashResize]
  by_cases hle : h.mem.table.hash.nlist * 3 ≤ h.mem.table.hash.size
  · rw [if_pos hle, if_pos hle]
    by_cases hz : answer = NULL
    · refine Or.inl ⟨hz, (if_pos hz).trans ?_⟩
      rw [GCRootHeap.mGCAllocBuf, if_pos hz]
      rfl
    · refine Or.inr ?_
      have hfresh := ha hz
      set nsize : BitVec 32 := if h.mem.table.hash.size > 9 then h.mem.table.hash.size else 9
        with hnsize
      have hnine : 9 ≤ nsize.toNat ∧ nsize.toNat ≤ max 9 h.mem.table.hash.size.toNat := by
        rw [hnsize]
        split_ifs with h9
        · exact ⟨le_of_lt h9, le_max_right _ _⟩
        · exact ⟨le_refl 9, le_max_left _ _⟩
      have hns : nsize ≠ 0 := by
        intro e
        rw [e] at hnine
        exact absurd hnine.1 (by decide)
      have hbytes := hashListsSize_toNat nsize
      have hbig := nsize.isLt
      obtain ⟨hb₁, n, hn, hsize⟩ := (hb.alloc hz hfresh (by omega) (by omega) :
        RootBlocks (h.mGCAllocBuf (hashListsSize nsize) answer) B (answer :: R) ∧ _)
      have hmem := mGCAllocBuf_mem h (hashListsSize nsize) answer
      have hloop := hb₁.resizeLoop_eq fuel hn (hbytes ▸ hsize)
      obtain ⟨nbuf, next, NB, e, ht, hlen, hperm, -, -⟩ :=
        resizeLoop_spec gcRootHashOps hb.buckets hns hf B.length le_rfl
      rw [List.take_length] at hperm
      rw [hmem, e] at hloop
      have hR : answer ∉ R := by
        intro hm
        obtain ⟨k, hk, -⟩ := hb.record answer hm
        exact absurd (hk.symm.trans hfresh) (Option.some_ne_none k)
      have htable : Buckets ⟨⟨nbuf, h.mem.table.hash.size, nsize⟩, next⟩ NB := by
        refine ⟨ht, hlen.symm, hperm.nodup_iff.mpr hb.buckets.nodup, ?_⟩
        rw [hperm.length_eq]
        exact hb.buckets.size
      obtain ⟨h₁, e₁, hb₂, hm₁⟩ := hb₁.swapBuffer hz hR hn
        (t := ⟨⟨nbuf, h.mem.table.hash.size, nsize⟩, next⟩) (by rw [hlen, ← hbytes]; exact hsize)
        htable hperm hb.sub (hmem ▸ hlt) hns
      rw [hmem] at e₁ hm₁
      refine ⟨_, NB, ?_, ⟨hb₂, hperm, hns, hnine.2.trans (le_max_right _ _), ?_, ?_⟩, ?_⟩
      · rw [if_neg hz, access_ok hn (by omega), Outcome.ok_bind, hb.buckets.nlist]
        dsimp only
        rw [hmem, hloop, Outcome.ok_bind, e₁]
        rfl
      · change h₁.mem.ptr = h.mem.ptr
        rw [hm₁]
      · change h₁.mem.ref = h.mem.ref
        rw [hm₁]
      · rw [decide_eq_true hz, if_neg (by decide), hb.buckets.nlist]
        dsimp only
        rw [e]
        rfl
  · rw [if_neg hle, if_neg hle]
    refine Or.inr ⟨h, B, rfl, ⟨hb, .refl _, fun e => hle ?_, le_max_left _ _, rfl, rfl⟩, rfl⟩
    rw [e]
    simp [BitVec.le_def]

/-! ## The root API -/

/-- INTERNAL: the same records in another order. -/
theorem RootBlocks.congr (hb : RootBlocks h B R) {R' : List Ptr} (hR : ∀ x, x ∈ R' ↔ x ∈ R) :
    RootBlocks h B R' := by
  refine ⟨hb.buckets, fun rn hrn => (hR rn).mpr (hb.sub rn hrn),
    fun rn hrn => hb.record rn ((hR rn).mp hrn), hb.null, fun hnz => ?_,
    fun p hp => (hb.only p hp).imp_left (hR p).mpr⟩
  obtain ⟨hne, hout, hsize⟩ := hb.buffer hnz
  exact ⟨hne, fun hm => hout ((hR _).mp hm), hsize⟩

/-- INTERNAL: a store to the table that leaves the buffer where it is. -/
theorem RootBlocks.setTable (hb : RootBlocks h B R) {t : HashMem} {B' : List (List Ptr)}
    (ht : Buckets t B') (hsub : ∀ rn ∈ B'.flatten, rn ∈ R)
    (hnl : t.hash.nlist = h.mem.table.hash.nlist) : RootBlocks (h.setTable t) B' R := by
  have hlen : B'.length = B.length := by rw [← ht.nlist, hnl, hb.buckets.nlist]
  refine ⟨ht, hsub, hb.record, fun hz => hb.null (hnl.symm.trans hz), fun hnz => ?_, fun p hp => ?_⟩
  · rw [hlen]
    exact hb.buffer fun e => hnz (hnl.trans e)
  · exact (hb.only p hp).imp_right fun hx => ⟨hx.1, fun e => hx.2 (hnl.symm.trans e)⟩

/-- INTERNAL: stores to the other fields of the records. -/
theorem RootBlocks.setFields (hb : RootBlocks h B R) (ptr : Ptr → Ptr) (ref : Ptr → BitVec 32) :
    RootBlocks { h with mem := ⟨h.mem.table, ptr, ref⟩ } B R :=
  ⟨hb.buckets, hb.sub, hb.record, hb.null, hb.buffer, hb.only⟩

/-- INTERNAL: the size counts the nodes. -/
theorem size_le {m : HashMem} (hB : Buckets m B) : m.hash.size.toNat ≤ B.flatten.length := by
  rw [hB.size, BitVec.toNat_ofNat]
  exact Nat.mod_le _ _

/-- INTERNAL: what is found is a node of the table. -/
theorem mem_of_lookupIn {m : HashMem} (e : lookupIn gcRootHashOps m B key = some node) :
    node ∈ B.flatten := by
  obtain ⟨l, hB, hfind⟩ := Option.bind_eq_some_iff.mp e
  exact mem_flatten_of_get hB (List.mem_of_find?_eq_some hfind)

/-- INTERNAL: a new record gets into the table, in a block of its own.
SOURCE: m_gc_root.c:98-106 -/
theorem RootBlocks.insertRecord {record buffer : Ptr}
    (hb : RootBlocks h B (record :: B.flatten)) (hz : record ≠ NULL) (hout : record ∉ B.flatten)
    (hf : B.flatten.length < fuel) (hnl : h.mem.table.hash.nlist.toNat < 2 ^ 29)
    (hbuf : buffer ≠ NULL → h.block buffer = none) (kv : BitVec 32) :
    (buffer = NULL ∧ h.mHashResize fuel buffer = .ok (h, .errNoMem)) ∨
      ∃ h₁ h' B', h.mHashResize fuel buffer = .ok (h₁, .ok) ∧
        h₁.mHashInsertWithKv record kv = .ok h' ∧
        mHashResize fuel h.mem.table gcRootHashOps (decide (buffer ≠ NULL)) =
          .ok (h₁.mem.table, .ok) ∧
        mHashInsertWithKv h₁.mem.table record kv = .ok h'.mem.table ∧
        h'.mem = { h.mem with table := h'.mem.table } ∧
        RootBlocks h' B' B'.flatten ∧ B'.flatten.length = B.flatten.length + 1 ∧
        h'.mem.table.hash.nlist.toNat ≤
          max h.mem.table.hash.nlist.toNat (max 9 h.mem.table.hash.size.toNat) := by
  rcases hb.resize hnl hf hbuf with hfail | ⟨h₁, B₁, e₁, hres, hplain⟩
  · exact Or.inl hfail
  · have hout₁ : record ∉ B₁.flatten := fun hm => hout (hres.perm.mem_iff.mp hm)
    obtain ⟨t, l, e₂, hl, ht, hnlist⟩ :=
      insertWithKv_spec hres.blocks.buckets hz hout₁ hres.lists kv
    obtain ⟨rest, hperm, hset⟩ := flatten_perm_of_get hl
    -- the new list has the record and the nodes of the old one
    have hnew : (B₁.set (bucketOf h₁.mem.table kv) (record :: l)).flatten.Perm
        (record :: B.flatten) := (hset _).trans ((hperm.symm.trans hres.perm).cons record)
    have hinsert : h₁.mHashInsertWithKv record kv = .ok (h₁.setTable t) := by
      rw [hres.blocks.insertWithKv_eq List.mem_cons_self, e₂]
      rfl
    have hblocks := hres.blocks.setTable ht (fun rn hrn => hnew.mem_iff.mp hrn) hnlist
    refine Or.inr ⟨h₁, h₁.setTable t, _, e₁, hinsert, hplain, e₂, ?_,
      hblocks.congr fun x => hnew.mem_iff, ?_, ?_⟩
    · change GCRootMem.mk t h₁.mem.ptr h₁.mem.ref = ⟨t, h.mem.ptr, h.mem.ref⟩
      rw [hres.ptr, hres.ref]
    · rw [hnew.length_eq, List.length_cons]
    · change t.hash.nlist.toNat ≤ _
      rw [hnlist]
      exact hres.few

/-- INTERNAL: **`m_gc_add_root`** stays within the blocks of the table, or an assertion stops it.
SOURCE: m_gc_root.c:79-110 -/
theorem RootBlocks.addRoot (hb : RootBlocks h B B.flatten) (hf : B.flatten.length < fuel)
    (hlen : B.flatten.length < 2 ^ 29) (hnl : h.mem.table.hash.nlist.toNat < 2 ^ 29)
    {record buffer : Ptr} (hrec : record ≠ NULL → h.block record = none)
    (hbuf : buffer ≠ NULL → h.block buffer = none ∧ buffer ≠ record) :
    (h.mGCAddRoot fuel p record buffer = .error .assertFailed ∧
        (p = NULL ∨ record = NULL ∨ buffer = NULL)) ∨
      ∃ h' B', h.mGCAddRoot fuel p record buffer = .ok h' ∧
        mGCAddRoot fuel h.mem p record (decide (buffer ≠ NULL)) = .ok h'.mem ∧
        RootBlocks h' B' B'.flatten ∧ B'.flatten.length ≤ B.flatten.length + 1 ∧
        h'.mem.table.hash.nlist.toNat ≤
          max h.mem.table.hash.nlist.toNat (max 9 B.flatten.length) := by
  unfold GCRootHeap.mGCAddRoot mGCAddRoot
  by_cases hp : p = NULL
  · exact Or.inl ⟨if_pos hp, Or.inl hp⟩
  · rw [if_neg hp, if_neg hp, hb.lookupWithKv_eq,
      Analysis.lookupWithKv_eq hb.buckets (by omega) hf, Outcome.ok_bind, Outcome.ok_bind]
    dsimp only
    rw [nodeValue_zero]
    cases hfind : lookupIn gcRootHashOps h.mem.table B p with
    | some q =>
      have hq := mem_of_lookupIn hfind
      have hne : q ≠ NULL := hb.buckets.table.ne_null hq
      refine Or.inr ⟨_, B, ?_, ?_, hb.setFields h.mem.ptr
        (Function.update h.mem.ref q (h.mem.ref q + 1)), Nat.le_succ _, le_max_left _ _⟩
      · rw [Option.getD_some, if_pos hne, hb.access_record hq (by decide)]
        rfl
      · rw [Option.getD_some, if_pos hne]
        rfl
    | none =>
      rw [Option.getD_none, if_neg (not_not.mpr rfl), if_neg (not_not.mpr rfl)]
      by_cases hz : record = NULL
      · exact Or.inl ⟨if_pos hz, Or.inr (Or.inl hz)⟩
      · rw [if_neg hz, if_neg hz]
        have hfresh := hrec hz
        have hout : record ∉ B.flatten := by
          intro hm
          obtain ⟨k, hk, -⟩ := hb.record record hm
          exact absurd (hk.symm.trans hfresh) (Option.some_ne_none k)
        obtain ⟨hb₁, -⟩ : RootBlocks (h.mGCAllocBuf GC_ROOT_NODE_SIZE record) B
            (record :: B.flatten) ∧ _ := hb.alloc hz hfresh (by decide) (by decide)
        have hrecord : ∀ off len, off + len ≤ 24 →
            (h.mGCAllocBuf GC_ROOT_NODE_SIZE record).access record off len = .ok () :=
          fun off len => hb₁.access_record List.mem_cons_self
        have hmem := mGCAllocBuf_mem h GC_ROOT_NODE_SIZE record
        have hblock : buffer ≠ NULL →
            (h.mGCAllocBuf GC_ROOT_NODE_SIZE record).block buffer = none := by
          intro hb0
          rw [GCRootHeap.mGCAllocBuf, if_neg hz]
          exact (Function.update_of_ne (hbuf hb0).2 _ _).trans (hbuf hb0).1
        rw [hrecord 16 4 (by decide), Outcome.ok_bind, hrecord 8 8 (by decide), Outcome.ok_bind]
        rw [hmem]
        have hb₂ := hb₁.setFields (Function.update h.mem.ptr record p)
          (Function.update h.mem.ref record 1)
        rw [hmem] at hb₂
        rcases hb₂.insertRecord hz hout hf hnl hblock (gcRootHashOps.kv p) with
          ⟨hnull, e⟩ | ⟨h₁, h', B', e₁, e₂, e₃, e₄, hm, hb', hcount, hfew⟩
        · refine Or.inl ⟨?_, Or.inr (Or.inr hnull)⟩
          rw [e]
          rfl
        · refine Or.inr ⟨h', B', ?_, ?_, hb', hcount.le, hfew.trans ?_⟩
          · rw [e₁, Outcome.ok_bind, if_neg (not_not.mpr rfl)]
            exact e₂
          · rw [e₃, Outcome.ok_bind]
            dsimp only
            rw [if_neg (not_not.mpr rfl), e₄, hm]
            rfl
          · exact max_le_max le_rfl (max_le_max le_rfl (size_le hb.buckets))

/-- INTERNAL: the slot in which a lookup finds a record.
SOURCE: m_hash.h:363-378 -/
theorem RootBlocks.slot_after (hb : RootBlocks h B R) {l₁ l₂ : List Ptr} {a : Ptr}
    (hget : B[i]? = some (l₁ ++ a :: l₂)) : SlotOk h (slotAfter (.list i) l₁) := by
  rcases List.eq_nil_or_concat l₁ with rfl | ⟨l, b, rfl⟩
  · exact hb.slot_list (List.getElem?_eq_some_iff.mp hget).1
  · rw [List.concat_eq_append, slotAfter_append_singleton]
    exact hb.slot_next (hb.sub b (mem_flatten_of_get hget (by simp)))

/-- INTERNAL: the release of a record that is in no list.
SOURCE: m_gc_root.c:37-42; m_gc_buf.c:110-127 -/
theorem RootBlocks.free (hb : RootBlocks h B R) {a : Ptr} (ha : a ∈ R) (hnull : a ≠ NULL)
    (hout : a ∉ B.flatten) {R' : List Ptr} (hR : ∀ x, x ∈ R' ↔ x ∈ R ∧ x ≠ a) :
    ∃ h', h.mGCFreeBuf a (GC_ROOT_NODE_SIZE.setWidth 32) = .ok h' ∧ RootBlocks h' B R' ∧
      h'.mem = h.mem ∧ h'.lists = h.lists := by
  obtain ⟨size, hsize, -⟩ := hb.record a ha
  have hother : ∀ q, q ≠ a → Function.update h.block a none q = h.block q :=
    fun q hq => Function.update_of_ne hq _ _
  refine ⟨{ h with block := Function.update h.block a none }, ?_, ⟨hb.buckets, fun rn hrn => ?_,
    fun rn hrn => ?_, hb.null, fun hnz => ?_, fun q hq => ?_⟩, rfl, rfl⟩
  · rw [GCRootHeap.mGCFreeBuf, if_neg (not_or.mpr ⟨hnull, by decide⟩), hsize]
    rfl
  · refine (hR rn).mpr ⟨hb.sub rn hrn, ?_⟩
    rintro rfl
    exact hout hrn
  · obtain ⟨n, hn, hge⟩ := hb.record rn ((hR rn).mp hrn).1
    exact ⟨n, (hother rn ((hR rn).mp hrn).2).trans hn, hge⟩
  · obtain ⟨hne, hlists, n, hn, hge⟩ := hb.buffer hnz
    have hla : h.lists ≠ a := fun e => hlists (e ▸ ha)
    exact ⟨hne, fun hm => hlists ((hR _).mp hm).1, n, (hother _ hla).trans hn, hge⟩
  · have hqa : q ≠ a := by
      rintro rfl
      exact hq (Function.update_self ..)
    have hq' : h.block q ≠ none := fun e => hq ((hother q hqa).trans e)
    exact (hb.only q hq').imp_left fun hm => (hR q).mpr ⟨hm, hqa⟩

/-- INTERNAL: **`m_gc_remove_root`** stays within the blocks of the table, and gives back the
record that it removes.
SOURCE: m_gc_root.c:112-136 -/
theorem RootBlocks.removeRoot (hb : RootBlocks h B B.flatten) (hf : B.flatten.length < fuel)
    (hlen : B.flatten.length < 2 ^ 32) (hp : p ≠ NULL) :
    ∃ h' B', h.mGCRemoveRoot fuel p = .ok h' ∧ mGCRemoveRoot fuel h.mem p = .ok h'.mem ∧
      RootBlocks h' B' B'.flatten ∧ B'.flatten.length ≤ B.flatten.length ∧
      h'.mem.table.hash.nlist = h.mem.table.hash.nlist := by
  unfold GCRootHeap.mGCRemoveRoot mGCRemoveRoot
  rw [if_neg hp, if_neg hp, hb.lookupWithPrev_eq]
  rcases lookupWithPrev_spec gcRootHashOps p hb.buckets hlen hf with
    ⟨-, e⟩ | ⟨l₁, a, l₂, hget, hfind, e⟩
  · rw [e]
    exact ⟨h, B, rfl, rfl, hb, le_rfl, rfl⟩
  · have ha := mem_of_lookupIn hfind
    have hnull : a ≠ NULL := hb.buckets.table.ne_null ha
    rw [e, Outcome.ok_bind, Outcome.ok_bind]
    dsimp only
    rw [nodeValue_zero, if_pos hnull, if_pos hnull, hb.access_record ha (by decide),
      Outcome.ok_bind]
    by_cases href : h.mem.ref a = 1
    · rw [if_pos href, if_pos href]
      obtain ⟨t, e₁, ht, hnlist⟩ := removeFromPrev_spec hb.buckets hget
      obtain ⟨rest, hperm, hset⟩ := flatten_perm_of_get hget
      have hcons : B.flatten.Perm
          (a :: (B.set (bucketOf h.mem.table (gcRootHashOps.kv p)) (l₁ ++ l₂)).flatten) :=
        (hperm.trans (List.perm_middle.append_right rest)).trans ((hset (l₁ ++ l₂)).symm.cons a)
      have hnd := List.nodup_cons.mp (hcons.nodup_iff.mp hb.buckets.nodup)
      have hload : h.mem.table.load (slotAfter (.list (bucketOf h.mem.table (gcRootHashOps.kv p)))
          l₁) = .ok a := by
        obtain ⟨e₂, hc⟩ := load_list hb.buckets hget
        exact load_slotAfter e₂ hc
      have hremove := hb.removeFromPrev_eq (hb.slot_after hget) hload ha
      rw [e₁] at hremove
      have hblocks := hb.setTable ht (fun rn hrn => hcons.mem_iff.mpr (List.mem_cons_of_mem a hrn))
        hnlist
      have hleft : ∀ x, x ∈ (B.set (bucketOf h.mem.table (gcRootHashOps.kv p)) (l₁ ++ l₂)).flatten ↔
          x ∈ B.flatten ∧ x ≠ a := by
        intro x
        rw [hcons.mem_iff, List.mem_cons]
        constructor
        · intro hx
          refine ⟨Or.inr hx, ?_⟩
          rintro rfl
          exact hnd.1 hx
        · exact fun hx => hx.1.resolve_left hx.2
      obtain ⟨h', e₃, hb', hmem, -⟩ := hblocks.free ha hnull hnd.1 hleft
      refine ⟨h', _, ?_, ?_, hb', ?_, ?_⟩
      · rw [hremove]
        exact e₃
      · rw [e₁, hmem]
        rfl
      · rw [hcons.length_eq]
        exact Nat.le_succ _
      · rw [hmem]
        exact hnlist
    · rw [if_neg href, if_neg href]
      exact ⟨_, B, rfl, rfl, hb.setFields h.mem.ptr
        (Function.update h.mem.ref a (h.mem.ref a - 1)), le_rfl, rfl⟩

/-! ## Shutdown -/

/-- A call of the root API, with the answers of `malloc` that it may ask for. -/
inductive RootCall where
  | add (ptr record buffer : Ptr)
  | remove (ptr : Ptr)

namespace RootCall

/-- The effect of a call. -/
def exec (fuel : ℕ) (h : GCRootHeap) : RootCall → Outcome GCRootHeap
  | .add ptr record buffer => h.mGCAddRoot fuel ptr record buffer
  | .remove ptr => h.mGCRemoveRoot fuel ptr

/-- The call on the table without blocks. -/
def execTable (fuel : ℕ) (m : GCRootMem) : RootCall → Outcome GCRootMem
  | .add ptr record buffer => mGCAddRoot fuel m ptr record (decide (buffer ≠ NULL))
  | .remove ptr => mGCRemoveRoot fuel m ptr

/-- `malloc` answers with `NULL` or with an address that is not in use. -/
def Fresh (h : GCRootHeap) : RootCall → Prop
  | .add _ record buffer => (record ≠ NULL → h.block record = none) ∧
      (buffer ≠ NULL → h.block buffer = none ∧ buffer ≠ record)
  | .remove _ => True

/-- What an assertion stops: a call on `NULL`, or an allocation that failed. -/
def Asserts : RootCall → Prop
  | .add ptr record buffer => ptr = NULL ∨ record = NULL ∨ buffer = NULL
  | .remove ptr => ptr = NULL

end RootCall

/-- The invariant: the blocks are those of the table, and as many as the calls allow. -/
structure RootHeapInv (l : List RootCall) (h : GCRootHeap) (B : List (List Ptr)) : Prop where
  blocks : RootBlocks h B B.flatten
  records : B.flatten.length ≤ l.length
  few : h.mem.table.hash.nlist.toNat ≤ max 9 l.length

variable {l calls : List RootCall} {call : RootCall} {s : ℕ → GCRootHeap} {n : ℕ}

/-- INTERNAL: a call that `malloc` answers returns or fails an assertion, and keeps the
invariant. -/
theorem RootHeapInv.exec (h : RootHeapInv l h' B) (hl : l.length < 2 ^ 29) (hc : call.Fresh h')
    (hf : B.flatten.length < fuel) :
    (call.exec fuel h' = .error .assertFailed ∧ call.Asserts) ∨
      ∃ h'' B', call.exec fuel h' = .ok h'' ∧ call.execTable fuel h'.mem = .ok h''.mem ∧
        RootHeapInv (l ++ [call]) h'' B' := by
  have hsize := h.records
  have hlists := h.few
  have hlen : (l ++ [call]).length = l.length + 1 := by simp
  cases call with
  | add ptr record buffer =>
    rcases h.blocks.addRoot (p := ptr) hf (by omega) (by omega) hc.1 hc.2 with
      hfail | ⟨h'', B', e, e', hb', hcount, hfew⟩
    · exact Or.inl hfail
    · refine Or.inr ⟨h'', B', e, e', hb', ?_, ?_⟩
      · rw [hlen]
        omega
      · rw [hlen]
        omega
  | remove ptr =>
    by_cases hptr : ptr = NULL
    · exact Or.inl ⟨if_pos hptr, hptr⟩
    · obtain ⟨h'', B', e, e', hb', hcount, hnl⟩ := h.blocks.removeRoot hf (by omega) hptr
      refine Or.inr ⟨h'', B', e, e', hb', ?_, ?_⟩
      · rw [hlen]
        omega
      · rw [hnl, hlen]
        omega

end Ming.Analysis
