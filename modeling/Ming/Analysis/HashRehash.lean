import Ming.Analysis.HashRuns
import Ming.Foundation.Runs

/-!
# The work of rehashing

A table is filled by a lookup, a resize and an insertion, as the comment of
`m_hash_insert_with_kv` shows and `m_gc_add_root` does. A resize moves all nodes, but it is due
only when there are three nodes for each list, and leaves at least one list for each node, so
two nodes out of three have been inserted since the resize before. A counter of the moved nodes
is carried beside the table.
-/

set_option autoImplicit false

namespace Ming.Analysis

open Ming.Foundation Ming.Model Ming.Interface

variable {K : Type} {ops : MHashOps K} {m m' : HashMem} {S : List Ptr} {B : List (List Ptr)}
variable {next : Ptr → Ptr} {nsize : BitVec 32} {p : Ptr} {fuel moved : ℕ} {alloc : Bool}

/-! ## Counting -/

/-- `mHashResizeChain`, which counts the nodes that it moves. -/
def movingChain (ops : MHashOps K) (nsize : BitVec 32) :
    ℕ → Ptr → (List Ptr × (Ptr → Ptr)) × ℕ → Outcome ((List Ptr × (Ptr → Ptr)) × ℕ)
  | 0, _, _ => .error .outOfFuel
  | fuel + 1, node, ((nbuf, next), moved) =>
    if node = NULL then .ok ((nbuf, next), moved)
    else do
      let nnext := next node
      let i ← umod (ops.kv (ops.getKey node)) nsize
      match nbuf[i.toNat]? with
      | none => .error .outOfBounds
      | some head =>
        movingChain ops nsize fuel nnext
          ((nbuf.set i.toNat node, Function.update next node head), moved + 1)

/-- `mHashResize`, which counts the nodes that it moves. -/
def movingResize (fuel : ℕ) (m : HashMem) (ops : MHashOps K) (alloc : Bool) (moved : ℕ) :
    Outcome ((HashMem × MResult) × ℕ) :=
  if m.hash.nlist * 3 ≤ m.hash.size then
    let nsize := if m.hash.size > 9 then m.hash.size else 9
    if !alloc then pure ((m, .errNoMem), moved)
    else do
      let nbuf := List.replicate nsize.toNat NULL
      let st ← (List.range m.hash.nlist.toNat).foldlM (fun st pos => do
        let node ← m.load (.list pos)
        movingChain ops nsize fuel node st) ((nbuf, m.next), moved)
      pure ((⟨⟨st.1.1, m.hash.size, nsize⟩, st.1.2⟩, .ok), st.2)
  else pure ((m, .ok), moved)

/-- INTERNAL: the nodes of one list.
SOURCE: m_hash.h:555-560 -/
theorem movingChain_eq {nbuf l : List Ptr} (hc : Chain next NULL p l) (hnd : l.Nodup) :
    movingChain ops nsize fuel p ((nbuf, next), moved) =
      (mHashResizeChain ops nsize fuel p (nbuf, next)).map fun st => (st, moved + l.length) := by
  induction fuel generalizing p l nbuf next moved with
  | zero => rfl
  | succ fuel ih =>
    rw [movingChain, mHashResizeChain]
    cases l with
    | nil =>
      obtain rfl : p = NULL := hc
      rw [if_pos rfl, if_pos rfl]
      rfl
    | cons a l =>
      obtain ⟨rfl, hp, hc⟩ := hc
      obtain ⟨hpl, hnd⟩ := List.nodup_cons.mp hnd
      rw [if_neg hp, if_neg hp]
      dsimp only
      cases umod (ops.kv (ops.getKey p)) nsize with
      | error f => rfl
      | ok i =>
        rw [Outcome.ok_bind, Outcome.ok_bind]
        cases nbuf[i.toNat]? with
        | none => rfl
        | some head =>
          refine (ih (hc.update_of_notMem hpl) hnd).trans ?_
          rw [List.length_cons, Nat.add_right_comm, Nat.add_assoc]

/-- INTERNAL: the lists one after the other.
SOURCE: m_hash.h:555 -/
theorem movingLoop_eq (ops : MHashOps K) (h : Buckets m B) (hns : nsize ≠ 0)
    (hf : B.flatten.length < fuel) (moved k : ℕ) (hk : k ≤ B.length) :
    (List.range k).foldlM (fun st pos => do
        let node ← m.load (.list pos)
        movingChain ops nsize fuel node st) ((List.replicate nsize.toNat NULL, m.next), moved) =
      ((List.range k).foldlM (fun st pos => do
        let node ← m.load (.list pos)
        mHashResizeChain ops nsize fuel node st) (List.replicate nsize.toNat NULL, m.next)).map
          fun st => (st, moved + (B.take k).flatten.length) := by
  induction k with
  | zero => rfl
  | succ k ih =>
    obtain ⟨nbuf, next, NB, e, -, -, -, -, hframe⟩ :=
      resizeLoop_spec ops h hns hf k (Nat.le_of_succ_le hk)
    obtain ⟨head, l, hl, hB, hc⟩ := h.table.at_pos (Nat.lt_of_succ_le hk)
    have htake : (B.take (k + 1)).flatten = (B.take k).flatten ++ l := by
      rw [List.take_add_one, hB]
      simp
    -- the loop before has not touched list `k`
    have hnd : ((B.take k).flatten ++ l).Nodup := by
      have hnd := h.nodup
      rw [← List.take_append_drop (k + 1) B, List.flatten_append, htake] at hnd
      exact (List.nodup_append.mp hnd).1
    obtain ⟨-, hndl, hdisj⟩ := List.nodup_append.mp hnd
    have hc' : Chain next NULL head l := hc.congr fun q hq =>
      hframe q fun hqt => hdisj q hqt q hq rfl
    have hload : m.load (.list k) = .ok head := by simp only [HashMem.load, hl]
    rw [List.range_succ, List.foldlM_append, List.foldlM_append, ih (Nat.le_of_succ_le hk), e,
      Except.map, Outcome.ok_bind, Outcome.ok_bind, List.foldlM_cons, List.foldlM_cons, hload,
      Outcome.ok_bind, Outcome.ok_bind, movingChain_eq hc' hndl, htake, List.length_append,
      ← Nat.add_assoc]
    cases mHashResizeChain ops nsize fuel head (nbuf, next) <;> rfl

/-- INTERNAL: a resize moves all nodes or none.
SOURCE: m_hash.h:537-570 -/
theorem movingResize_eq (ops : MHashOps K) (h : Buckets m B) (hf : B.flatten.length < fuel) :
    movingResize fuel m ops alloc moved = (mHashResize fuel m ops alloc).map fun r =>
      (r, if m.hash.nlist * 3 ≤ m.hash.size ∧ alloc = true then moved + B.flatten.length
        else moved) := by
  rw [movingResize, mHashResize]
  by_cases hle : m.hash.nlist * 3 ≤ m.hash.size
  · rw [if_pos hle, if_pos hle]
    cases alloc with
    | false =>
      rw [if_neg (show ¬ (_ ∧ false = true) from fun hx => Bool.noConfusion hx.2)]
      rfl
    | true =>
      rw [if_pos (show m.hash.nlist * 3 ≤ m.hash.size ∧ true = true from ⟨hle, rfl⟩)]
      dsimp only
      have hns : (if m.hash.size > 9 then m.hash.size else 9) ≠ 0 := by
        split_ifs with h9
        · intro e
          rw [e] at h9
          exact absurd h9 (by decide)
        · decide
      have htrue : ¬ (!true) = true := by decide
      obtain ⟨nbuf, next, NB, e, -⟩ := resizeLoop_spec ops h hns hf B.length le_rfl
      rw [if_neg htrue, if_neg htrue, h.nlist,
        movingLoop_eq ops h hns hf moved B.length le_rfl, List.take_length, e]
      rfl
  · rw [if_neg hle, if_neg hle, if_neg fun hx => hle hx.1]
    rfl

/-- INTERNAL: the two counters behind a resize.
SOURCE: m_hash.h:540-566 -/
theorem resize_counters {r : MResult} (e : mHashResize fuel m ops alloc = .ok (m', r)) :
    m'.hash.size = m.hash.size ∧
      m'.hash.nlist = if m.hash.nlist * 3 ≤ m.hash.size ∧ alloc = true then
        if m.hash.size > 9 then m.hash.size else 9 else m.hash.nlist := by
  rw [mHashResize] at e
  by_cases hle : m.hash.nlist * 3 ≤ m.hash.size
  · rw [if_pos hle] at e
    cases alloc with
    | false =>
      obtain ⟨rfl, -⟩ := Prod.mk.inj (Except.ok.inj e)
      exact ⟨rfl, (if_neg fun hx => Bool.noConfusion hx.2).symm⟩
    | true =>
      dsimp only at e
      rw [if_neg (by decide)] at e
      obtain ⟨st, -, e⟩ := Outcome.bind_eq_ok.mp e
      obtain ⟨rfl, -⟩ := Prod.mk.inj (Except.ok.inj e)
      exact ⟨rfl, (if_pos ⟨hle, rfl⟩).symm⟩
  · rw [if_neg hle] at e
    obtain ⟨rfl, -⟩ := Prod.mk.inj (Except.ok.inj e)
    exact ⟨rfl, (if_neg fun hx => hle hx.1).symm⟩

/-! ## Runs -/

/-- What a program does with a table. -/
inductive HashCall (K : Type) where
  | put (node : Ptr) (alloc : Bool)
  | remove (key : K)

namespace HashCall

/-- A node is put. -/
def isPut : HashCall K → Bool
  | .put _ _ => true
  | .remove _ => false

/-- A node is put while `alloc_buf` fails. -/
def isStarved : HashCall K → Bool
  | .put _ alloc => !alloc
  | .remove _ => false

/-- One call; a node is put as the comment of `m_hash_insert_with_kv` shows.
SOURCE: m_hash.h:463-475; m_gc_root.c:89-106 -/
def exec (ops : MHashOps K) (fuel : ℕ) (m : HashMem) : HashCall K → Outcome HashMem
  | .put node alloc => do
    let found ← mHashLookupWithKv fuel m (ops.getKey node) ops
    if found.1 ≠ NULL then pure m
    else do
      let r ← mHashResize fuel m ops alloc
      mHashInsertWithKv r.1 node found.2
  | .remove key => do
    let r ← mHashRemove fuel m key ops
    pure r.1

/-- One call on a table and the counter of the moved nodes. -/
def count (ops : MHashOps K) (fuel : ℕ) (st : HashMem × ℕ) : HashCall K → Outcome (HashMem × ℕ)
  | .put node alloc => do
    let found ← mHashLookupWithKv fuel st.1 (ops.getKey node) ops
    if found.1 ≠ NULL then pure st
    else do
      let r ← movingResize fuel st.1 ops alloc st.2
      let m ← mHashInsertWithKv r.1.1 node found.2
      pure (m, r.2)
  | .remove key => do
    let r ← mHashRemove fuel st.1 key ops
    pure (r.1, st.2)

end HashCall

/-- One call that returns. -/
def HashCallStep (ops : MHashOps K) (st : HashMem × ℕ) (call : HashCall K) (st' : HashMem × ℕ) :
    Prop := ∃ walk, ∀ fuel ≥ walk, call.count ops fuel st = .ok st'

/-- The runs from `m_hash_init`. -/
def HashCallRun (ops : MHashOps K) : List (HashCall K) → (ℕ → HashMem × ℕ) → Prop :=
  Run (fun st => ∃ m, st = (mHashInit m, 0)) (HashCallStep ops)

/-- The invariant: three nodes for each list, apart from those that were put while `alloc_buf`
failed, and two nodes for each three moves still to come. -/
structure RehashInv (ops : MHashOps K) (l : List (HashCall K)) (st : HashMem × ℕ) (S : List Ptr)
    (B : List (List Ptr)) : Prop where
  table : HashInv ops st.1 S B
  nodes : S.length ≤ l.countP HashCall.isPut
  lists : st.1.hash.nlist.toNat ≤ max 9 (l.countP HashCall.isPut)
  load : S.length ≤ 3 * st.1.hash.nlist.toNat + l.countP HashCall.isStarved
  moves : 2 * st.2 + 3 * (S.length - st.1.hash.nlist.toNat) ≤ 3 * l.countP HashCall.isPut

variable {l calls : List (HashCall K)} {call : HashCall K} {st st' : HashMem × ℕ}
variable {s : ℕ → HashMem × ℕ} {n : ℕ} {node : Ptr} {key : K}

/-- INTERNAL: the size counts the nodes. -/
theorem HashInv.size_toNat (h : HashInv ops m S B) : m.hash.size.toNat = S.length := by
  rw [h.buckets.size, BitVec.toNat_ofNat, h.perm.length_eq, Nat.mod_eq_of_lt h.bound]

/-- INTERNAL: the test of a resize, where the product fits.
SOURCE: m_hash.h:544 -/
theorem resize_due {a b : BitVec 32} (ha : 3 * a.toNat < 2 ^ 32) :
    a * 3 ≤ b ↔ 3 * a.toNat ≤ b.toNat := by
  rw [BitVec.le_def, BitVec.toNat_mul, Nat.mul_comm]
  change 3 * a.toNat % 2 ^ 32 ≤ _ ↔ _
  rw [Nat.mod_eq_of_lt ha]

/-- INTERNAL: an insertion that returns.
SOURCE: m_hash.h:480-496 -/
theorem insert_returns {kv : BitVec 32} (e : mHashInsertWithKv m node kv = .ok m') :
    node ≠ NULL ∧ m.hash.nlist ≠ 0 ∧ m'.hash.nlist = m.hash.nlist := by
  rw [mHashInsertWithKv] at e
  by_cases hn : node = NULL
  · rw [if_pos hn] at e
    cases e
  · rw [if_neg hn] at e
    by_cases hnl : m.hash.nlist = 0
    · rw [if_pos hnl] at e
      cases e
    · rw [if_neg hnl] at e
      obtain ⟨pos, -, e⟩ := Outcome.bind_eq_ok.mp e
      obtain ⟨head, -, e⟩ := Outcome.bind_eq_ok.mp e
      obtain ⟨m₁, e₁, e⟩ := Outcome.bind_eq_ok.mp e
      obtain ⟨m₂, e₂, e⟩ := Outcome.bind_eq_ok.mp e
      obtain rfl := Except.ok.inj e
      obtain rfl := Except.ok.inj e₁
      simp only [HashMem.store] at e₂
      split_ifs at e₂
      obtain rfl := Except.ok.inj e₂
      exact ⟨hn, hnl, rfl⟩

/-- INTERNAL: a node is put. -/
theorem RehashInv.put (hl : LawfulHash ops.kv ops.equal) (h : RehashInv ops l st S B)
    (hput : l.countP HashCall.isPut < 0x55555555) (hf : S.length < fuel)
    (e : (HashCall.put node alloc).count ops fuel st = .ok st') :
    ∃ S' B', RehashInv ops (l ++ [.put node alloc]) st' S' B' := by
  have hin := h.table
  have hflat := hin.length_lt hf
  have hnodes := h.nodes
  have hlists := h.lists
  have hload := h.load
  have hmoves := h.moves
  have hcount : (l ++ [HashCall.put node alloc]).countP HashCall.isPut =
      l.countP HashCall.isPut + 1 := by
    rw [List.countP_append]
    rfl
  have hstarved : (l ++ [HashCall.put node alloc]).countP HashCall.isStarved =
      l.countP HashCall.isStarved + if alloc then 0 else 1 := by
    rw [List.countP_append]
    cases alloc <;> rfl
  rw [HashCall.count, lookupWithKv_eq hin.buckets (hin.length_lt hin.bound) hflat,
    Outcome.ok_bind] at e
  dsimp only at e
  cases hfind : lookupIn ops st.1 B (ops.getKey node) with
  | some q =>
    have hq := hin.ne_null ((hin.lookupIn_iff hl _ q).mp hfind).1
    rw [hfind, Option.getD_some, if_pos hq] at e
    obtain rfl := Except.ok.inj e
    refine ⟨S, B, hin, ?_, ?_, ?_, ?_⟩
    · omega
    · omega
    · omega
    · omega
  | none =>
    have habs := (hin.lookupIn_none hl _).mp hfind
    obtain ⟨m₁, B₁, r, e₁, h₁⟩ := hin.resize alloc hf
    obtain ⟨hsize, hnlist⟩ := resize_counters e₁
    rw [hfind, Option.getD_none, if_neg (not_not.mpr rfl), movingResize_eq ops hin.buckets hflat,
      e₁, Except.map, Outcome.ok_bind] at e
    obtain ⟨m₂, e₂, e⟩ := Outcome.bind_eq_ok.mp e
    obtain ⟨hn, hnl, hnlist₂⟩ := insert_returns e₂
    obtain ⟨m₃, B₂, e₃, h₂⟩ := h₁.insertWithKv hl hn habs hnl (by omega)
    obtain rfl := Except.ok.inj (e₂.symm.trans e₃)
    obtain rfl := Except.ok.inj e
    have hdue := resize_due (b := st.1.hash.size) (show 3 * st.1.hash.nlist.toNat < 2 ^ 32 by omega)
    rw [hin.size_toNat] at hdue
    have hlen : (node :: S).length = S.length + 1 := List.length_cons
    by_cases hmove : st.1.hash.nlist * 3 ≤ st.1.hash.size ∧ alloc = true
    · -- all nodes are moved
      have hnine : m₂.hash.nlist.toNat = max 9 S.length := by
        rw [hnlist₂, hnlist, if_pos hmove, ← hin.size_toNat]
        split_ifs with h9
        · exact (max_eq_right (le_of_lt h9)).symm
        · exact (max_eq_left (not_lt.mp h9)).symm
      have hthree := hdue.mp hmove.1
      have hflen : B.flatten.length = S.length := hin.perm.length_eq
      refine ⟨node :: S, B₂, h₂, ?_, ?_, ?_, ?_⟩
      · omega
      · dsimp only
        omega
      · dsimp only
        omega
      · dsimp only
        rw [if_pos hmove]
        omega
    · have hsame : m₂.hash.nlist.toNat = st.1.hash.nlist.toNat := by
        rw [hnlist₂, hnlist, if_neg hmove]
      refine ⟨node :: S, B₂, h₂, ?_, ?_, ?_, ?_⟩
      · omega
      · dsimp only
        omega
      · dsimp only
        cases alloc with
        | true =>
          have hnot : ¬ 3 * st.1.hash.nlist.toNat ≤ S.length := fun hx =>
            hmove ⟨hdue.mpr hx, rfl⟩
          omega
        | false =>
          rw [if_neg Bool.false_ne_true] at hstarved
          omega
      · dsimp only
        rw [if_neg hmove]
        omega

/-- INTERNAL: a key is removed. -/
theorem RehashInv.remove (hl : LawfulHash ops.kv ops.equal) (h : RehashInv ops l st S B)
    (hf : S.length < fuel) (e : (HashCall.remove key).count ops fuel st = .ok st') :
    ∃ S' B', RehashInv ops (l ++ [HashCall.remove key]) st' S' B' := by
  have hin := h.table
  have hnodes := h.nodes
  have hload := h.load
  have hmoves := h.moves
  have hcount : (l ++ [HashCall.remove key]).countP HashCall.isPut =
      l.countP HashCall.isPut := by
    rw [List.countP_append]
    rfl
  have hstarved : (l ++ [HashCall.remove key]).countP HashCall.isStarved =
      l.countP HashCall.isStarved := by
    rw [List.countP_append]
    rfl
  rw [HashCall.count] at e
  rcases remove_spec ops key hin.buckets (hin.length_lt hin.bound) (hin.length_lt hf) with
    ⟨-, e₁⟩ | ⟨l₁, a, l₂, m₁, hB, ha, e₁, hbuckets, hnl⟩
  · rw [e₁, Outcome.ok_bind] at e
    obtain rfl := Except.ok.inj e
    refine ⟨S, B, hin, hcount ▸ hnodes, hcount ▸ h.lists, hstarved ▸ hload, hcount ▸ hmoves⟩
  · rw [e₁, Outcome.ok_bind] at e
    obtain rfl := Except.ok.inj e
    have hle : (eraseKey ops key S).length ≤ S.length := List.length_filter_le _ _
    refine ⟨eraseKey ops key S, _, hin.unlink hl hB ha hbuckets hnl, ?_, ?_, ?_, ?_⟩
    · omega
    · rw [hnl, hcount]
      exact h.lists
    · rw [hnl]
      omega
    · rw [hnl]
      omega

/-- INTERNAL: the counter does not change what a call does. -/
theorem RehashInv.count_fst (h : RehashInv ops l st S B) (hf : S.length < fuel)
    (call : HashCall K) : (call.count ops fuel st).map Prod.fst = call.exec ops fuel st.1 := by
  have hflat := h.table.length_lt hf
  cases call with
  | put node alloc =>
    rw [HashCall.count, HashCall.exec, movingResize_eq ops h.table.buckets hflat]
    cases mHashLookupWithKv fuel st.1 (ops.getKey node) ops with
    | error f => rfl
    | ok found =>
      rw [Outcome.ok_bind, Outcome.ok_bind]
      by_cases hne : found.1 ≠ NULL
      · rw [if_pos hne, if_pos hne]
        rfl
      · rw [if_neg hne, if_neg hne]
        cases mHashResize fuel st.1 ops alloc with
        | error f => rfl
        | ok r =>
          change Except.map Prod.fst (mHashInsertWithKv r.1 node found.2 >>= _) = _
          rw [Outcome.ok_bind]
          cases mHashInsertWithKv r.1 node found.2 <;> rfl
  | remove key =>
    rw [HashCall.count, HashCall.exec]
    cases mHashRemove fuel st.1 key ops <;> rfl

/-- INTERNAL: the invariant over a whole run. -/
theorem rehashInv_run (hl : LawfulHash ops.kv ops.equal) (h : HashCallRun ops calls s)
    (hcalls : calls.countP HashCall.isPut ≤ 0x55555555) (hn : n ≤ calls.length) :
    ∃ S B, RehashInv ops (calls.take n) (s n) S B := by
  have hinv := Run.inv (fun l st => l.countP HashCall.isPut ≤ 0x55555555 →
      ∃ S B, RehashInv ops l st S B)
    (by
      rintro _ ⟨m, rfl⟩ -
      obtain ⟨B, hB⟩ := hashRun_inv hl (HashRun.init m ops.getKey)
      exact ⟨[], B, hB, le_rfl, Nat.zero_le _, Nat.zero_le _, le_rfl⟩)
    (by
      rintro l st call st' hinv ⟨walk, hwalk⟩ hle
      rw [List.countP_append] at hle
      obtain ⟨S, B, hB⟩ := hinv (by omega)
      have e := hwalk (max walk (S.length + 1)) (le_max_left _ _)
      have hf := le_max_right walk (S.length + 1)
      cases call with
      | put node alloc => exact hB.put hl hle hf e
      | remove key => exact hB.remove hl hf e) h n hn
  exact hinv ((List.take_sublist n calls).countP_le.trans hcalls)

/-! ## Runs that were executed -/

/-- INTERNAL: more fuel, in one list.
SOURCE: m_hash.h:555-560 -/
theorem movingChain_approx (k : ℕ) (p : Ptr) (st : (List Ptr × (Ptr → Ptr)) × ℕ) :
    Outcome.Approx (movingChain ops nsize k p st) (movingChain ops nsize (k + 1) p st) := by
  induction k generalizing p st with
  | zero => exact .outOfFuel _
  | succ k ih =>
    rw [movingChain, movingChain]
    refine .ite (.refl _) (.bind (.refl _) fun i => ?_)
    cases st.1.1[i.toNat]? with
    | none => exact .refl _
    | some head => exact ih _ _

/-- INTERNAL: more fuel, in a resize.
SOURCE: m_hash.h:537-570 -/
theorem movingResize_approx (alloc : Bool) (moved k : ℕ) :
    Outcome.Approx (movingResize k m ops alloc moved) (movingResize (k + 1) m ops alloc moved) :=
  .ite (.ite (.refl _) (.bind (.foldlM (fun _ _ => .bind (.refl _) fun _ =>
    movingChain_approx _ _ _) _ _) fun _ => .refl _)) (.refl _)

/-- INTERNAL: more fuel, in a call. -/
theorem HashCall.count_approx (call : HashCall K) (st : HashMem × ℕ) (k : ℕ) :
    Outcome.Approx (call.count ops k st) (call.count ops (k + 1) st) := by
  cases call with
  | put node alloc =>
    exact .bind (lookupWithKv_approx k) fun _ => .ite (.refl _)
      (.bind (movingResize_approx _ _ _) fun _ => .refl _)
  | remove key => exact .bind (hashRemove_approx k) fun _ => .refl _

/-- INTERNAL: calls that were executed one after the other are a run. -/
theorem callRun_of_foldlM {fuel : ℕ} {st st' : HashMem × ℕ}
    (e : calls.foldlM (fun st call => HashCall.count ops fuel st call) st = .ok st') :
    ∃ s, Run (fun x => x = st) (HashCallStep ops) calls s ∧ s calls.length = st' := by
  induction calls generalizing st with
  | nil => exact ⟨_, .nil rfl, Except.ok.inj e⟩
  | cons call calls ih =>
    rw [List.foldlM_cons] at e
    obtain ⟨st₁, e₁, e₂⟩ := Outcome.bind_eq_ok.mp e
    obtain ⟨s, hs, hlast⟩ := ih e₂
    have hstep : HashCallStep ops st call st₁ :=
      ⟨fuel, fun k hk => (Outcome.Approx.of_succ (call.count_approx st) hk).eq_ok e₁⟩
    exact ⟨_, .cons rfl hstep hs, hlast⟩

/-- 27 nodes that fill nine lists, one that is removed and two more, of which the second
finds three nodes for each list. -/
def filling : List (HashCall Ptr) :=
  (List.range 27).map (fun i => .put (BitVec.ofNat 64 (8 * i + 8)) true) ++
    [.remove 16, .put 224 true, .put 232 true]

/-- **Rehashing takes constant amortized time and keeps the lists short.** In every run of calls
that look a key up, resize and insert a node, or remove a key, with up to 0x55555555 insertions
and allocations that may fail, the nodes moved so far are at most three for every two
insertions, and there are at most three nodes for each list, apart from those that were put
while the allocation failed. The counter of the moved nodes does not change what a call does.
SOURCE: m_hash.h:463-496, 537-570; m_gc_root.c:89-106 -/
theorem rehash_amortized (hl : LawfulHash ops.kv ops.equal) (h : HashCallRun ops calls s)
    (hcalls : calls.countP HashCall.isPut ≤ 0x55555555) (hn : n ≤ calls.length) :
    2 * (s n).2 ≤ 3 * (calls.take n).countP HashCall.isPut ∧
      (∃ B, Buckets (s n).1 B ∧
        B.flatten.length ≤ 3 * B.length + (calls.take n).countP HashCall.isStarved) ∧
      ∀ call : HashCall K, ∃ walk, ∀ fuel ≥ walk,
        (call.count ops fuel (s n)).map Prod.fst = call.exec ops fuel (s n).1 := by
  obtain ⟨S, B, hB⟩ := rehashInv_run hl h hcalls hn
  have hmoves := hB.moves
  refine ⟨by omega, ⟨B, hB.table.buckets, ?_⟩, fun call => ?_⟩
  · rw [hB.table.perm.length_eq, ← hB.table.buckets.nlist]
    exact hB.load
  · exact ⟨S.length + 1, fun fuel hf => hB.count_fst hf call⟩

/-- The run moves the 27 nodes that are left. -/
theorem rehash_amortized_moved :
    ∃ s, HashCallRun ⟨id, mPtrHashKvFunc, mPtrHashEqualFunc⟩ filling s ∧ (s 30).2 = 27 ∧
      2 * (s 30).2 ≤ 3 * 29 := by
  let ops : MHashOps Ptr := ⟨id, mPtrHashKvFunc, mPtrHashEqualFunc⟩
  let m : HashMem := mHashInit ⟨⟨[], 0, 0⟩, id⟩
  have hmoved : (filling.foldlM (fun st call => HashCall.count ops 28 st call) (m, 0)).check
      (fun st => st.2 = 27) = true := by decide +kernel
  obtain ⟨st, e, hst⟩ := Outcome.exists_of_check hmoved
  obtain ⟨s, hs, hlast⟩ := callRun_of_foldlM e
  have hrun : HashCallRun ops filling s := ⟨⟨_, hs.init⟩, hs.step⟩
  refine ⟨s, hrun, ?_, (rehash_amortized ptrHash_lawful hrun (by decide) le_rfl).1⟩
  exact (congrArg Prod.snd hlast).trans (of_decide_eq_true hst)

end Ming.Analysis
