import Mathlib.Data.Set.Insert
import Ming.Analysis.HashRuns
import Ming.Foundation.Runs
import Ming.Model.GCRoot

/-!
# The root set as a reference-counted multiset

`gc_root_get_key` returns the address of the node record instead of the registered pointer,
so a lookup compares a pointer with node addresses. A registered pointer is never found
again: a second `m_gc_add_root` makes a second node and `m_gc_remove_root` finds nothing.
The root set is right as long as no pointer is touched again after it has been added, and
no removal happens to name the address of a node that hangs where the lookup looks.
-/

set_option autoImplicit false

namespace Ming.Analysis

open Ming.Foundation Ming.Model Ming.Interface

/-- A call of the root API. -/
inductive RootOp where
  | add (ptr : Ptr)
  | remove (ptr : Ptr)
  deriving DecidableEq

/-- The outstanding count of `p`; a removal at count zero does nothing. -/
def rootCount (p : Ptr) (l : List RootOp) : ℕ :=
  l.foldl (fun c op => match op with
    | .add q => if q = p then c + 1 else c
    | .remove q => if q = p then c - 1 else c) 0

/-- The root set holds what was registered: one node with the count of every pointer whose
count is positive, and no node for the others. -/
def RootOk (l : List RootOp) (m : GCRootMem) : Prop :=
  ∃ B, Buckets m.table B ∧ ∀ p,
    (rootCount p l = 0 → ∀ rn ∈ B.flatten, m.ptr rn ≠ p) ∧
    (0 < rootCount p l → ∃ rn, B.flatten.filter (fun rn => m.ptr rn = p) = [rn] ∧
      (m.ref rn).toNat = rootCount p l)

/-- One call. Root nodes are allocated in `N`, which has no registered pointer, and never at
an address that is in use. -/
inductive RootStep (N : Set Ptr) : GCRootMem → RootOp → GCRootMem → Prop
  | add {m m' : GCRootMem} {n : ℕ} {ptr rn : Ptr} : ptr ∉ N → rn ∈ N → rn ≠ NULL →
      (∀ B, Buckets m.table B → rn ∉ B.flatten) → mGCAddRoot n m ptr rn true = .ok m' →
      RootStep N m (.add ptr) m'
  | remove {m m' : GCRootMem} {n : ℕ} {ptr : Ptr} : mGCRemoveRoot n m ptr = .ok m' →
      RootStep N m (.remove ptr) m'

/-- The runs from `gc_root_hash_startup`. -/
def RootRun (N : Set Ptr) : List RootOp → (ℕ → GCRootMem) → Prop :=
  Run (fun m => ∃ m₀, m = gcRootHashStartup m₀) (RootStep N)

/-- A node at address `p` hangs in the list that a lookup of `p` walks. -/
def RootAt (m : GCRootMem) (p : Ptr) : Prop :=
  m.table.hash.size ≠ 0 ∧ ∃ B l, Buckets m.table B ∧
    B[bucketOf m.table (mPtrHashKvFunc p)]? = some l ∧ p ∈ l

/-- The condition on a call: its pointer has not been added before, and a removal does not
name a node that its lookup walks over. -/
def RootCond (l : List RootOp) (m : GCRootMem) : RootOp → Prop
  | .add p => RootOp.add p ∉ l
  | .remove p => RootOp.add p ∉ l ∧ ¬ RootAt m p

/-- The invariant while the condition is met: every node has count one and belongs to the
pointer that was added for it. -/
structure RootInv (N : Set Ptr) (l : List RootOp) (m : GCRootMem) (B : List (List Ptr)) :
    Prop where
  buckets : Buckets m.table B
  node : ∀ rn ∈ B.flatten, rn ∈ N ∧ m.ref rn = 1
  added : ∀ p, RootOp.add p ∈ l → p ∉ N ∧ rootCount p l = 1 ∧
    ∃ rn, B.flatten.filter (fun rn => m.ptr rn = p) = [rn]
  absent : ∀ p, RootOp.add p ∉ l → rootCount p l = 0 ∧ ∀ rn ∈ B.flatten, m.ptr rn ≠ p

variable {N : Set Ptr} {l : List RootOp} {m m' : GCRootMem} {B : List (List Ptr)} {p rn : Ptr}

/-- INTERNAL: the count after one more registration. -/
theorem rootCount_add (p q : Ptr) (l : List RootOp) :
    rootCount p (l ++ [.add q]) = if q = p then rootCount p l + 1 else rootCount p l := by
  simp [rootCount, List.foldl_append]

/-- INTERNAL: the count after a removal. -/
theorem rootCount_remove (p q : Ptr) (l : List RootOp) :
    rootCount p (l ++ [.remove q]) = if q = p then rootCount p l - 1 else rootCount p l := by
  simp [rootCount, List.foldl_append]

/-- INTERNAL: the invariant gives the property. -/
theorem RootInv.ok (h : RootInv N l m B) : RootOk l m := by
  refine ⟨B, h.buckets, fun p => ?_⟩
  by_cases hp : RootOp.add p ∈ l
  · obtain ⟨-, hc, rn, hrn⟩ := h.added p hp
    refine ⟨fun h0 => by omega, fun _ => ⟨rn, hrn, ?_⟩⟩
    have hmem : rn ∈ B.flatten.filter (fun rn => m.ptr rn = p) := by rw [hrn]; simp
    rw [(h.node rn (List.mem_filter.mp hmem).1).2, hc]
    rfl
  · obtain ⟨hc, hnone⟩ := h.absent p hp
    exact ⟨fun _ => hnone, fun h0 => by omega⟩

/-- INTERNAL: a registered pointer is not found in its own table.
SOURCE: m_gc_root.c:31-35 -/
theorem root_lookups (hB : Buckets m.table B)
    (hp : ∀ l, B[bucketOf m.table (mPtrHashKvFunc p)]? = some l → p ∉ l) {n : ℕ}
    (hn : B.flatten.length < n) :
    mHashLookupWithKv n m.table p gcRootHashOps = .ok (NULL, mPtrHashKvFunc p) ∧
      mHashLookupWithPrev n m.table p gcRootHashOps = .ok (NULL, none) := by
  refine lookups_of_absent hB (fun b hb rn hrn => ?_) hn
  refine decide_eq_false ?_
  rintro rfl
  exact hp b hb hrn

/-! ## The two calls -/

/-- INTERNAL: more fuel, in a registration.
SOURCE: m_gc_root.c:79-110 -/
theorem addRoot_approx (n : ℕ) (buf : Ptr) (alloc : Bool) :
    Outcome.Approx (mGCAddRoot n m p buf alloc) (mGCAddRoot (n + 1) m p buf alloc) :=
  .ite (.refl _) (.bind (lookupWithKv_approx n) fun _ => .ite (.refl _) (.ite (.refl _)
    (.bind (hashResize_approx _ n) fun _ => .refl _)))

/-- INTERNAL: more fuel, in a removal.
SOURCE: m_gc_root.c:112-136 -/
theorem removeRoot_approx (n : ℕ) :
    Outcome.Approx (mGCRemoveRoot n m p) (mGCRemoveRoot (n + 1) m p) :=
  .ite (.refl _) (.bind (lookupWithPrev_approx n) fun _ => .refl _)

/-- INTERNAL: `m_gc_add_root` of a pointer that is not found makes a new node.
SOURCE: m_gc_root.c:79-110 -/
theorem addRoot_spec (hB : Buckets m.table B) (hptr : p ≠ NULL)
    (hp : ∀ l, B[bucketOf m.table (mPtrHashKvFunc p)]? = some l → p ∉ l) (hrn : rn ≠ NULL)
    (hfresh : rn ∉ B.flatten) {n : ℕ} (hn : B.flatten.length < n) :
    ∃ m' B', mGCAddRoot n m p rn true = .ok m' ∧ Buckets m'.table B' ∧
      B'.flatten.Perm (rn :: B.flatten) ∧ m'.ptr = Function.update m.ptr rn p ∧
      m'.ref = Function.update m.ref rn 1 := by
  obtain ⟨elook, -⟩ := root_lookups hB hp hn
  obtain ⟨t₁, r, eres, hcase, hok⟩ := resize_spec gcRootHashOps hB hn true
  obtain rfl := hok rfl
  -- after the resize there are buckets, and the same nodes are in them
  obtain ⟨B₁, hB₁, hperm₁, hnl⟩ : ∃ B₁, Buckets t₁ B₁ ∧ B₁.flatten.Perm B.flatten ∧
      t₁.hash.nlist ≠ 0 := by
    rcases hcase with ⟨rfl, hnl⟩ | ⟨-, hnl, B₁, hB₁, hperm, -⟩
    · exact ⟨B, hB, .refl _, hnl rfl⟩
    · exact ⟨B₁, hB₁, hperm, hnl⟩
  have hfresh₁ : rn ∉ B₁.flatten := fun hm => hfresh (hperm₁.mem_iff.mp hm)
  obtain ⟨t₂, b, eins, hb, hB₂, -⟩ :=
    insertWithKv_spec hB₁ hrn hfresh₁ hnl (mPtrHashKvFunc p)
  obtain ⟨rest, hperm, hset⟩ := flatten_perm_of_get hb
  refine ⟨⟨t₂, Function.update m.ptr rn p, Function.update m.ref rn 1⟩, _, ?_, hB₂, ?_, rfl, rfl⟩
  · unfold mGCAddRoot
    rw [if_neg hptr, elook, Outcome.ok_bind]
    dsimp only
    rw [if_neg (not_not.mpr rfl), if_neg hrn, eres, Outcome.ok_bind]
    dsimp only
    rw [if_neg (not_not.mpr rfl), eins]
    rfl
  · exact (hset _).trans ((hperm.symm.trans hperm₁).cons rn)

/-- INTERNAL: `m_gc_remove_root` of a pointer that its lookup does not meet does nothing.
SOURCE: m_gc_root.c:112-136 -/
theorem removeRoot_absent (hB : Buckets m.table B) (hptr : p ≠ NULL) (hp : ¬ RootAt m p) {n : ℕ}
    (hn : B.flatten.length < n) : mGCRemoveRoot n m p = .ok m := by
  have elook : mHashLookupWithPrev n m.table p gcRootHashOps = .ok (NULL, none) := by
    by_cases hs : m.table.hash.size = 0
    · unfold mHashLookupWithPrev
      simp [hs]
    · exact (root_lookups hB (fun b hb hpb => hp ⟨hs, B, b, hB, hb, hpb⟩) hn).2
  unfold mGCRemoveRoot
  rw [if_neg hptr, elook]
  rfl

/-- INTERNAL: `m_gc_remove_root` of the address of a node that its lookup walks over
unlinks that node when its count is one.
SOURCE: m_gc_root.c:112-136 -/
theorem removeRoot_at (hB : Buckets m.table B) (hptr : p ≠ NULL) (hs : m.table.hash.size ≠ 0)
    {b : List Ptr} (hb : B[bucketOf m.table (mPtrHashKvFunc p)]? = some b) (hpb : p ∈ b)
    (href : m.ref p = 1) {n : ℕ} (hn : B.flatten.length < n) :
    ∃ m' B', mGCRemoveRoot n m p = .ok m' ∧ Buckets m'.table B' ∧
      (p :: B'.flatten).Perm B.flatten ∧ m'.ptr = m.ptr := by
  have hfind : lookupIn gcRootHashOps m.table B p = some p := by
    unfold lookupIn
    rw [show gcRootHashOps.kv p = mPtrHashKvFunc p from rfl, hb, Option.bind_some]
    unfold findKey
    cases e : b.find? fun q => gcRootHashOps.equal p (gcRootHashOps.getKey q) with
    | none => exact absurd (decide_eq_true rfl) (List.find?_eq_none.mp e p hpb)
    | some q =>
      have hpq : p = q := of_decide_eq_true
        (List.find?_some (p := fun q => gcRootHashOps.equal p (gcRootHashOps.getKey q)) e)
      rw [hpq]
  rcases lookupWithPrev_of_size gcRootHashOps p hB hs hn with
    ⟨hnone, -⟩ | ⟨l₁, a, l₂, hb', ha, elook⟩
  · rw [hnone] at hfind
    exact absurd hfind nofun
  · rw [hfind, Option.some.injEq] at ha
    subst ha
    obtain ⟨t', erem, hB', -⟩ := removeFromPrev_spec hB hb'
    obtain ⟨rest, hperm, hset⟩ := flatten_perm_of_get hb'
    refine ⟨⟨t', m.ptr, m.ref⟩, _, ?_, hB', ?_, rfl⟩
    · unfold mGCRemoveRoot
      rw [if_neg hptr, elook, Outcome.ok_bind]
      dsimp only
      rw [if_pos hptr, if_pos href, erem]
      rfl
    · refine ((hset _).cons p).trans (List.Perm.trans ?_ hperm.symm)
      rw [List.append_assoc, List.append_assoc]
      exact List.perm_middle.symm

/-! ## One step -/

/-- INTERNAL: the nodes that hold `q` after a new node for `p`. -/
theorem holders_add {B' : List (List Ptr)} {q : Ptr} (hperm : B'.flatten.Perm (rn :: B.flatten))
    (hfresh : rn ∉ B.flatten) (hptr : m'.ptr = Function.update m.ptr rn p) :
    (B'.flatten.filter fun x => m'.ptr x = q).Perm
      (if p = q then rn :: B.flatten.filter (fun x => m.ptr x = q)
        else B.flatten.filter fun x => m.ptr x = q) := by
  have hold : B.flatten.filter (fun x => m'.ptr x = q) =
      B.flatten.filter fun x => m.ptr x = q := by
    refine List.filter_congr fun x hx => ?_
    rw [hptr, Function.update_of_ne (by rintro rfl; exact hfresh hx)]
  refine (hperm.filter _).trans ?_
  rw [List.filter_cons, hold, hptr, Function.update_self]
  split_ifs with h1 h2 h2
  · exact .refl _
  · exact absurd (of_decide_eq_true h1) h2
  · exact absurd (decide_eq_true h2) h1
  · exact .refl _

/-- INTERNAL: what a step of `m_gc_add_root` does in a state with the invariant.
SOURCE: m_gc_root.c:79-110 -/
theorem RootInv.add_spec (h : RootInv N l m B) (hpN : p ∉ N) (hrn : rn ≠ NULL)
    (hfresh : rn ∉ B.flatten) {n : ℕ} (e : mGCAddRoot n m p rn true = .ok m') :
    ∃ B', Buckets m'.table B' ∧ B'.flatten.Perm (rn :: B.flatten) ∧
      m'.ptr = Function.update m.ptr rn p ∧ m'.ref = Function.update m.ref rn 1 := by
  have hptr : p ≠ NULL := by
    rintro rfl
    simp [mGCAddRoot] at e
  have hp : ∀ b, B[bucketOf m.table (mPtrHashKvFunc p)]? = some b → p ∉ b := fun b hb hpb =>
    hpN (h.node p (mem_flatten_of_get hb hpb)).1
  obtain ⟨m₁, B', e₁, hB', hperm, h1, h2⟩ := addRoot_spec h.buckets hptr hp hrn hfresh
    (Nat.lt_succ_of_le (le_max_right n B.flatten.length))
  have e' := (Outcome.Approx.of_succ (f := fun n => mGCAddRoot n m p rn true)
    (fun n => addRoot_approx n rn true)
    (Nat.le_succ_of_le (le_max_left n B.flatten.length))).eq_ok e
  rw [e'] at e₁
  obtain rfl := Except.ok.inj e₁
  exact ⟨B', hB', hperm, h1, h2⟩

/-- INTERNAL: what a step of `m_gc_remove_root` does when its lookup meets no node.
SOURCE: m_gc_root.c:112-136 -/
theorem RootInv.remove_absent (h : RootInv N l m B) (hp : ¬ RootAt m p) {n : ℕ}
    (e : mGCRemoveRoot n m p = .ok m') : m' = m := by
  have hptr : p ≠ NULL := by
    rintro rfl
    simp [mGCRemoveRoot] at e
  have e₁ := removeRoot_absent h.buckets hptr hp
    (Nat.lt_succ_of_le (le_max_right n B.flatten.length))
  have e' := (Outcome.Approx.of_succ (f := fun n => mGCRemoveRoot n m p)
    (fun n => removeRoot_approx n) (Nat.le_succ_of_le (le_max_left n B.flatten.length))).eq_ok e
  rw [e'] at e₁
  exact Except.ok.inj e₁

/-- INTERNAL: a pointer that is no node's address is not met. -/
theorem RootInv.not_rootAt (h : RootInv N l m B) (hp : p ∉ N) : ¬ RootAt m p := by
  rintro ⟨-, B', b, hB', hb, hpb⟩
  obtain rfl := hB'.unique h.buckets
  exact hp (h.node p (mem_flatten_of_get hb hpb)).1

/-- INTERNAL: a new pointer keeps the invariant.
SOURCE: m_gc_root.c:79-110 -/
theorem RootInv.add (h : RootInv N l m B) (hpN : p ∉ N) (hrnN : rn ∈ N) (hrn : rn ≠ NULL)
    (hfresh : rn ∉ B.flatten) {n : ℕ} (e : mGCAddRoot n m p rn true = .ok m')
    (hc : RootOp.add p ∉ l) : ∃ B', RootInv N (l ++ [.add p]) m' B' := by
  obtain ⟨B', hB', hperm, hptr, href⟩ := h.add_spec hpN hrn hfresh e
  obtain ⟨hc0, hnone⟩ := h.absent p hc
  refine ⟨B', hB', fun x hx => ?_, fun q hq => ?_, fun q hq => ?_⟩
  · rcases List.mem_cons.mp (hperm.mem_iff.mp hx) with rfl | hx
    · exact ⟨hrnN, by rw [href, Function.update_self]⟩
    · obtain ⟨h1, h2⟩ := h.node x hx
      refine ⟨h1, ?_⟩
      rw [href, Function.update_of_ne (by rintro rfl; exact hfresh hx)]
      exact h2
  · have hhold := holders_add (q := q) hperm hfresh hptr
    rw [rootCount_add]
    by_cases hpq : p = q
    · subst hpq
      rw [if_pos rfl] at hhold ⊢
      have hnil : B.flatten.filter (fun x => m.ptr x = p) = [] :=
        List.filter_eq_nil_iff.mpr fun x hx => by simpa using hnone x hx
      rw [hnil] at hhold
      exact ⟨hpN, by rw [hc0], rn, List.perm_singleton.mp hhold⟩
    · rw [if_neg hpq] at hhold ⊢
      have hq' : RootOp.add q ∈ l := by
        rcases List.mem_append.mp hq with hq | hq
        · exact hq
        · exact absurd (RootOp.add.inj (List.mem_singleton.mp hq)).symm hpq
      obtain ⟨h1, h2, x, hx⟩ := h.added q hq'
      rw [hx] at hhold
      exact ⟨h1, h2, x, List.perm_singleton.mp hhold⟩
  · have hpq : p ≠ q := by
      rintro rfl
      exact hq (by simp)
    obtain ⟨h1, h2⟩ := h.absent q fun hm => hq (by simp [hm])
    rw [rootCount_add, if_neg hpq]
    refine ⟨h1, fun x hx => ?_⟩
    rw [hptr]
    rcases List.mem_cons.mp (hperm.mem_iff.mp hx) with rfl | hx
    · rwa [Function.update_self]
    · rw [Function.update_of_ne (by rintro rfl; exact hfresh hx)]
      exact h2 x hx

/-- INTERNAL: the removal of a pointer that nothing holds keeps the invariant.
SOURCE: m_gc_root.c:112-136 -/
theorem RootInv.remove (h : RootInv N l m B) {n : ℕ} (e : mGCRemoveRoot n m p = .ok m')
    (hpl : RootOp.add p ∉ l) (hat : ¬ RootAt m p) :
    ∃ B', RootInv N (l ++ [.remove p]) m' B' := by
  obtain rfl := h.remove_absent hat e
  have hcount : ∀ q, rootCount q (l ++ [.remove p]) = rootCount q l := by
    intro q
    rw [rootCount_remove]
    split_ifs with hpq
    · subst hpq
      rw [(h.absent p hpl).1]
    · rfl
  refine ⟨B, h.buckets, h.node, fun q hq => ?_, fun q hq => ?_⟩
  · rw [hcount]
    exact h.added q (by simpa using hq)
  · rw [hcount]
    exact h.absent q (by simpa using hq)

/-- INTERNAL: a step that meets the condition keeps the invariant. -/
theorem RootInv.step {op : RootOp} (h : RootInv N l m B) (hs : RootStep N m op m')
    (hc : RootCond l m op) : ∃ B', RootInv N (l ++ [op]) m' B' := by
  cases hs with
  | add hpN hrnN hrn hfresh e => exact h.add hpN hrnN hrn (hfresh B h.buckets) e hc
  | remove e => exact h.remove e hc.1 hc.2

/-- INTERNAL: a pointer that is added again gets a second node. -/
theorem RootInv.add_again (h : RootInv N l m B) (hpN : p ∉ N) (hrn : rn ≠ NULL)
    (hfresh : rn ∉ B.flatten) {n : ℕ} (e : mGCAddRoot n m p rn true = .ok m')
    (hpl : RootOp.add p ∈ l) : ¬ RootOk (l ++ [.add p]) m' := by
  rintro ⟨B', hB', hok⟩
  obtain ⟨B'', hB'', hperm, hptr, -⟩ := h.add_spec hpN hrn hfresh e
  obtain rfl := hB''.unique hB'
  obtain ⟨-, hcount, x, hx⟩ := h.added p hpl
  have hhold := holders_add (q := p) hperm hfresh hptr
  rw [if_pos rfl, hx] at hhold
  obtain ⟨y, hy, -⟩ := (hok p).2 (by rw [rootCount_add, if_pos rfl]; omega)
  rw [hy] at hhold
  simpa using hhold.length_eq

/-- INTERNAL: the removal of a registered pointer does not find its node. -/
theorem RootInv.remove_registered (h : RootInv N l m B) {n : ℕ}
    (e : mGCRemoveRoot n m p = .ok m') (hpl : RootOp.add p ∈ l) :
    ¬ RootOk (l ++ [.remove p]) m' := by
  rintro ⟨B', hB', hok⟩
  obtain ⟨hpN, hcount, x, hx⟩ := h.added p hpl
  obtain rfl := h.remove_absent (h.not_rootAt hpN) e
  obtain rfl := hB'.unique h.buckets
  have hmem : x ∈ B'.flatten.filter fun rn => m'.ptr rn = p := by rw [hx]; simp
  obtain ⟨hxB, hxp⟩ := List.mem_filter.mp hmem
  refine (hok p).1 ?_ x hxB (of_decide_eq_true hxp)
  rw [rootCount_remove, if_pos rfl, hcount]

/-- INTERNAL: a removal that names the address of a node unlinks the node of another pointer. -/
theorem RootInv.remove_node (h : RootInv N l m B) {n : ℕ} (e : mGCRemoveRoot n m p = .ok m')
    (hat : RootAt m p) : ¬ RootOk (l ++ [.remove p]) m' := by
  rintro ⟨B', hB', hok⟩
  obtain ⟨hsz, B₀, b, hB₀, hb, hpb⟩ := hat
  obtain rfl := hB₀.unique h.buckets
  have hpB := mem_flatten_of_get hb hpb
  obtain ⟨hpN, href⟩ := h.node p hpB
  have hptr : p ≠ NULL := hB₀.table.ne_null hpB
  obtain ⟨m₁, B₁, e₁, hB₁, hperm, hsame⟩ := removeRoot_at hB₀ hptr hsz hb hpb href
    (Nat.lt_succ_of_le (le_max_right n B₀.flatten.length))
  have e' := (Outcome.Approx.of_succ (f := fun n => mGCRemoveRoot n m p)
    (fun n => removeRoot_approx n)
    (Nat.le_succ_of_le (le_max_left n B₀.flatten.length))).eq_ok e
  rw [e'] at e₁
  obtain rfl := Except.ok.inj e₁
  obtain rfl := hB₁.unique hB'
  -- the pointer the node was made for
  have hq : RootOp.add (m.ptr p) ∈ l := by
    by_contra hq
    exact (h.absent _ hq).2 p hpB rfl
  obtain ⟨hqN, hcount, x, hx⟩ := h.added _ hq
  have hne : p ≠ m.ptr p := fun e => hqN (e ▸ hpN)
  obtain ⟨y, hy, -⟩ := (hok (m.ptr p)).2 (by
    rw [rootCount_remove, if_neg hne, hcount]
    exact Nat.one_pos)
  have hfilter := hperm.filter fun rn => m.ptr rn = m.ptr p
  rw [hsame] at hy
  rw [List.filter_cons, if_pos (by simp), hx, hy] at hfilter
  simpa using hfilter.length_eq

/-- INTERNAL: a step that does not meet the condition leaves a wrong root set. -/
theorem RootInv.step_bad {op : RootOp} (h : RootInv N l m B) (hs : RootStep N m op m')
    (hc : ¬ RootCond l m op) : ¬ RootOk (l ++ [op]) m' := by
  cases hs with
  | add hpN hrnN hrn hfresh e =>
    exact h.add_again hpN hrn (hfresh B h.buckets) e (not_not.mp hc)
  | @remove _ n p e =>
    by_cases hpl : RootOp.add p ∈ l
    · exact h.remove_registered e hpl
    · exact h.remove_node e (by_contra fun hat => hc ⟨hpl, hat⟩)

/-- INTERNAL: the table at the startup. -/
theorem rootInv_startup (N : Set Ptr) (m : GCRootMem) : RootInv N [] (gcRootHashStartup m) [] :=
  ⟨⟨⟨rfl, by simp [gcRootHashStartup, mHashInit]⟩, rfl, by simp, rfl⟩, by simp, by simp,
    fun p _ => ⟨rfl, by simp⟩⟩

/-- **The root set is right exactly as long as no pointer is used again.** In a run of
`m_gc_add_root` and `m_gc_remove_root` every state holds each pointer with its outstanding
count if and only if no call is on a pointer added before it and no removal names a node
that its lookup walks over.
SOURCE: m_gc_root.c:31-136 -/
theorem root_set_iff {ops : List RootOp} {s : ℕ → GCRootMem} (h : RootRun N ops s) :
    (∀ n, n ≤ ops.length → RootOk (ops.take n) (s n)) ↔
      ∀ i (hi : i < ops.length), RootCond (ops.take i) (s i) ops[i] := by
  refine Run.forall_iff (fun l m => ∃ B, RootInv N l m B) ?_ ?_ ?_ ?_ h
  · rintro _ ⟨m₀, rfl⟩
    exact ⟨[], rootInv_startup N m₀⟩
  · rintro l m ⟨B, hB⟩
    exact hB.ok
  · rintro l m op m' ⟨B, hB⟩ hs hc
    exact hB.step hs hc
  · rintro l m op m' ⟨B, hB⟩ hs hc
    exact hB.step_bad hs hc

/-- An empty root table. -/
def rootStart : GCRootMem := gcRootHashStartup ⟨⟨⟨[], 0, 0⟩, id⟩, id, fun _ => 0⟩

/-- INTERNAL: registering one pointer in the empty table. -/
theorem rootStart_add : ∃ m, RootStep {4096} rootStart (.add 8) m := by
  refine ⟨_, .add (n := 1) (fun e => absurd (show (8 : Ptr) = 4096 from e) (by decide))
    (show (4096 : Ptr) = 4096 from rfl) (by decide) (fun B hB => ?_)
    (show mGCAddRoot 1 _ _ 4096 true = .ok _ from rfl)⟩
  obtain rfl := hB.unique (rootInv_startup ∅ _).buckets
  simp

/-- INTERNAL: a pointer that was not added before is added, with a new node.
SOURCE: m_gc_root.c:79-110 -/
theorem RootInv.add_step (h : RootInv N l m B) (p rn : Ptr) (hptr : p ≠ NULL) (hpN : p ∉ N)
    (hrnN : rn ∈ N) (hrn : rn ≠ NULL) (hfresh : rn ∉ B.flatten) (hc : RootOp.add p ∉ l) :
    ∃ m' B', RootStep N m (.add p) m' ∧ RootInv N (l ++ [.add p]) m' B' ∧
      B'.flatten.Perm (rn :: B.flatten) := by
  have hp : ∀ b, B[bucketOf m.table (mPtrHashKvFunc p)]? = some b → p ∉ b := fun b hb hpb =>
    hpN (h.node p (mem_flatten_of_get hb hpb)).1
  obtain ⟨m', B', e, hB', hperm, -⟩ :=
    addRoot_spec h.buckets hptr hp hrn hfresh (Nat.lt_succ_self _)
  obtain ⟨B'', h'⟩ := h.add hpN hrnN hrn hfresh e hc
  obtain rfl := hB'.unique h'.buckets
  refine ⟨m', B', .add hpN hrnN hrn (fun B₁ hB₁ => ?_) e, h', hperm⟩
  exact hB₁.unique h.buckets ▸ hfresh

/-- INTERNAL: a pointer that is registered nowhere is removed, which does nothing.
SOURCE: m_gc_root.c:112-136 -/
theorem RootInv.remove_step (h : RootInv N l m B) (hptr : p ≠ NULL) (hpN : p ∉ N)
    (hc : RootOp.add p ∉ l) :
    RootStep N m (.remove p) m ∧ ∃ B', RootInv N (l ++ [.remove p]) m B' := by
  have e := removeRoot_absent h.buckets hptr (h.not_rootAt hpN) (Nat.lt_succ_self _)
  exact ⟨.remove e, h.remove e hc (h.not_rootAt hpN)⟩

/-- Three pointers, of which the first two have their nodes in one list, and the removal of a
pointer that was not added. -/
def rootOpsThree : List RootOp := [.add 8, .add 80, .remove 24, .add 16]

/-- All three are held, once each. -/
theorem root_set_iff_three : ∃ s, RootRun {4096, 4128, 4160} rootOpsThree s ∧
    (∀ n, n ≤ 4 → RootOk (rootOpsThree.take n) (s n)) ∧ rootCount 8 rootOpsThree = 1 ∧
    rootCount 80 rootOpsThree = 1 ∧ rootCount 16 rootOpsThree = 1 := by
  have hin : (4096 : Ptr) ∈ ({4096, 4128, 4160} : Set Ptr) ∧ (4128 : Ptr) ∈ ({4096, 4128, 4160} :
      Set Ptr) ∧ (4160 : Ptr) ∈ ({4096, 4128, 4160} : Set Ptr) := by simp
  have hout : ∀ p : Ptr, p.toNat < 4096 → p ∉ ({4096, 4128, 4160} : Set Ptr) := by
    rintro p hp (rfl | rfl | rfl) <;> exact absurd hp (by decide)
  have h₀ := rootInv_startup {4096, 4128, 4160} ⟨⟨⟨[], 0, 0⟩, id⟩, id, fun _ => 0⟩
  obtain ⟨m₁, B₁, s₁, h₁, hp₁⟩ := h₀.add_step 8 4096 (by decide)
    (hout 8 (by decide)) hin.1 (by decide) (by simp) (by decide)
  obtain ⟨m₂, B₂, s₂, h₂, hp₂⟩ := h₁.add_step 80 4128 (by decide)
    (hout 80 (by decide)) hin.2.1 (by decide) (by rw [hp₁.mem_iff]; decide) (by decide)
  have h24 := hout 24 (by decide)
  obtain ⟨s₃, B₃, h₃⟩ := h₂.remove_step (by decide) h24 (by decide)
  obtain rfl := h₃.buckets.unique h₂.buckets
  obtain ⟨m₄, B₄, s₄, h₄, -⟩ := h₃.add_step 16 4160 (by decide)
    (hout 16 (by decide)) hin.2.2 (by decide)
    (by rw [hp₂.mem_iff, List.mem_cons, hp₁.mem_iff]; decide) (by decide)
  have hrun : RootRun {4096, 4128, 4160} rootOpsThree _ :=
    .cons ⟨_, rfl⟩ s₁ (.cons rfl s₂ (.cons rfl s₃ (.cons rfl s₄ (.nil rfl))))
  refine ⟨_, hrun, (root_set_iff hrun).mpr fun i hi => ?_, rfl, rfl, rfl⟩
  match i, hi with
  | 0, _ => exact (by decide : RootOp.add 8 ∉ rootOpsThree.take 0)
  | 1, _ => exact (by decide : RootOp.add 80 ∉ rootOpsThree.take 1)
  | 2, _ => exact ⟨(by decide : RootOp.add 24 ∉ rootOpsThree.take 2), h₂.not_rootAt h24⟩
  | 3, _ => exact (by decide : RootOp.add 16 ∉ rootOpsThree.take 3)

/-- Removing a registered pointer leaves its node in the table. -/
theorem root_set_counterexample :
    ¬ ∀ (N : Set Ptr) (ops : List RootOp) (s : ℕ → GCRootMem), RootRun N ops s →
      RootOk ops (s ops.length) := by
  intro hall
  obtain ⟨m₁, hm₁⟩ := rootStart_add
  obtain ⟨B, hB⟩ := (rootInv_startup {4096} _).step hm₁ (by simp [RootCond])
  have hat := hB.not_rootAt (show (8 : Ptr) ∉ ({4096} : Set Ptr) from
    fun e => absurd (show (8 : Ptr) = 4096 from e) (by decide))
  have hm₂ : RootStep {4096} m₁ (.remove 8) m₁ :=
    .remove (removeRoot_absent hB.buckets (by decide) hat (Nat.lt_succ_self _))
  refine hB.step_bad hm₂ (by simp [RootCond])
    (hall {4096} [.add 8, .remove 8] (fun i => match i with | 0 => rootStart | _ => m₁) ?_)
  refine ⟨⟨_, rfl⟩, fun i hi => ?_⟩
  match i, hi with
  | 0, _ => exact hm₁
  | 1, _ => exact hm₂

end Ming.Analysis
