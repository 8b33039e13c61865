import Mathlib.Data.Fintype.Card
import Ming.Analysis.RBTreeRuns
import Ming.Model.Cmp

/-!
# Trees keyed by words

A program inserts nodes by `m_rbt_lookup_insert` and `m_rbt_insert` and looks keys up, with one
of the comparison functions of m_cmp.h. Their cut difference is a strict total order exactly on
the sets of keys that lie in half of the 32-bit range; there it agrees with a strict total order
of all words, and a walk down the tree sees no difference between the two.
-/

set_option autoImplicit false

namespace Ming.Analysis

open Ming.Foundation Ming.Model Ming.Interface

/-! ## The insertions of a program -/

/-- A program that fills a tree: the tree, and the nodes whose keys were found in it. -/
structure Insertion where
  tree : MRBTree
  refused : List Ptr

/-- The insertion that m_rbtree.h documents: look the key up, link the node if it is absent.
SOURCE: m_rbtree.h:502-515 -/
def insertNode {K : Type} (ops : MRBTreeOps K) (fuel : ℕ) (s : Insertion) (node : Ptr) :
    Outcome Insertion := do
  let r ← mRbtLookupInsert s.tree (ops.getKey node) ops fuel
  if r.node = NULL then do
    let m ← mRbtInsert fuel s.tree r.parent r.pos node
    pure { s with tree := m }
  else pure { s with refused := node :: s.refused }

/-- Insert nodes one after another into an empty tree. -/
def insertAll {K : Type} (ops : MRBTreeOps K) (fuel : ℕ) (m : MRBTree) (nodes : List Ptr) :
    Outcome Insertion :=
  nodes.foldlM (insertNode ops fuel) ⟨mRbtInit m, []⟩

/-- Trees with the keys of `U` are correct: `cmp` is a strict total order on `U`; and nodes with
distinct keys of `U`, inserted in any order, are all linked and are found afterwards by their
keys, while no other key of `U` is found. -/
structure TreeCorrectOn {K : Type} (cmp : K → K → ℤ) (U : Set K) : Prop where
  order : StrictOrder fun a b : U => cmp a b
  insert : ∀ (getKey : Ptr → K) (m : MRBTree) (nodes : List Ptr) (fuel : ℕ),
    (∀ p ∈ nodes, NodePtr p ∧ getKey p ∈ U) → (nodes.map getKey).Nodup → nodes.length < fuel →
    ∃ m', insertAll ⟨getKey, cmp⟩ fuel m nodes = .ok ⟨m', []⟩ ∧
      ∀ key ∈ U, Finds ⟨getKey, cmp⟩ nodes key (mRbtLookup m' key ⟨getKey, cmp⟩ fuel)

/-! ## Comparisons that agree on the keys in use -/

section Agree

variable {K : Type} {getKey : Ptr → K} {cmp cmp' : K → K → ℤ} {m : MRBTree} {key : K}

/-- INTERNAL: the walk of `m_rbt_lookup` only compares with keys of the tree. -/
theorem lookupLoop_congr {t : RBTree Ptr} {parent : Ptr} (hl : Links m parent t)
    (h : ∀ p ∈ t.toList, cmp key (getKey p) = cmp' key (getKey p)) (fuel : ℕ) :
    mRbtLookupLoop m key ⟨getKey, cmp⟩ fuel (rootPtr t) =
      mRbtLookupLoop m key ⟨getKey, cmp'⟩ fuel (rootPtr t) := by
  induction t generalizing parent fuel with
  | nil =>
    cases fuel with
    | zero => rfl
    | succ fuel => simp [mRbtLookupLoop]
  | node c l p r ihl ihr =>
    cases fuel with
    | zero => rfl
    | succ fuel =>
      obtain ⟨-, hleft, hright, hll, hlr⟩ := hl
      have hp : cmp key (getKey p) = cmp' key (getKey p) := h p (by simp)
      have el := ihl hll (fun q hq => h q (by simp [hq])) fuel
      have er := ihr hlr (fun q hq => h q (by simp [hq])) fuel
      change mRbtLookupLoop m key ⟨getKey, cmp⟩ (fuel + 1) p =
        mRbtLookupLoop m key ⟨getKey, cmp'⟩ (fuel + 1) p
      simp only [mRbtLookupLoop, hleft, hright, hp, el, er]

/-- INTERNAL: so does the walk of `m_rbt_lookup_insert`. -/
theorem lookupInsertLoop_congr {t : RBTree Ptr} {k : RBPath Ptr} (hfo : Focus m k t)
    (h : ∀ p ∈ t.toList, cmp key (getKey p) = cmp' key (getKey p)) (fuel : ℕ) :
    mRbtLookupInsertLoop m key ⟨getKey, cmp⟩ fuel (holePos k) (holeParent k) =
      mRbtLookupInsertLoop m key ⟨getKey, cmp'⟩ fuel (holePos k) (holeParent k) := by
  induction t generalizing k fuel with
  | nil =>
    cases fuel with
    | zero => rfl
    | succ fuel => simp [mRbtLookupInsertLoop, hfo.load]
  | node c l p r ihl ihr =>
    cases fuel with
    | zero => rfl
    | succ fuel =>
      have hload : m.load (holePos k) = p := hfo.load
      have hdl : Focus m (⟨.left, c, p, r⟩ :: k) l := hfo.down (f := ⟨.left, c, p, r⟩)
      have hdr : Focus m (⟨.right, c, p, l⟩ :: k) r := hfo.down (f := ⟨.right, c, p, l⟩)
      have hp : cmp key (getKey p) = cmp' key (getKey p) := h p (by simp)
      have el := ihl hdl (fun q hq => h q (by simp [hq])) fuel
      have er := ihr hdr (fun q hq => h q (by simp [hq])) fuel
      simp only [holePos, holeParent, sidePos] at el er
      simp only [mRbtLookupInsertLoop, hload, hp, el, er]

/-- INTERNAL: a node with a new key is linked.
SOURCE: m_rbtree.h:502-515 -/
theorem insertNode_spec (hcmp : StrictOrder cmp') {S : List Ptr} {T : RBTree Ptr}
    (h : RBInv ⟨getKey, cmp'⟩ m S T) {node : Ptr} (hn : NodePtr node)
    (hagree : ∀ p ∈ S, cmp (getKey node) (getKey p) = cmp' (getKey node) (getKey p))
    (habs : ∀ p ∈ S, getKey p ≠ getKey node) {fuel : ℕ} (hf : S.length < fuel)
    (refused : List Ptr) :
    ∃ m' T', insertNode ⟨getKey, cmp⟩ fuel ⟨m, refused⟩ node = .ok ⟨m', refused⟩ ∧
      RBInv ⟨getKey, cmp'⟩ m' (node :: S) T' := by
  obtain ⟨hr, hv, hs, hp⟩ := id h
  have hlen : T.toList.length < fuel := by
    rw [hp.length_eq]
    exact hf
  have habs' : ∀ p ∈ T.toList, getKey p ≠ getKey node := fun p hpT => habs p (hp.mem_iff.mp hpT)
  obtain ⟨parent, pos, -, -, -, -, el, -⟩ := insert_absent hcmp hr hv hs hn habs' hlen
  obtain ⟨m', T', ei, hT'⟩ := h.insert_spec hcmp hn el le_rfl hlen
  have hlook : mRbtLookupInsert m (getKey node) ⟨getKey, cmp⟩ fuel = .ok ⟨NULL, parent, pos⟩ := by
    rw [← el]
    exact lookupInsertLoop_congr (represents_fill.mp hr : Focus m [] T)
      (fun p hpT => hagree p (hp.mem_iff.mp hpT)) fuel
  refine ⟨m', T', ?_, hT'⟩
  unfold insertNode
  simp only [hlook, Outcome.ok_bind, if_true, ei]
  rfl

/-- INTERNAL: nodes with new and distinct keys are all linked. -/
theorem insertNodes_spec (hcmp : StrictOrder cmp') {U : Set K}
    (hagree : ∀ a ∈ U, ∀ b ∈ U, cmp a b = cmp' a b) {S : List Ptr} {T : RBTree Ptr}
    (h : RBInv ⟨getKey, cmp'⟩ m S T) (hS : ∀ p ∈ S, getKey p ∈ U) {nodes : List Ptr}
    (hn : ∀ p ∈ nodes, NodePtr p ∧ getKey p ∈ U) (hnd : ((nodes ++ S).map getKey).Nodup)
    {fuel : ℕ} (hf : (nodes ++ S).length < fuel) :
    ∃ m' T', nodes.foldlM (insertNode ⟨getKey, cmp⟩ fuel) ⟨m, []⟩ = .ok ⟨m', []⟩ ∧
      RBInv ⟨getKey, cmp'⟩ m' (nodes.reverse ++ S) T' := by
  induction nodes generalizing m S T with
  | nil => exact ⟨m, T, rfl, h⟩
  | cons node nodes ih =>
    obtain ⟨hnode, hkey⟩ := hn node List.mem_cons_self
    simp only [List.cons_append, List.map_cons, List.nodup_cons, List.length_cons] at hnd hf
    have habs : ∀ p ∈ S, getKey p ≠ getKey node := by
      intro p hp e
      apply hnd.1
      rw [← e]
      exact List.mem_map_of_mem (List.mem_append_right _ hp)
    have hfS : S.length < fuel := by
      rw [List.length_append] at hf
      omega
    obtain ⟨m₁, T₁, e, h₁⟩ :=
      insertNode_spec hcmp h hnode (fun p hp => hagree _ hkey _ (hS p hp)) habs hfS []
    -- the keys that remain and the keys in the tree are the same keys in another order
    have hperm : (nodes ++ node :: S).Perm (node :: (nodes ++ S)) := List.perm_middle
    obtain ⟨m', T', e', h'⟩ := ih h₁
      (fun p hp => by
        rcases List.mem_cons.mp hp with rfl | hp
        · exact hkey
        · exact hS p hp)
      (fun p hp => hn p (List.mem_cons_of_mem _ hp))
      ((hperm.map getKey).nodup_iff.mpr (List.nodup_cons.mpr hnd))
      (by rw [hperm.length_eq]; exact hf)
    refine ⟨m', T', ?_, ?_⟩
    · rw [List.foldlM_cons, e]
      exact e'
    · rw [List.reverse_cons, List.append_assoc]
      exact h'

/-- INTERNAL: a tree is correct on keys where its comparison agrees with a strict total order. -/
theorem insertAll_spec (hcmp : StrictOrder cmp') {U : Set K}
    (hagree : ∀ a ∈ U, ∀ b ∈ U, cmp a b = cmp' a b) (m : MRBTree) {nodes : List Ptr}
    (hn : ∀ p ∈ nodes, NodePtr p ∧ getKey p ∈ U) (hnd : (nodes.map getKey).Nodup) {fuel : ℕ}
    (hf : nodes.length < fuel) :
    ∃ m', insertAll ⟨getKey, cmp⟩ fuel m nodes = .ok ⟨m', []⟩ ∧
      ∀ key ∈ U, Finds ⟨getKey, cmp⟩ nodes key (mRbtLookup m' key ⟨getKey, cmp⟩ fuel) := by
  have h₀ : RBInv ⟨getKey, cmp'⟩ (mRbtInit m) [] .nil :=
    ⟨⟨rfl, trivial, by simp, by simp⟩, RBTree.valid_nil, List.Pairwise.nil, .refl _⟩
  obtain ⟨m', T', e, hr, -, hs, hp⟩ := insertNodes_spec hcmp hagree h₀ (by simp) hn
    (by rw [List.append_nil]; exact hnd) (by rw [List.append_nil]; exact hf)
  rw [List.append_nil] at hp
  have hmem : ∀ p, p ∈ T'.toList ↔ p ∈ nodes := fun p => hp.mem_iff.trans List.mem_reverse
  refine ⟨m', e, fun key hkey => ?_⟩
  have hlen : T'.toList.length < fuel := by
    rw [hp.length_eq, List.length_reverse]
    exact hf
  have hlook : mRbtLookup m' key ⟨getKey, cmp⟩ fuel = mRbtLookup m' key ⟨getKey, cmp'⟩ fuel := by
    unfold mRbtLookup
    rw [hr.tree]
    exact lookupLoop_congr hr.links
      (fun p hpT => hagree _ hkey _ (hn p ((hmem p).mp hpT)).2) fuel
  have hfind := (lookup_finds hcmp hr hs key hlen).1
  rw [hlook]
  simpa only [Finds, hmem] using hfind

end Agree

/-! ## Cut differences as an order -/

section Window

variable {U : Set UIntPtr} {c : BitVec 32}

/-- The order of all words that agrees with the cut difference in the window at `c`: by low
word from `c` upwards, and by address where the low words are equal. -/
def windowCmp (c : BitVec 32) (a b : UIntPtr) : ℤ :=
  if offset c a = offset c b then (a.toNat : ℤ) - b.toNat else (offset c a : ℤ) - offset c b

/-- INTERNAL: the comparison inside of a window is an order. -/
theorem windowCmp_strict (c : BitVec 32) : StrictOrder (windowCmp c) := by
  refine ⟨fun a b => ⟨fun h => ?_, ?_⟩, fun a b => ?_, fun a b d hab hbd => ?_⟩
  · unfold windowCmp at h
    apply BitVec.eq_of_toNat_eq
    split_ifs at h <;> omega
  · rintro rfl
    simp [windowCmp]
  · unfold windowCmp
    split_ifs <;> omega
  · unfold windowCmp at *
    split_ifs at * <;> omega

/-- INTERNAL: in the window the cut difference is that order. -/
theorem cutDiff_eq_windowCmp (hinj : Set.InjOn (BitVec.setWidth 32) U)
    (hc : ∀ a ∈ U, InWindow c a) {a b : UIntPtr} (ha : a ∈ U) (hb : b ∈ U) :
    cutDiff 32 a b = windowCmp c a b := by
  rw [cutDiff_eq_offset (by decide) (hc a ha) (hc b hb)]
  unfold windowCmp
  split_ifs with h
  · obtain rfl := hinj ha hb (offset_injective h)
    omega
  · rfl

/-- INTERNAL: keys that the cut difference orders lie in half of the range. The window starts
at the least key. -/
theorem halfWindow_of_order (h : StrictOrder fun a b : U => cutDiff 32 a.1 b.1) :
    HalfWindow 32 U := by
  constructor
  · intro a ha b hb hab
    have hzero : cutDiff 32 a b = 0 := (cutDiff_eq_zero (by decide)).mpr hab
    exact congrArg Subtype.val ((h.eq_zero_iff ⟨a, ha⟩ ⟨b, hb⟩).mp hzero)
  · by_cases hU : U.Nonempty
    · have : Finite UIntPtr := .of_equiv _ BitVec.equivFin.symm.toEquiv
      have : IsTrans U fun a b => cutDiff 32 a.1 b.1 < 0 := ⟨h.trans⟩
      have : Std.Irrefl fun a b : U => cutDiff 32 a.1 b.1 < 0 := ⟨h.irrefl⟩
      have hwf : WellFounded fun a b : U => cutDiff 32 a.1 b.1 < 0 :=
        Finite.wellFounded_of_trans_of_irrefl _
      obtain ⟨least, -, hleast⟩ := hwf.has_min Set.univ ⟨⟨hU.some, hU.some_mem⟩, trivial⟩
      refine ⟨least.1.setWidth 32, fun a ha => ?_⟩
      have hle := hleast ⟨a, ha⟩ trivial
      exact inWindow_of_cutDiff (by decide) (not_lt.mp hle)
    · exact ⟨0, fun a ha => absurd ⟨a, ha⟩ hU⟩

/-- INTERNAL: the cut difference serves a tree exactly on half of the range. -/
theorem treeCorrectOn_cutDiff_iff (U : Set UIntPtr) :
    TreeCorrectOn (cutDiff 32) U ↔ HalfWindow 32 U := by
  constructor
  · intro h
    exact halfWindow_of_order h.order
  · rintro ⟨hinj, c, hc⟩
    have hagree : ∀ a ∈ U, ∀ b ∈ U, cutDiff 32 a b = windowCmp c a b :=
      fun a ha b hb => cutDiff_eq_windowCmp hinj hc ha hb
    have hw := windowCmp_strict c
    constructor
    · refine ⟨fun a b => ?_, fun a b => ?_, fun a b d => ?_⟩
      · rw [hagree _ a.2 _ b.2, hw.eq_zero_iff, Subtype.ext_iff]
      · rw [hagree _ a.2 _ b.2, hagree _ b.2 _ a.2]
        exact hw.neg_iff_pos _ _
      · rw [hagree _ a.2 _ b.2, hagree _ b.2 _ d.2, hagree _ a.2 _ d.2]
        exact hw.trans _ _ _
    · intro getKey m nodes fuel hn hnd hf
      exact insertAll_spec hw hagree m hn hnd hf

end Window

/-- **Trees keyed by integers and pointers.** For every set of keys that a program inserts or
looks up, a tree with either comparison function is correct exactly when the keys have distinct
low words that lie in one half of the 32-bit range.
SOURCE: m_cmp.h:35-61, m_rbtree.h:473-547 -/
theorem keyed_tree_iff (U : Set UIntPtr) :
    (TreeCorrectOn mIntCmpFunc U ↔ HalfWindow 32 U) ∧
      (TreeCorrectOn mPtrCmpFunc U ↔ HalfWindow 32 U) :=
  ⟨treeCorrectOn_cutDiff_iff U, treeCorrectOn_cutDiff_iff U⟩

/-- Two nodes with the keys `0` and `2 ^ 32`. -/
def farKey (p : Ptr) : UIntPtr := if p = 8 then 0 else 0x100000000

/-- Two keys that differ by `2 ^ 32` compare equal: the second insertion is refused, and a
lookup of its key returns the node of the first. -/
theorem keyed_tree_counterexample :
    (∃ m, insertAll ⟨farKey, mIntCmpFunc⟩ 3 ⟨NULL, fun _ => ⟨0, 0, 0⟩⟩ [8, 16] = .ok ⟨m, [16]⟩ ∧
      mRbtLookup m 0x100000000 ⟨farKey, mIntCmpFunc⟩ 3 = .ok 8) ∧
    ¬ ∀ U : Set UIntPtr, TreeCorrectOn mIntCmpFunc U ∧ TreeCorrectOn mPtrCmpFunc U := by
  refine ⟨⟨_, rfl, rfl⟩, fun h => ?_⟩
  have hzero : mIntCmpFunc 0 0x100000000 = 0 := by decide
  have heq := ((h Set.univ).1.order.eq_zero_iff ⟨0, trivial⟩ ⟨0x100000000, trivial⟩).mp hzero
  exact absurd (congrArg Subtype.val heq) (by decide)

end Ming.Analysis
