import Ming.Interface.RBTreeOrder

/-!
# Lookup in a represented tree

Both lookups walk down one path of the tree. `m_rbt_lookup_insert` also returns where the
walk ended; that place is the hole between the smaller and the larger keys.
-/

set_option autoImplicit false

namespace Ming.Analysis

open Ming.Foundation Ming.Model Ming.Interface

variable {K : Type} {ops : MRBTreeOps K} {m : MRBTree} {key : K}

/-- INTERNAL: a node that is not below the key is not behind it either, unless it has it. -/
theorem key_gt_of_not_lt (hcmp : StrictOrder ops.cmp) {p : Ptr}
    (hv : ops.cmp key (ops.getKey p) ≠ 0) (hlt : ¬ ops.cmp key (ops.getKey p) < 0) :
    ops.cmp (ops.getKey p) key < 0 := by
  rw [hcmp.neg_iff_pos]
  omega

/-- INTERNAL: a subtree without the key, from its two sides. -/
theorem absent_node {l r : List Ptr} {p : Ptr} (hcmp : StrictOrder ops.cmp)
    (hv : ops.cmp key (ops.getKey p) ≠ 0) (hl : ∀ q ∈ l, ops.getKey q ≠ key)
    (hr : ∀ q ∈ r, ops.getKey q ≠ key) : ∀ q ∈ l ++ p :: r, ops.getKey q ≠ key := by
  intro q hq
  rcases List.mem_append.mp hq with hq | hq
  · exact hl q hq
  · rcases List.mem_cons.mp hq with rfl | hq
    · exact fun e => hv ((hcmp.eq_zero_iff _ _).mpr e.symm)
    · exact hr q hq

/-- INTERNAL: the loop of `m_rbt_lookup` returns the node with the key, or `NULL` when the
subtree has none.
SOURCE: m_rbtree.h:484-500 -/
theorem lookupLoop_spec (hcmp : StrictOrder ops.cmp) {t : RBTree Ptr} {parent : Ptr}
    (hl : Links m parent t) (hp : ∀ p ∈ t.toList, NodePtr p) (hs : KeySorted ops t.toList)
    {fuel : ℕ} (hf : t.height < fuel) :
    (∃ p ∈ t.toList, ops.getKey p = key ∧ mRbtLookupLoop m key ops fuel (rootPtr t) = .ok p) ∨
    ((∀ p ∈ t.toList, ops.getKey p ≠ key) ∧
      mRbtLookupLoop m key ops fuel (rootPtr t) = .ok NULL) := by
  induction t generalizing parent fuel with
  | nil =>
    cases fuel with
    | zero => omega
    | succ fuel => exact Or.inr ⟨by simp, by simp [mRbtLookupLoop]⟩
  | node c l p r ihl ihr =>
    cases fuel with
    | zero => omega
    | succ fuel =>
      obtain ⟨-, hleft, hright, hll, hlr⟩ := hl
      rw [RBTree.toList_node] at hs hp ⊢
      obtain ⟨hsl, hsr, -⟩ := List.pairwise_append.mp hs
      have hsplit := KeySorted.split hs
      have hne : p ≠ NULL := (hp p (by simp)).ne_null
      simp only [RBTree.height] at hf
      simp only [rootPtr, mRbtLookupLoop, hne, if_false, hleft, hright]
      by_cases hv : ops.cmp key (ops.getKey p) = 0
      · left
        refine ⟨p, by simp, ((hcmp.eq_zero_iff _ _).mp hv).symm, ?_⟩
        rw [if_pos hv]
      · rw [if_neg hv]
        by_cases hlt : ops.cmp key (ops.getKey p) < 0
        · -- the key can only be in the left subtree
          rw [if_pos hlt]
          have hright : ∀ q ∈ r.toList, ops.getKey q ≠ key := by
            rintro q hq rfl
            exact hcmp.irrefl _ (hcmp.trans _ _ _ hlt (hsplit.after q hq))
          have hfl : l.height < fuel := by omega
          rcases ihl hll (fun q hq => hp q (by simp [hq])) hsl hfl with
            ⟨q, hq, hk, e⟩ | ⟨hnone, e⟩
          · exact Or.inl ⟨q, by simp [hq], hk, e⟩
          · exact Or.inr ⟨absent_node hcmp hv hnone hright, e⟩
        · rw [if_neg hlt]
          have hgt := key_gt_of_not_lt hcmp hv hlt
          have hleft : ∀ q ∈ l.toList, ops.getKey q ≠ key := by
            rintro q hq rfl
            exact hcmp.irrefl _ (hcmp.trans _ _ _ (hsplit.before q hq) hgt)
          have hfr : r.height < fuel := by omega
          rcases ihr hlr (fun q hq => hp q (by simp [hq])) (List.pairwise_cons.mp hsr).2 hfr with
            ⟨q, hq, hk, e⟩ | ⟨hnone, e⟩
          · exact Or.inl ⟨q, by simp [hq], hk, e⟩
          · exact Or.inr ⟨absent_node hcmp hv hleft hnone, e⟩

section Splits

variable {k : RBPath Ptr} {c : Color} {l r : RBTree Ptr} {p : Ptr}
variable (hcmp : StrictOrder ops.cmp)
variable (hs : KeySorted ops (RBPath.fill k (.node c l p r)).toList)
variable (h : SplitsAt ops key (RBPath.before k) (RBPath.after k))
include hcmp hs h

/-- INTERNAL: the hole on the left of a node with a larger key. -/
theorem SplitsAt.left (hlt : ops.cmp key (ops.getKey p) < 0) :
    SplitsAt ops key (RBPath.before (⟨.left, c, p, r⟩ :: k))
      (RBPath.after (⟨.left, c, p, r⟩ :: k)) := by
  rw [RBPath.toList_fill, RBTree.toList_node] at hs
  have hp : SplitsAt ops (ops.getKey p) (RBPath.before k ++ l.toList)
      (r.toList ++ RBPath.after k) := KeySorted.split (by simpa using hs)
  refine ⟨fun q hq => h.before q (by simpa [RBPath.before] using hq), ?_⟩
  intro q hq
  simp only [RBPath.after, List.cons_append, List.mem_cons, List.mem_append] at hq
  rcases hq with rfl | hq | hq
  · exact hlt
  · exact hcmp.trans _ _ _ hlt (hp.after q (by simp [hq]))
  · exact h.after q hq

/-- INTERNAL: the hole on the right of a node with a smaller key. -/
theorem SplitsAt.right (hgt : ops.cmp (ops.getKey p) key < 0) :
    SplitsAt ops key (RBPath.before (⟨.right, c, p, l⟩ :: k))
      (RBPath.after (⟨.right, c, p, l⟩ :: k)) := by
  rw [RBPath.toList_fill, RBTree.toList_node] at hs
  have hp : SplitsAt ops (ops.getKey p) (RBPath.before k ++ l.toList)
      (r.toList ++ RBPath.after k) := KeySorted.split (by simpa using hs)
  refine ⟨?_, fun q hq => h.after q (by simpa [RBPath.after] using hq)⟩
  intro q hq
  simp only [RBPath.before, List.mem_append, List.mem_singleton] at hq
  rcases hq with hq | hq | rfl
  · exact h.before q hq
  · exact hcmp.trans _ _ _ (hp.before q (by simp [hq])) hgt
  · exact hgt

end Splits

/-- INTERNAL: the loop of `m_rbt_lookup_insert` returns the node with the key, or the hole
where the key belongs.
SOURCE: m_rbtree.h:522-545 -/
theorem lookupInsertLoop_spec (hcmp : StrictOrder ops.cmp) {t : RBTree Ptr} {k : RBPath Ptr}
    (h : Focus m k t) (hs : KeySorted ops (RBPath.fill k t).toList)
    (hsplit : SplitsAt ops key (RBPath.before k) (RBPath.after k))
    {fuel : ℕ} (hf : t.height < fuel) :
    (∃ p pos, p ∈ t.toList ∧ ops.getKey p = key ∧
      mRbtLookupInsertLoop m key ops fuel (holePos k) (holeParent k) = .ok ⟨p, p, pos⟩) ∨
    (∃ k', RBPath.fill k' .nil = RBPath.fill k t ∧
      SplitsAt ops key (RBPath.before k') (RBPath.after k') ∧
      mRbtLookupInsertLoop m key ops fuel (holePos k) (holeParent k) =
        .ok ⟨NULL, holeParent k', holePos k'⟩) := by
  induction t generalizing k fuel with
  | nil =>
    cases fuel with
    | zero => omega
    | succ fuel =>
      refine Or.inr ⟨k, rfl, hsplit, ?_⟩
      simp [mRbtLookupInsertLoop, h.load]
  | node c l p r ihl ihr =>
    cases fuel with
    | zero => omega
    | succ fuel =>
      simp only [RBTree.height] at hf
      have hne := h.ne_null (by simp)
      have hload := h.load
      simp only [rootPtr] at hne hload
      simp only [mRbtLookupInsertLoop, hload, hne, if_false]
      by_cases hv : ops.cmp key (ops.getKey p) = 0
      · refine Or.inl ⟨p, holePos k, by simp, ((hcmp.eq_zero_iff _ _).mp hv).symm, ?_⟩
        rw [if_pos hv]
      · rw [if_neg hv]
        by_cases hlt : ops.cmp key (ops.getKey p) < 0
        · rw [if_pos hlt]
          have hd : Focus m (⟨.left, c, p, r⟩ :: k) l := h.down (f := ⟨.left, c, p, r⟩)
          have hsp := SplitsAt.left hcmp hs hsplit hlt
          have hfl : l.height < fuel := by omega
          rcases ihl hd hs hsp hfl with ⟨q, pos, hq, hk, e⟩ | ⟨k', hk', hsk, e⟩
          · exact Or.inl ⟨q, pos, by simp [hq], hk, e⟩
          · exact Or.inr ⟨k', hk', hsk, e⟩
        · rw [if_neg hlt]
          have hgt := key_gt_of_not_lt hcmp hv hlt
          have hd : Focus m (⟨.right, c, p, l⟩ :: k) r := h.down (f := ⟨.right, c, p, l⟩)
          have hsp := SplitsAt.right hcmp hs hsplit hgt
          have hfr : r.height < fuel := by omega
          rcases ihr hd hs hsp hfr with ⟨q, pos, hq, hk, e⟩ | ⟨k', hk', hsk, e⟩
          · exact Or.inl ⟨q, pos, by simp [hq], hk, e⟩
          · exact Or.inr ⟨k', hk', hsk, e⟩

end Ming.Analysis
