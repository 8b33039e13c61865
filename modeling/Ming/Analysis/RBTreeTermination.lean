import Ming.Analysis.RBTreeRuns

/-!
# The rebalance loops end

Every step of the two loops of m_rbtree.h that stores through a missing node, rotates without a
child to move up, or fails an assertion is a fault of the model. On a valid tree neither loop
has one, wherever the new node is hung and whichever childless node is removed, and the number
of rounds is bounded by the height of the tree.
-/

set_option autoImplicit false

namespace Ming.Analysis

open Ming.Foundation Ming.Model Ming.Interface

variable {m : MRBTree} {T : RBTree Ptr} {node parent : Ptr} {pos : RBPos}

/-- A place of the tree where no node hangs, and the node it belongs to. -/
def FreePos (m : MRBTree) (T : RBTree Ptr) (parent : Ptr) : RBPos → Prop
  | .tree => parent = NULL ∧ m.tree = NULL
  | .left p => parent = p ∧ p ∈ T.toList ∧ (m.node p).left = NULL
  | .right p => parent = p ∧ p ∈ T.toList ∧ (m.node p).right = NULL

/-- INTERNAL: the missing child of a node is a hole of the tree. -/
theorem hole_of_child (h : Represents m T) {p : Ptr} (hp : p ∈ T.toList) (d : Side)
    (hc : m.child d p = NULL) :
    ∃ k, RBPath.fill k .nil = T ∧ holeParent k = p ∧ holePos k = sidePos d p := by
  obtain ⟨k, c, l, r, rfl⟩ := RBPath.exists_fill_of_mem hp
  have hf := represents_fill.mp h
  obtain ⟨s, t, e⟩ : ∃ s t, RBTree.node c l p r = RBTree.join d c s p t := by
    cases d
    · exact ⟨l, r, rfl⟩
    · exact ⟨r, l, rfl⟩
  rw [e] at hf ⊢
  have hnil : s = .nil := by
    refine (rootPtr_eq_null fun q hq => hf.nodePtr q (Or.inl ?_)).mp ?_
    · exact (RBTree.mem_toList_join ..).mpr (Or.inr (Or.inl hq))
    · exact (hf.down (f := ⟨d, c, p, t⟩)).child_parent.1.symm.trans hc
  exact ⟨⟨d, c, p, t⟩ :: k, by rw [RBPath.fill_cons, hnil], rfl, rfl⟩

/-- INTERNAL: a free place is a hole of the tree. -/
theorem FreePos.hole (h : Represents m T) (hpos : FreePos m T parent pos) :
    ∃ k, RBPath.fill k .nil = T ∧ holeParent k = parent ∧ holePos k = pos := by
  cases pos with
  | tree =>
    obtain ⟨rfl, htree⟩ := hpos
    obtain rfl := (rootPtr_eq_null h.nodePtr).mp (h.tree.symm.trans htree)
    exact ⟨[], rfl, rfl, rfl⟩
  | left p =>
    obtain ⟨rfl, hp, hc⟩ := hpos
    exact hole_of_child h hp .left hc
  | right p =>
    obtain ⟨rfl, hp, hc⟩ := hpos
    exact hole_of_child h hp .right hc

/-- INTERNAL: the loop of `m_rbt_insert`, for any position.
SOURCE: m_rbtree.h:612-675 -/
theorem insert_ends (h : Represents m T) (hv : T.Valid) (hn : NodePtr node)
    (hfresh : node ∉ T.toList) (hpos : FreePos m T parent pos) :
    ∃ m', Outcome.EndsWithin (T.height + 1) (fun n => mRbtInsert n m parent pos node) m' := by
  obtain ⟨k, rfl, rfl, rfl⟩ := hpos.hole h
  have hk : node ∉ RBPath.elems k := fun hm => hfresh ((RBPath.mem_fill ..).mpr (Or.inr hm))
  have hlen : k.length < (RBPath.fill k .nil).height + 1 :=
    Nat.lt_succ_of_le (Nat.le_of_add_right_le (RBPath.length_add_height_le k .nil))
  obtain ⟨m', -, e, -⟩ := mRbtInsert_spec (represents_fill.mp h) hv hn hk hlen
  exact ⟨m', .of_ok (fun n => insert_approx n _ _ _) e⟩

/-- INTERNAL: `m_rbt_remove_rebalance`, for any childless node.
SOURCE: m_rbtree.h:677-751 -/
theorem removeRebalance_ends (h : Represents m T) (hv : T.Valid) (hn : node ∈ T.toList)
    (hc : ∀ d, m.child d node = NULL) :
    ∃ m', Outcome.EndsWithin (T.height + 2) (fun n => mRbtRemoveRebalance n m node) m' := by
  obtain ⟨k, c, l, r, rfl⟩ := RBPath.exists_fill_of_mem hn
  have hf := represents_fill.mp h
  obtain ⟨-, hl, hr, -⟩ := hf.links
  have hnil : ∀ t : RBTree Ptr, (∀ q ∈ t.toList, q ∈ (RBTree.node c l node r).toList) →
      rootPtr t = NULL → t = .nil := fun t ht e =>
    (rootPtr_eq_null fun q hq => hf.nodePtr q (Or.inl (ht q hq))).mp e
  obtain rfl : l = .nil := hnil l (fun q hq => by simp [hq]) (hl.symm.trans (hc .left))
  obtain rfl : r = .nil := hnil r (fun q hq => by simp [hq]) (hr.symm.trans (hc .right))
  have hlen : k.length + 3 ≤ (RBPath.fill k (.node c .nil node .nil)).height + 2 :=
    Nat.add_le_add_right (RBPath.length_add_height_le k (.node c .nil node .nil)) 2
  obtain ⟨m', -, -, e, -⟩ := rebalance_leaf h hv hlen
  exact ⟨m', .of_ok (fun n => removeRebalance_approx n m node) e⟩

/-- **Rebalancing ends and touches no missing node.** On every valid tree the loop of
`m_rbt_insert`, for every free position, and the loop of `m_rbt_remove_rebalance`, for every
childless node, return after a number of rounds that the height bounds; none of their runs
fails an assertion or stores through `NULL`, whatever the number of rounds it is given.
SOURCE: m_rbtree.h:550-751 -/
theorem rebalance_ends (h : Represents m T) (hv : T.Valid) :
    (∀ node parent pos, NodePtr node → node ∉ T.toList → FreePos m T parent pos →
      ∃ m', Outcome.EndsWithin (T.height + 1) (fun n => mRbtInsert n m parent pos node) m') ∧
    (∀ node ∈ T.toList, (∀ d, m.child d node = NULL) →
      ∃ m', Outcome.EndsWithin (T.height + 2) (fun n => mRbtRemoveRebalance n m node) m') := by
  constructor
  · intro node parent pos hn hfresh hpos
    exact insert_ends h hv hn hfresh hpos
  · intro node hn hc
    exact removeRebalance_ends h hv hn hc

/-- Both loops rotate: at 32 with a node below 48, and at the root before 8 is taken off. -/
theorem rebalance_ends_rotated :
    (∃ m', mRbtInsert 4 fourNodes 48 (.right 48) 56 = .ok m' ∧ (m'.node 16).right = 48) ∧
      ∃ m', mRbtRemoveRebalance 5 fourNodes 8 = .ok m' ∧ m'.tree = 32 := by
  obtain ⟨hinsert, hremove⟩ := rebalance_ends fourNodes_represents fourTree_valid
  constructor
  · obtain ⟨m', hm', -⟩ := hinsert 56 48 (.right 48) ⟨by decide, by unfold Aligned; decide⟩
      (by decide) ⟨rfl, by decide, rfl⟩
    have hright : (mRbtInsert 4 fourNodes 48 (.right 48) 56).check
        (fun m => decide ((m.node 16).right = 48)) = true := by decide +kernel
    have e : mRbtInsert 4 fourNodes 48 (.right 48) 56 = .ok m' := hm' 4 (by decide)
    rw [e] at hright
    exact ⟨m', e, of_decide_eq_true hright⟩
  · obtain ⟨m', hm', -⟩ := hremove 8 (by decide) fun d => by cases d <;> rfl
    have hroot : (mRbtRemoveRebalance 5 fourNodes 8).check (fun m => decide (m.tree = 32)) =
      true := by decide +kernel
    have e : mRbtRemoveRebalance 5 fourNodes 8 = .ok m' := hm' 5 (by decide)
    rw [e] at hroot
    exact ⟨m', e, of_decide_eq_true hroot⟩

end Ming.Analysis
