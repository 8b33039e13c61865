import Ming.Analysis.RBTreeRemove

/-!
# The values saved across the rebalancing of a removal

`m_rbt_remove` computes the victim, its child, its parent and its side before it rebalances, and
unlinks with these values afterwards. The rebalancing rotates at ancestors of the victim only, and
no rotation there moves the link that the victim hangs on.
-/

set_option autoImplicit false

namespace Ming.Analysis

open Ming.Foundation Ming.Model Ming.Interface

variable {m m' : MRBTree} {k k' : RBPath Ptr} {v node : Ptr} {c c' : Color}

/-- The values of `plan`, computed in `m`, are right in `m'`. -/
structure SavedValuesHold (m m' : MRBTree) (node : Ptr) (plan : RemovePlan) : Prop where
  left : (m'.node plan.succ).left = NULL
  right : (m'.node plan.succ).right = NULL
  parent : mRbtParent m' plan.succ = mRbtParent m plan.succ
  side : mRbtParent m plan.succ ≠ NULL → ∀ d,
    m'.child d (mRbtParent m plan.succ) = plan.succ ↔ m.child d (mRbtParent m plan.succ) = plan.succ
  root : mRbtParent m plan.succ = NULL → m'.tree = plan.succ
  leftChild : (m.node node).left = plan.succ → (m'.node node).left = plan.succ
  notParent : (m.node node).left ≠ plan.succ → mRbtParent m' plan.succ ≠ node
  savedParent : plan.parent =
    if mRbtParent m' plan.succ = node then plan.succ else mRbtParent m' plan.succ
  savedSide : mRbtParent m' plan.succ ≠ NULL →
    plan.isLeft = decide ((m'.node (mRbtParent m' plan.succ)).left = plan.succ)
  savedChild : plan.child = NULL

/-! ## Links that the rebalancing keeps -/

/-- INTERNAL: a hole that stays has the same parent. -/
theorem holeParent_of_link (h : holeLink k' = holeLink k) : holeParent k' = holeParent k := by
  cases k with
  | nil =>
    cases k' with
    | nil => rfl
    | cons f' k' => cases h
  | cons f k =>
    cases k' with
    | nil => cases h
    | cons f' k' => exact (Prod.mk.inj (Option.some.inj h)).2

/-- INTERNAL: the root alone has no parent. -/
theorem holeParent_eq_null {t : RBTree Ptr} (h : Focus m k t) : holeParent k = NULL ↔ k = [] := by
  cases k with
  | nil => simp
  | cons f k => exact iff_of_false h.elem_ne_null (by simp)

/-- INTERNAL: the side of a childless node, as the record of its parent has it. -/
theorem child_eq_iff {f : Frame Ptr} (h : Focus m (f :: k) (leaf c v)) (d : Side) :
    m.child d f.elem = v ↔ f.side = d := by
  have hne : leaf c v ≠ .nil := fun e => by cases e
  cases d with
  | left => exact eq_comm.trans (h.left_eq_iff hne)
  | right => exact eq_comm.trans (h.right_eq_iff hne)

/-- INTERNAL: what the victim's link says before holds after.
SOURCE: m_rbtree.h:677-751 -/
theorem link_kept (h : Focus m k (leaf c v)) (h' : Focus m' k' (leaf c' v))
    (hlink : holeLink k' = holeLink k) :
    mRbtParent m v = holeParent k ∧ mRbtParent m' v = holeParent k ∧
      (mRbtParent m v ≠ NULL → ∀ d,
        m'.child d (mRbtParent m v) = v ↔ m.child d (mRbtParent m v) = v) ∧
      (mRbtParent m v = NULL → m'.tree = v) := by
  have hpar : mRbtParent m v = holeParent k := h.parent fun e => by cases e
  have hpar' : mRbtParent m' v = holeParent k' := h'.parent fun e => by cases e
  rw [hpar, hpar', holeParent_of_link hlink]
  refine ⟨rfl, rfl, fun hnull d => ?_, fun hnull => ?_⟩
  · cases k with
    | nil => exact absurd rfl hnull
    | cons f k =>
      cases k' with
      | nil => cases hlink
      | cons f' k' =>
        obtain ⟨hside, helem⟩ := Prod.mk.inj (Option.some.inj hlink)
        have hafter := child_eq_iff h' d
        rw [helem, hside] at hafter
        rw [holeParent_cons, hafter, child_eq_iff h d]
  · obtain rfl := (holeParent_eq_null h).mp hnull
    cases k' with
    | nil => exact h'.path
    | cons f' k' => cases hlink

/-- INTERNAL: the victim hangs below the node itself only as its left child. -/
theorem parent_ne_node {d : Side} (h : Focus m k (leaf c v)) (hnode : node ≠ NULL)
    (hcase : v = node ∨ d = .left ∧ ∃ rest, RBPath.after k = node :: rest)
    (hleft : (m.node node).left ≠ v) : holeParent k ≠ node := by
  cases k with
  | nil => exact hnode.symm
  | cons f k =>
    rintro rfl
    rcases hcase with rfl | ⟨-, rest, hafter⟩
    · have hnd := h.nodup
      simp [RBPath.elems] at hnd
    · have hright : f.side = .right := by
        cases hs : f.side with
        | right => rfl
        | left => exact absurd ((child_eq_iff h .left).mpr hs) hleft
      -- the node would come both before and after the victim
      have hnd := (represents_fill.mpr h).nodup
      have hbefore : f.elem ∈ RBPath.before (f :: k) := by simp [RBPath.before, hright]
      rw [RBPath.toList_fill, hafter, List.nodup_append] at hnd
      exact absurd rfl (hnd.2.2 _ (List.mem_append_left _ hbefore) _ List.mem_cons_self)

/-- INTERNAL: the saved values, as the memory after the rebalancing has them.
SOURCE: m_rbtree.h:768-807 -/
theorem savedValues_hold {plan : RemovePlan} {d : Side} (h : Focus m k (leaf c plan.succ))
    (h' : Focus m' k' (leaf c' plan.succ)) (hlink : holeLink k' = holeLink k)
    (hplan : PlanFor node plan (holeLink k)) (hchild : plan.child = NULL)
    (hn : node ∈ (RBPath.fill k (leaf c plan.succ)).toList)
    (hcase : plan.succ = node ∨ d = .left ∧ ∃ rest, RBPath.after k = node :: rest) :
    SavedValuesHold m m' node plan := by
  obtain ⟨hpar, hpar', hside, hroot⟩ := link_kept h h' hlink
  obtain ⟨-, hleft', hright', -, -⟩ := h'.links
  have hrep := represents_fill.mpr h
  have hnode : node ≠ NULL := (hrep.nodePtr node hn).ne_null
  have hsucc : plan.succ ≠ NULL := h.ne_null fun e => by cases e
  refine ⟨hleft', hright', hpar'.trans hpar.symm, hside, hroot, ?_, ?_, ?_, ?_, hchild⟩
  · intro hleft
    have hchildLeft : m.child .left node = plan.succ := hleft
    have hparent : mRbtParent m plan.succ = node := by
      rw [← hchildLeft]
      apply hrep.parent_child hn
      rw [hchildLeft]
      exact hsucc
    rw [hparent] at hside
    exact (hside hnode .left).mpr hchildLeft
  · intro hleft
    rw [hpar']
    exact parent_ne_node h hnode hcase hleft
  · rw [hpar']
    cases k with
    | nil => exact Eq.trans hplan (if_neg hnode.symm).symm
    | cons f k => exact hplan.2
  · rw [hpar']
    intro hnull
    cases k with
    | nil => exact absurd rfl hnull
    | cons f k =>
      rw [hpar] at hside
      rw [hplan.1]
      exact decide_eq_decide.mpr ((child_eq_iff h .left).symm.trans (hside hnull .left).symm)

/-- INTERNAL: the saved side and child, written through the parent of the victim, unlink the
victim alone.
SOURCE: m_rbtree.h:835-842 -/
theorem unlink_leaf {plan : RemovePlan} (h : Focus m k (leaf c plan.succ))
    (h' : Focus m' k' (leaf c' plan.succ)) (hsame : SameHole k k')
    (hvic : VictimAt m' k' plan.succ .nil) (hsaved : SavedValuesHold m m' node plan) :
    ∃ m'' T', unlinkChild m' { plan with parent := mRbtParent m' plan.succ } = .ok m'' ∧
      Represents m'' T' ∧ T'.Valid ∧
      T'.toList = (RBPath.fill k (leaf c plan.succ)).toList.erase plan.succ := by
  have hpar : mRbtParent m' plan.succ = holeParent k' := h'.parent fun e => by cases e
  have hside : ∀ f k₀, k' = f :: k₀ → plan.isLeft = decide (f.side = .left) := by
    rintro f k₀ rfl
    have hf := hsaved.savedSide
    rw [hpar] at hf
    rw [hf h'.elem_ne_null]
    exact decide_eq_decide.mpr (child_eq_iff h' .left)
  obtain ⟨m'', e, hrep⟩ : ∃ m'', unlinkChild m' { plan with parent := mRbtParent m' plan.succ } =
      .ok m'' ∧ Represents m'' (RBPath.fill k' RBTree.nil.blacken) :=
    unlinkChild_spec hvic.toDetached hsaved.savedChild hpar hside
  refine ⟨m'', _, e, hrep, hvic.valid, ?_⟩
  have hnd := (represents_fill.mpr h).nodup
  have hlist : (RBPath.fill k (leaf c plan.succ)).toList =
      RBPath.before k ++ plan.succ :: RBPath.after k := by
    rw [RBPath.toList_fill]
    simp
  rw [hlist] at hnd ⊢
  rw [erase_middle hnd, RBPath.toList_fill, hsame.before, hsame.after]
  simp

/-- **The values saved before the rebalancing unlink the victim after it.** For every node of a
valid tree whose victim, the node itself or its predecessor, has no child: after
`m_rbt_remove_rebalance` the victim has no child, the same parent and the same side; it is the left
child of the node if it was, and otherwise does not hang below the node. The saved values are
right: the side and the child unlink exactly the victim from its parent, and the rest of
`m_rbt_remove` leaves a valid tree without the node.
SOURCE: m_rbtree.h:677-751, 760-843 -/
theorem rbt_saved_values {T : RBTree Ptr} (h : Represents m T) (hv : T.Valid)
    (hn : node ∈ T.toList) {fuel : ℕ} (hf : T.toList.length + 3 ≤ fuel) :
    ∃ plan, removePlan fuel m node = .ok plan ∧
      (plan.succ = node ∨ ∃ l r, T.toList = l ++ plan.succ :: node :: r) ∧
      ((m.node plan.succ).left = NULL → (m.node plan.succ).right = NULL →
        ∃ m', mRbtRemoveRebalance fuel m plan.succ = .ok m' ∧ SavedValuesHold m m' node plan ∧
          (∃ m'' T', unlinkChild m' { plan with parent := mRbtParent m' plan.succ } = .ok m'' ∧
            Represents m'' T' ∧ T'.Valid ∧ T'.toList = T.toList.erase plan.succ) ∧
          ∃ m'' T', unlinkVictim m' node plan = .ok m'' ∧ Represents m'' T' ∧ T'.Valid ∧
            T'.toList = T.toList.erase node) := by
  have hfuel : T.toList.length ≤ fuel := by omega
  obtain ⟨plan, k, d, c, C, eplan, hT, hchild, hplan, hcase⟩ := removePlan_spec h hn hfuel
  have hlen := hole_length hT hf
  subst hT
  refine ⟨plan, eplan, ?_, fun hleft hright => ?_⟩
  · rcases hcase with hs | ⟨rfl, rest, hrest⟩
    · exact Or.inl hs
    · refine Or.inr ⟨RBPath.before k ++ C.toList, rest, ?_⟩
      rw [RBPath.toList_fill, hrest]
      simp [RBTree.join]
  · have hfo := represents_fill.mp h
    have hC : C = .nil := by
      by_contra hne
      have hdown := hfo.down (f := ⟨d, c, plan.succ, .nil⟩)
      apply hdown.ne_null hne
      rw [← hdown.child_parent.1]
      cases d with
      | left => exact hleft
      | right => exact hright
    subst hC
    have hleaf : RBTree.join d c .nil plan.succ .nil = leaf c plan.succ := by cases d <;> rfl
    have hunlink := fun m₁ k₁ (hvic : VictimAt m₁ k₁ plan.succ .nil) =>
      unlinkVictim_spec h.nodup hchild hplan hcase hvic
    rw [hleaf] at h hv hn hfo hunlink ⊢
    obtain ⟨m', k', c', e, h', hsame, hval⟩ := rebalance_leaf h hv hlen
    have hvic : VictimAt m' k' plan.succ .nil :=
      Focus.victimAt (d := .left) h' (Or.inl rfl) hval
    have hsaved := savedValues_hold hfo h' hsame.link hplan hchild hn hcase
    exact ⟨m', e, hsaved, unlink_leaf hfo h' hsame hvic hsaved, hunlink m' k' hvic hsame⟩

/-- A tree of three nodes, 16 above 8 and 24. -/
def threeNodes : MRBTree := ⟨16, fun p => if p = 16 then ⟨1, 8, 24⟩ else ⟨16, 0, 0⟩⟩

/-- The left child takes the place of the root and stays its left child until then. -/
theorem rbt_saved_values_root : ∃ m', mRbtRemoveRebalance 6 threeNodes 8 = .ok m' ∧
    (m'.node 16).left = 8 := by
  have hrep : Represents threeNodes
      (.node .black (.node .red .nil 8 .nil) 16 (.node .red .nil 24 .nil)) := by
    refine ⟨rfl, ⟨rfl, rfl, rfl, ⟨rfl, rfl, rfl, trivial, trivial⟩, rfl, rfl, rfl, trivial,
      trivial⟩, by decide, fun p hp => ?_⟩
    have hcases : p = 8 ∨ p = 16 ∨ p = 24 := by simpa using hp
    rcases hcases with rfl | rfl | rfl <;> exact ⟨by decide, by unfold Aligned; decide⟩
  have hvalid : RBTree.Valid
      (.node .black (.node .red .nil 8 .nil) 16 (.node .red .nil (24 : Ptr) .nil)) :=
    ⟨rfl, by simp [RBTree.NoRedRed], 1, 0, ⟨0, rfl, rfl, rfl⟩, ⟨0, rfl, rfl, rfl⟩, rfl⟩
  have hnode : (16 : Ptr) ∈ (RBTree.node .black (.node .red .nil 8 .nil) (16 : Ptr)
      (.node .red .nil 24 .nil)).toList := by decide
  obtain ⟨plan, e, -, hsaved⟩ := rbt_saved_values hrep hvalid hnode (show 3 + 3 ≤ 6 by decide)
  have hplan : removePlan 6 threeNodes 16 = .ok ⟨8, 0, 8, true⟩ := rfl
  obtain rfl := Except.ok.inj (hplan.symm.trans e)
  obtain ⟨m', e', hkept, -⟩ := hsaved rfl rfl
  exact ⟨m', e', hkept.leftChild rfl⟩

end Ming.Analysis
