import Mathlib.Data.List.Induction
import Ming.Analysis.RBTreeStores

/-!
# Rebalancing before a removal

`m_rbt_remove_rebalance` runs while the childless node that will be unlinked, the victim,
is still in the tree. Its invariant is therefore about the tree without the victim: `kin`
leads from the victim up to the focused node, `k` from there to the root, and the focused
subtree is one black node too low. At the end the tree without the victim is valid, and the
victim still hangs on the same side of the same parent.
-/

set_option autoImplicit false

namespace Ming.Analysis

open Ming.Foundation Ming.Model Ming.Interface

variable {m : MRBTree} {kin k : RBPath Ptr} {v : Ptr}

/-- The victim as the code sees it: a node without children. -/
abbrev leaf (c : Color) (v : Ptr) : RBTree Ptr := .node c .nil v .nil

/-- The side and the parent a hole hangs on. -/
def holeLink : RBPath Ptr → Option (Side × Ptr)
  | [] => none
  | f :: _ => some (f.side, f.elem)

/-- Two paths whose holes are the same to the victim: on the same link, at the same place
of the in-order sequence. -/
structure SameHole (k k' : RBPath Ptr) : Prop where
  link : holeLink k' = holeLink k
  before : RBPath.before k' = RBPath.before k
  after : RBPath.after k' = RBPath.after k

/-- INTERNAL: the hole has not moved. -/
theorem SameHole.refl (k : RBPath Ptr) : SameHole k k := ⟨rfl, rfl, rfl⟩

/-- INTERNAL: a hole that stays twice. -/
theorem SameHole.trans {k₁ k₂ k₃ : RBPath Ptr} (h : SameHole k₁ k₂) (h' : SameHole k₂ k₃) :
    SameHole k₁ k₃ :=
  ⟨h'.link.trans h.link, h'.before.trans h.before, h'.after.trans h.after⟩

/-- INTERNAL: paths that agree at their lower end agree below it. -/
theorem SameHole.append {k₁ k₂ : RBPath Ptr} (kin : RBPath Ptr) (h : SameHole k₁ k₂) :
    SameHole (kin ++ k₁) (kin ++ k₂) := by
  refine ⟨?_, ?_, ?_⟩
  · cases kin with
    | nil => exact h.link
    | cons f kin => rfl
  · rw [RBPath.before_append, RBPath.before_append, h.before]
  · rw [RBPath.after_append, RBPath.after_append, h.after]

/-- INTERNAL: new colors beside the hole. -/
theorem SameHole.other {d : Side} {c c' : Color} {p : Ptr} {o o' : RBTree Ptr}
    (h : o'.toList = o.toList) : SameHole (⟨d, c, p, o⟩ :: k) (⟨d, c', p, o'⟩ :: k) := by
  refine ⟨rfl, ?_, ?_⟩
  · cases d <;> simp [RBPath.before, h]
  · cases d <;> simp [RBPath.after, h]

/-- INTERNAL: rotating the parent of the hole towards it. -/
theorem SameHole.rotated {d : Side} {c c₁ c₂ cs : Color} {p s : Ptr} {A B B' : RBTree Ptr}
    (h : B'.toList = B.toList) :
    SameHole (⟨d, c, p, RBTree.join d cs A s B⟩ :: k)
      (⟨d, c₁, p, A⟩ :: ⟨d, c₂, s, B'⟩ :: k) := by
  refine ⟨rfl, ?_, ?_⟩
  · cases d <;> simp [RBPath.before, RBTree.join, h]
  · cases d <;> simp [RBPath.after, RBTree.join, h]

/-- The loop invariant of `m_rbt_remove_rebalance`. -/
structure RemoveInv (kin k : RBPath Ptr) : Prop where
  black : (RBPath.fill kin .nil).rootColor = .black
  noRedRed : (RBPath.fill kin .nil).NoRedRed
  path : k.NoRedRed .black
  rootBlack : k.RootBlack
  balanced : ∃ h H, (RBPath.fill kin .nil).BlackHeight h ∧ k.BlackHeight (h + 1) H

/-- INTERNAL: a hole that lacks a black node has a sibling. -/
theorem RemoveInv.other_ne_nil {f : Frame Ptr} (h : RemoveInv kin (f :: k)) :
    f.other ≠ .nil := by
  obtain ⟨j, H, -, hb, -⟩ := h.balanced
  exact hb.ne_nil

/-- INTERNAL: a black leaf in the hole keeps the color of the root. -/
theorem rootColor_fill_leaf (kin : RBPath Ptr) (v : Ptr) :
    (RBPath.fill kin (leaf .black v)).rootColor = (RBPath.fill kin .nil).rootColor := by
  induction kin using List.reverseRecOn with
  | nil => rfl
  | append_singleton kin f _ => simp [RBPath.fill_append]

/-! ## The blocks of the loop -/

/-- INTERNAL: with a red sibling, one rotation gives the focused node a black one.
SOURCE: m_rbtree.h:693-701 -/
theorem remove_redSibling_spec {d : Side} {p s : Ptr} {t A B : RBTree Ptr}
    (h : Focus m (⟨d, .black, p, RBTree.join d .red A s B⟩ :: k) t) (ht : t ≠ .nil) :
    ∃ m', (∀ r : MRBTree → Outcome MRBTree, (do
        let m ← mRbtSetColor m p M_RB_RED
        let m ← mRbtSetColor m s M_RB_BLACK
        let m ← (if rootPtr t = (m.node p).left then mRbtRotateLeft m p
                 else mRbtRotateRight m p)
        r m) = r m') ∧
      Focus m' (⟨d, .red, p, A⟩ :: ⟨d, .black, s, B⟩ :: k) t := by
  obtain ⟨m1, e1, h1⟩ := setColor_spec .red h.up
  have h1' := (h1.down (f := ⟨d, .red, p, RBTree.join d .red A s B⟩)).across
  obtain ⟨m2, e2, h2⟩ := setColor_spec .black h1'
  have h2' := h2.across
  rw [Side.flip_flip] at h2'
  have hside := h2'.left_eq_iff ht
  obtain ⟨m3, e3, h3⟩ := rotate_spec h2'.up
  refine ⟨m3, fun r => ?_, ?_⟩
  · simp only [colorBit_black, colorBit_red] at e1 e2
    simp only [e1, e2, Outcome.ok_bind]
    cases d with
    | left =>
      rw [if_pos (hside.mpr rfl)]
      exact congrArg (· >>= r) e3
    | right =>
      rw [if_neg (fun e => by simpa using hside.mp e)]
      exact congrArg (· >>= r) e3
  · exact (h3.down (f := ⟨d, .black, s, B⟩)).down (f := ⟨d, .red, p, A⟩)

/-- INTERNAL: the last block of the loop: the sibling takes the colour and the place of the
parent, its far child `b` and the parent become black.
SOURCE: m_rbtree.h:735-748 -/
theorem remove_outer_spec {d : Side} {c cs cb : Color} {p s b : Ptr} {t A B₁ B₂ : RBTree Ptr}
    (h : Focus m (⟨d, c, p, RBTree.join d cs A s (RBTree.join d cb B₁ b B₂)⟩ :: k) t)
    (ht : t ≠ .nil) (sleft sright : Ptr) (hfar : (if d = .left then sright else sleft) = b) :
    ∃ m', (do
        let m' ← mRbtSetColor m p M_RB_BLACK
        let m ← mRbtSetColor m' s (mRbtColor m p)
        if rootPtr t = (m.node p).left then do
          let m ← mRbtSetColor m sright M_RB_BLACK
          mRbtRotateLeft m p
        else do
          let m ← mRbtSetColor m sleft M_RB_BLACK
          mRbtRotateRight m p : Outcome MRBTree) = .ok m' ∧
      Focus m' (⟨d, .black, p, A⟩ :: ⟨d, c, s, RBTree.join d .black B₁ b B₂⟩ :: k) t := by
  have hc := h.color_parent
  obtain ⟨m1, e1, h1⟩ := setColor_spec .black h.up
  have h1' :=
    (h1.down (f := ⟨d, .black, p, RBTree.join d cs A s (RBTree.join d cb B₁ b B₂)⟩)).across
  obtain ⟨m2, e2, h2⟩ := setColor_spec c h1'
  have h2' := h2.across
  rw [Side.flip_flip] at h2'
  have hside := h2'.left_eq_iff ht
  have h2'' : Focus m2 (⟨d.flip, .black, p, t⟩ :: k)
      (RBTree.join d.flip c (RBTree.join d cb B₁ b B₂) s A) := by
    rw [RBTree.join_flip]
    exact h2
  obtain ⟨m3, e3, h3⟩ := setColor_spec .black
    (h2''.down (f := ⟨d.flip, c, s, A⟩) (t := RBTree.join d cb B₁ b B₂))
  have h3' := h3.up
  rw [RBTree.join_flip] at h3'
  have h3'' := h3'.across
  rw [Side.flip_flip] at h3''
  obtain ⟨m4, e4, h4⟩ := rotate_spec h3''.up
  refine ⟨m4, ?_, ?_⟩
  · dsimp only at hc
    simp only [colorBit_black] at e1 e3
    simp only [hc, e1, e2, Outcome.ok_bind]
    cases d with
    | left =>
      rw [if_pos (hside.mpr rfl), show sright = b from hfar, e3]
      exact e4
    | right =>
      rw [if_neg (fun e => by simpa using hside.mp e), show sleft = b from hfar, e3]
      exact e4
  · exact (h4.down (f := ⟨d, c, s, RBTree.join d .black B₁ b B₂⟩)).down (f := ⟨d, .black, p, A⟩)

/-- INTERNAL: reading the children of the sibling and their colours. -/
theorem sibling_children {d : Side} {c cs : Color} {p s : Ptr} {t A B : RBTree Ptr}
    (h : Focus m (⟨d, c, p, RBTree.join d cs A s B⟩ :: k) t) :
    s ≠ NULL ∧ m.child d s = rootPtr A ∧ m.child d.flip s = rootPtr B ∧
      mRbtColor m (rootPtr A) = colorBit A.rootColor ∧
      mRbtColor m (rootPtr B) = colorBit B.rootColor := by
  have hs := (h.across.down (f := ⟨d, cs, s, B⟩))
  exact ⟨hs.elem_ne_null, hs.child_parent.1, hs.child_parent.2, hs.color, hs.across.color⟩

/-- INTERNAL: the code finds both children of the sibling black when they are.
SOURCE: m_rbtree.h:703-709 -/
theorem nephews_black {d : Side} {c cs : Color} {p s : Ptr} {t A B : RBTree Ptr}
    (h : Focus m (⟨d, c, p, RBTree.join d cs A s B⟩ :: k) t) :
    (mRbtColor m (m.node s).left = M_RB_BLACK ∧ mRbtColor m (m.node s).right = M_RB_BLACK) ↔
      A.rootColor = .black ∧ B.rootColor = .black := by
  obtain ⟨-, hsA, hsB, hcA, hcB⟩ := sibling_children h
  cases d with
  | left =>
    rw [show (m.node s).left = rootPtr A from hsA, show (m.node s).right = rootPtr B from hsB,
      hcA, hcB, colorBit_eq_black, colorBit_eq_black]
  | right =>
    rw [show (m.node s).right = rootPtr A from hsA, show (m.node s).left = rootPtr B from hsB,
      hcA, hcB, colorBit_eq_black, colorBit_eq_black]
    exact and_comm

/-- INTERNAL: a red near child of the sibling is first rotated to the outside.
SOURCE: m_rbtree.h:717-733 -/
theorem remove_inner_spec {d : Side} {c : Color} {p s a : Ptr} {t A₁ A₂ B : RBTree Ptr}
    (h : Focus m (⟨d, c, p, RBTree.join d .black (RBTree.join d .red A₁ a A₂) s B⟩ :: k) t) :
    ∃ m', (∀ r : MRBTree → Outcome MRBTree, (do
        let m ← mRbtSetColor m a M_RB_BLACK
        let m ← mRbtSetColor m s M_RB_RED
        let m ← rotate d.flip m s
        r m) = r m') ∧
      Focus m' (⟨d, c, p, RBTree.join d .black A₁ a (RBTree.join d .red A₂ s B)⟩ :: k) t := by
  obtain ⟨m1, e1, h1⟩ := setColor_spec .black (h.across.down (f := ⟨d, .black, s, B⟩))
  obtain ⟨m2, e2, h2⟩ := setColor_spec .red h1.up
  have h2' : Focus m2 (⟨d.flip, c, p, t⟩ :: k)
      (RBTree.join d.flip .red B s (RBTree.join d.flip .black A₂ a A₁)) := by
    rw [RBTree.join_flip, RBTree.join_flip]
    exact h2
  obtain ⟨m3, e3, h3⟩ := rotate_spec h2'
  refine ⟨m3, fun r => ?_, ?_⟩
  · simp only [colorBit_black, colorBit_red] at e1 e2
    simp only [e1, e2, e3, Outcome.ok_bind]
  · rw [RBTree.join_flip, RBTree.join_flip] at h3
    have h3' := h3.across
    rw [Side.flip_flip] at h3'
    exact h3'

/-! ## One round of the loop -/

section Rounds

variable {d : Side} {c : Color} {p s : Ptr} {t A B : RBTree Ptr}

/-- INTERNAL: what a round reads above its node.
SOURCE: m_rbtree.h:688-693 -/
theorem round_reads {o : RBTree Ptr} (h : Focus m (⟨d, c, p, o⟩ :: k) t) (ht : t ≠ .nil) :
    mRbtParent m (rootPtr t) = p ∧ mRbtSibling m (rootPtr t) = rootPtr o ∧
      mRbtColor m (rootPtr o) = colorBit o.rootColor ∧ p ≠ NULL :=
  ⟨h.parent ht, h.sibling ht, h.across.color, h.elem_ne_null⟩

variable (fuel : ℕ) (ht : t ≠ .nil) (hcol : mRbtColor m (rootPtr t) = M_RB_BLACK)
include ht hcol

/-- INTERNAL: a round with a red sibling; the next one is on the same node.
SOURCE: m_rbtree.h:677-701 -/
theorem remove_redSibling_round (h : Focus m (⟨d, .black, p, RBTree.join d .red A s B⟩ :: k) t) :
    ∃ m', mRbtRemoveRebalance (fuel + 1) m (rootPtr t) =
        mRbtRemoveRebalance fuel m' (rootPtr t) ∧
      Focus m' (⟨d, .red, p, A⟩ :: ⟨d, .black, s, B⟩ :: k) t := by
  obtain ⟨m1, e1, h1⟩ := remove_redSibling_spec h ht
  obtain ⟨hparent, hsib, hoc, hpne⟩ := round_reads h ht
  refine ⟨m1, ?_, h1⟩
  rw [mRbtRemoveRebalance]
  simp only [hcol, hparent, hsib, hoc]
  rw [if_neg (by decide), if_neg hpne, if_pos (by simp), rootPtr_join]
  exact e1 _

section BlackSibling

variable (h : Focus m (⟨d, c, p, RBTree.join d .black A s B⟩ :: k) t)
include h

/-- INTERNAL: a round with a black sibling that has black children: it turns red, and the next
round is on the parent.
SOURCE: m_rbtree.h:703-714 -/
theorem remove_blackNephews_round (hAB : A.rootColor = .black ∧ B.rootColor = .black) :
    ∃ m', mRbtRemoveRebalance (fuel + 1) m (rootPtr t) = mRbtRemoveRebalance fuel m' p ∧
      Focus m' k (RBTree.join d c t p (RBTree.join d .red A s B)) := by
  obtain ⟨hsne, -⟩ := sibling_children h
  obtain ⟨hparent, hsib, hoc, hpne⟩ := round_reads h ht
  obtain ⟨m1, e1, h1⟩ := setColor_spec .red h.across
  have e1' : mRbtSetColor m s M_RB_RED = .ok m1 := e1
  have h1' := h1.across
  rw [Side.flip_flip] at h1'
  refine ⟨m1, ?_, h1'.up⟩
  rw [mRbtRemoveRebalance]
  simp only [hcol, hparent, hsib, hoc]
  rw [if_neg (by decide), if_neg hpne, if_neg (by simp), rootPtr_join]
  simp only [hsne, ne_eq, not_false_eq_true, if_true]
  rw [if_pos ((nephews_black h).mpr hAB), e1']
  rfl

/-- INTERNAL: a round with a black sibling whose near child is red: two rotations end the loop.
SOURCE: m_rbtree.h:717-748 -/
theorem remove_nearRed_round {A₁ A₂ : RBTree Ptr} {a : Ptr} (hA : A = RBTree.join d .red A₁ a A₂) :
    ∃ m', mRbtRemoveRebalance (fuel + 1) m (rootPtr t) = .ok m' ∧
      Focus m' (⟨d, .black, p, A₁⟩ :: ⟨d, c, a, RBTree.join d .black A₂ s B⟩ :: k) t := by
  subst hA
  obtain ⟨hsne, hsA, -, hcA, -⟩ := sibling_children h
  rw [rootPtr_join] at hsA hcA
  simp only [RBTree.rootColor_join, colorBit_red] at hcA
  obtain ⟨hparent, hsib, hoc, hpne⟩ := round_reads h ht
  have hnl := h.left_eq_iff ht
  have hnr := h.right_eq_iff ht
  dsimp only at hnl hnr
  have hboth := (nephews_black h).not.mpr fun e => by simp at e
  obtain ⟨m1, e1, h1⟩ := remove_inner_spec h
  obtain ⟨m2, e2, h2⟩ := remove_outer_spec h1 ht (if d = .left then a else s)
    (if d = .left then s else a) (by cases d <;> rfl)
  refine ⟨m2, ?_, h2⟩
  rw [mRbtRemoveRebalance]
  simp only [hcol, hparent, hsib, hoc]
  rw [if_neg (by decide), if_neg hpne, if_neg (by simp), rootPtr_join]
  simp only [hsne, ne_eq, not_false_eq_true, if_true]
  rw [if_neg hboth]
  cases d with
  | left =>
    rw [if_pos ⟨hnl.mpr rfl, by rw [show (m.node s).left = a from hsA, hcA]⟩]
    rw [show (m.node s).left = a from hsA]
    simp only [bind_assoc, Outcome.pure_eq_ok, Outcome.ok_bind]
    exact (e1 _).trans e2
  | right =>
    rw [if_neg (fun e => by simpa using hnl.mp e.1),
      if_pos ⟨hnr.mpr rfl, by rw [show (m.node s).right = a from hsA, hcA]⟩]
    rw [show (m.node s).right = a from hsA]
    simp only [bind_assoc, Outcome.pure_eq_ok, Outcome.ok_bind]
    exact (e1 _).trans e2

/-- INTERNAL: a round with a black sibling whose far child alone is red: one rotation ends the
loop.
SOURCE: m_rbtree.h:735-748 -/
theorem remove_farRed_round {B₁ B₂ : RBTree Ptr} {b : Ptr} (hA : A.rootColor = .black)
    (hB : B = RBTree.join d .red B₁ b B₂) :
    ∃ m', mRbtRemoveRebalance (fuel + 1) m (rootPtr t) = .ok m' ∧
      Focus m' (⟨d, .black, p, A⟩ :: ⟨d, c, s, RBTree.join d .black B₁ b B₂⟩ :: k) t := by
  subst hB
  obtain ⟨hsne, hsA, hsB, hcA, -⟩ := sibling_children h
  rw [rootPtr_join] at hsB
  rw [hA] at hcA
  obtain ⟨hparent, hsib, hoc, hpne⟩ := round_reads h ht
  have hnl := h.left_eq_iff ht
  have hnr := h.right_eq_iff ht
  dsimp only at hnl hnr
  have hboth := (nephews_black h).not.mpr fun e => by simp at e
  -- the near child is black on either side
  have hnear : ∀ q, q = rootPtr A → mRbtColor m q ≠ M_RB_RED := by
    rintro q rfl e
    rw [hcA] at e
    exact absurd e (by decide)
  obtain ⟨m1, e1, h1⟩ := remove_outer_spec h ht (m.node s).left (m.node s).right
    (by cases d <;> exact hsB)
  refine ⟨m1, ?_, h1⟩
  rw [mRbtRemoveRebalance]
  simp only [hcol, hparent, hsib, hoc]
  rw [if_neg (by decide), if_neg hpne, if_neg (by simp), rootPtr_join]
  simp only [hsne, ne_eq, not_false_eq_true, if_true]
  rw [if_neg hboth]
  cases d with
  | left =>
    rw [if_neg (fun e => hnear _ hsA e.2), if_neg (fun e => by simpa using hnr.mp e.1)]
    exact e1
  | right =>
    rw [if_neg (fun e => by simpa using hnl.mp e.1), if_neg (fun e => hnear _ hsA e.2)]
    exact e1

end BlackSibling

end Rounds

/-! ## The loop -/

/-- INTERNAL: recolouring the red root of the focused subtree ends the loop.
SOURCE: m_rbtree.h:683-687 -/
theorem RemoveInv.setBlack {f : Frame Ptr} (h : RemoveInv kin (f :: k))
    {o : RBTree Ptr} (ho : o.NoRedRed) {j H : ℕ} (hb : (RBPath.fill kin .nil).BlackHeight j)
    (hob : o.BlackHeight j) (hk : k.BlackHeight (j + 1) H) :
    (RBPath.fill (kin ++ ⟨f.side, .black, f.elem, o⟩ :: k) .nil).Valid := by
  obtain ⟨-, -, hkn⟩ := h.path
  refine ⟨?_, ?_, H, ?_⟩
  · rw [RBPath.fill_append, RBPath.fill_cons]
    cases k with
    | nil => simp
    | cons g k => exact (RBPath.rootColor_fill_cons ..).mpr h.rootBlack
  · rw [RBPath.fill_append, RBPath.noRedRed_fill]
    exact ⟨h.noRedRed, nofun, ho, hkn.black⟩
  · rw [RBPath.fill_append, RBPath.blackHeight_fill]
    exact ⟨j, hb, hob, hk⟩

/-- INTERNAL: the tree without the victim after the last rotation. -/
theorem RemoveInv.rotated {d : Side} {c : Color} {p s b q : Ptr} {A B₁ B₂ O : RBTree Ptr}
    (h : RemoveInv kin (⟨d, c, q, O⟩ :: k)) (hA : A.NoRedRed) (hB : B₁.NoRedRed ∧ B₂.NoRedRed)
    {j H : ℕ} (hj : (RBPath.fill kin .nil).BlackHeight j) (hAj : A.BlackHeight j)
    (hBj : B₁.BlackHeight j ∧ B₂.BlackHeight j)
    (hk : k.BlackHeight (j + 1 + RBTree.blackWeight c) H) :
    (RBPath.fill (kin ++ ⟨d, .black, p, A⟩ :: ⟨d, c, s, RBTree.join d .black B₁ b B₂⟩ :: k)
      .nil).Valid := by
  obtain ⟨-, -, hkn⟩ := h.path
  refine ⟨?_, ?_, H, ?_⟩
  · rw [RBPath.fill_append, RBPath.fill_cons, RBPath.rootColor_fill_cons]
    exact h.rootBlack.congr (by rfl)
  · rw [RBPath.fill_append, RBPath.noRedRed_fill]
    refine ⟨h.noRedRed, nofun, hA, ?_, ?_, hkn⟩
    · exact fun _ => ⟨rfl, by simp⟩
    · exact (RBTree.noRedRed_join ..).mpr ⟨nofun, hB⟩
  · rw [RBPath.fill_append, RBPath.blackHeight_fill]
    exact ⟨j, hj, hAj, (RBTree.blackHeight_join ..).mpr ⟨j, hBj.1, hBj.2, rfl⟩, hk⟩

/-- INTERNAL: after the rotation of a red sibling the invariant holds with a black one. -/
theorem RemoveInv.redSibling {d : Side} {c : Color} {p s : Ptr} {A B : RBTree Ptr}
    (h : RemoveInv kin (⟨d, c, p, RBTree.join d .red A s B⟩ :: k)) :
    c = .black ∧ RemoveInv kin (⟨d, .red, p, A⟩ :: ⟨d, .black, s, B⟩ :: k) := by
  obtain ⟨hred, hon, hkn⟩ := h.path
  obtain ⟨j, H, hj, hoj, hkj⟩ := h.balanced
  obtain rfl : c = .black := by
    cases c with
    | black => rfl
    | red => exact absurd (hred rfl).2 (by simp)
  obtain ⟨hAB, hAn, hBn⟩ := (RBTree.noRedRed_join ..).mp hon
  obtain ⟨i, hAi, hBi, e⟩ := (RBTree.blackHeight_join ..).mp hoj
  obtain rfl : j + 1 = i := e
  have hroot : RBPath.RootBlack (⟨d, .black, s, B⟩ :: k) := h.rootBlack.congr (by rfl)
  refine ⟨rfl, h.black, h.noRedRed, ?_, hroot, j, H, hj, hAi, hBi, hkj⟩
  exact ⟨fun _ => ⟨rfl, (hAB rfl).1⟩, hAn, by simp, hBn, hkn⟩

/-- INTERNAL: below a black parent a sibling with black children turns red, and the invariant
holds one node higher. -/
theorem RemoveInv.climb {d : Side} {p s : Ptr} {A B : RBTree Ptr}
    (h : RemoveInv kin (⟨d, .black, p, RBTree.join d .black A s B⟩ :: k))
    (hred : (RBTree.join d .red A s B).NoRedRed) :
    RemoveInv (kin ++ [⟨d, .black, p, RBTree.join d .red A s B⟩]) k := by
  obtain ⟨-, -, hkn⟩ := h.path
  obtain ⟨j, H, hj, hoj, hkj⟩ := h.balanced
  have hredj : (RBTree.join d .red A s B).BlackHeight j := by
    obtain ⟨i, hAi, hBi, e⟩ := (RBTree.blackHeight_join ..).mp hoj
    obtain rfl : j = i := by simpa using e
    exact (RBTree.blackHeight_join ..).mpr ⟨j, hAi, hBi, rfl⟩
  refine ⟨?_, ?_, hkn, ?_, j + 1, H, ?_, hkj⟩
  · simp [RBPath.fill_append]
  · rw [RBPath.fill_append, RBPath.fill_cons, RBPath.fill_nil, RBTree.noRedRed_join]
    exact ⟨by simp, h.noRedRed, hred⟩
  · cases k with
    | nil => trivial
    | cons g k => exact h.rootBlack
  · rw [RBPath.fill_append, RBPath.fill_cons, RBPath.fill_nil, RBTree.blackHeight_join]
    exact ⟨j, hj, hredj, rfl⟩

/-- INTERNAL: a tree with a leaf is not empty. -/
theorem fill_leaf_ne_nil (kin : RBPath Ptr) (c : Color) (v : Ptr) :
    RBPath.fill kin (leaf c v) ≠ .nil := by
  intro e
  have hv := (RBPath.mem_fill kin (leaf c v) v).mpr (Or.inl (by simp))
  rw [e] at hv
  simp at hv

/-- INTERNAL: the node of the loop is black. -/
theorem RemoveInv.color (hi : RemoveInv kin k) (h : Focus m k (RBPath.fill kin (leaf .black v))) :
    mRbtColor m (rootPtr (RBPath.fill kin (leaf .black v))) = M_RB_BLACK := by
  rw [h.color, rootColor_fill_leaf, hi.black]
  rfl

section LastRounds

variable {d : Side} {c : Color} {p s : Ptr} {A B : RBTree Ptr} (fuel : ℕ)

/-- INTERNAL: below a red parent a sibling with black children ends the loop: the next round
makes the parent black.
SOURCE: m_rbtree.h:683-687, 703-714 -/
theorem remove_redParent_end
    (h : Focus m (⟨d, .red, p, RBTree.join d .black A s B⟩ :: k)
      (RBPath.fill kin (leaf .black v)))
    (hi : RemoveInv kin (⟨d, .red, p, RBTree.join d .black A s B⟩ :: k))
    (hAB : A.rootColor = .black ∧ B.rootColor = .black)
    (hred : (RBTree.join d .red A s B).NoRedRed) :
    ∃ m' k', mRbtRemoveRebalance (fuel + 1 + 1) m
        (rootPtr (RBPath.fill kin (leaf .black v))) = .ok m' ∧ Focus m' k' (leaf .black v) ∧
      SameHole (kin ++ ⟨d, .red, p, RBTree.join d .black A s B⟩ :: k) k' ∧
      (RBPath.fill k' .nil).Valid := by
  obtain ⟨j, H, hj, hoj, hkj⟩ := hi.balanced
  obtain ⟨i, hAi, hBi, e⟩ := (RBTree.blackHeight_join ..).mp hoj
  obtain rfl : j = i := by simpa using e
  have hredj : (RBTree.join d .red A s B).BlackHeight j :=
    (RBTree.blackHeight_join ..).mpr ⟨j, hAi, hBi, rfl⟩
  have hlist : (RBTree.join d .red A s B).toList = (RBTree.join d .black A s B).toList := by
    cases d <;> rfl
  obtain ⟨m1, e1, hfocus⟩ := remove_blackNephews_round (fuel + 1) (fill_leaf_ne_nil kin .black v)
    (hi.color h) h hAB
  obtain ⟨m2, e2, h2⟩ := setColor_spec .black hfocus
  have hc1 : mRbtColor m1 p = M_RB_RED := by simpa using hfocus.color
  refine ⟨m2, kin ++ ⟨d, .black, p, RBTree.join d .red A s B⟩ :: k, ?_, ?_, ?_, ?_⟩
  · rw [e1, mRbtRemoveRebalance, hc1, if_pos rfl]
    exact e2
  · apply (Focus.append_iff kin).mpr
    exact h2.down (f := ⟨d, .black, p, RBTree.join d .red A s B⟩)
  · exact SameHole.append kin (SameHole.other hlist)
  · exact hi.setBlack hred hj hredj hkj

/-- INTERNAL: a black sibling with a red child ends the loop with at most two rotations.
SOURCE: m_rbtree.h:716-748 -/
theorem remove_redNephew_end
    (h : Focus m (⟨d, c, p, RBTree.join d .black A s B⟩ :: k) (RBPath.fill kin (leaf .black v)))
    (hi : RemoveInv kin (⟨d, c, p, RBTree.join d .black A s B⟩ :: k))
    (hAB : ¬ (A.rootColor = .black ∧ B.rootColor = .black)) :
    ∃ m' k', mRbtRemoveRebalance (fuel + 1) m
        (rootPtr (RBPath.fill kin (leaf .black v))) = .ok m' ∧ Focus m' k' (leaf .black v) ∧
      SameHole (kin ++ ⟨d, c, p, RBTree.join d .black A s B⟩ :: k) k' ∧
      (RBPath.fill k' .nil).Valid := by
  have hne := fill_leaf_ne_nil kin .black v
  have hcol := hi.color h
  obtain ⟨j, H, hj, hoj, hkj⟩ := hi.balanced
  obtain ⟨-, hon, -⟩ := hi.path
  obtain ⟨-, hAn, hBn⟩ := (RBTree.noRedRed_join ..).mp hon
  obtain ⟨i, hAi, hBi, e⟩ := (RBTree.blackHeight_join ..).mp hoj
  obtain rfl : j = i := by simpa using e
  cases hA : A.rootColor with
  | red =>
    obtain ⟨A₁, a, A₂, rfl⟩ := RBTree.exists_join_of_red d hA
    obtain ⟨-, hAn₁, hAn₂⟩ := (RBTree.noRedRed_join ..).mp hAn
    obtain ⟨i, hAi₁, hAi₂, e⟩ := (RBTree.blackHeight_join ..).mp hAi
    obtain rfl : j = i := by simpa using e
    obtain ⟨m1, e1, h1⟩ := remove_nearRed_round fuel hne hcol h rfl
    refine ⟨m1, _, e1, (Focus.append_iff kin).mpr h1, ?_, ?_⟩
    · have hrot : SameHole
          (⟨d, c, p, RBTree.join d .black (RBTree.join d .red A₁ a A₂) s B⟩ :: k)
          (⟨d, c, p, RBTree.join d .black A₁ a (RBTree.join d .red A₂ s B)⟩ :: k) :=
        SameHole.other (by cases d <;> simp [RBTree.join])
      apply SameHole.append kin (hrot.trans (SameHole.rotated _))
      cases d <;> rfl
    · exact hi.rotated hAn₁ ⟨hAn₂, hBn⟩ hj hAi₁ ⟨hAi₂, hBi⟩ hkj
  | black =>
    have hB : B.rootColor = .red := by
      cases hB : B.rootColor with
      | red => rfl
      | black => exact absurd ⟨hA, hB⟩ hAB
    obtain ⟨B₁, b, B₂, rfl⟩ := RBTree.exists_join_of_red d hB
    obtain ⟨-, hBn₁, hBn₂⟩ := (RBTree.noRedRed_join ..).mp hBn
    obtain ⟨i, hBi₁, hBi₂, e⟩ := (RBTree.blackHeight_join ..).mp hBi
    obtain rfl : j = i := by simpa using e
    obtain ⟨m1, e1, h1⟩ := remove_farRed_round fuel hne hcol h hA rfl
    refine ⟨m1, _, e1, (Focus.append_iff kin).mpr h1, ?_, ?_⟩
    · apply SameHole.append kin (SameHole.rotated _)
      cases d <;> rfl
    · exact hi.rotated hAn ⟨hBn₁, hBn₂⟩ hj hAi ⟨hBi₁, hBi₂⟩ hkj

end LastRounds

/-- INTERNAL: **`m_rbt_remove_rebalance`** on a black victim ends, after at most one round
for every node above it and two more, with a tree that is valid without the victim.
SOURCE: m_rbtree.h:677-751 -/
theorem removeRebalance_spec (h : Focus m k (RBPath.fill kin (leaf .black v)))
    (hi : RemoveInv kin k) {fuel : ℕ}
    (hfuel : k.length + 3 ≤ fuel ∨ 2 ≤ fuel ∧ ∃ f k₁, k = f :: k₁ ∧ f.color = .red) :
    ∃ m' k', mRbtRemoveRebalance fuel m (rootPtr (RBPath.fill kin (leaf .black v))) = .ok m' ∧
      Focus m' k' (leaf .black v) ∧ SameHole (kin ++ k) k' ∧ (RBPath.fill k' .nil).Valid := by
  induction fuel generalizing m kin k with
  | zero => omega
  | succ fuel ih =>
    have hne := fill_leaf_ne_nil kin .black v
    have hcol := hi.color h
    cases k with
    | nil =>
      refine ⟨m, kin, ?_, ?_, ?_, ?_⟩
      · simp [mRbtRemoveRebalance, hcol, h.parent hne]
      · simpa using (Focus.append_iff kin).mpr h
      · simpa using SameHole.refl kin
      · obtain ⟨j, H, hb, -⟩ := hi.balanced
        exact ⟨hi.black, hi.noRedRed, j, hb⟩
    | cons f k =>
      obtain ⟨d, c, p, o⟩ := f
      obtain ⟨A, s, B, ho⟩ := RBTree.exists_join d o hi.other_ne_nil
      cases hs : o.rootColor with
      | red =>
        rw [hs] at ho
        subst ho
        obtain ⟨rfl, hi1⟩ := hi.redSibling
        obtain ⟨m1, e1, h1⟩ := remove_redSibling_round fuel hne hcol h
        obtain ⟨m2, k', e2, h2, hsame, hval⟩ := ih h1 hi1
          (Or.inr ⟨by simp at hfuel; omega, _, _, rfl, rfl⟩)
        exact ⟨m2, k', e1.trans e2, h2,
          SameHole.trans (SameHole.append kin (SameHole.rotated rfl)) hsame, hval⟩
      | black =>
        rw [hs] at ho
        subst ho
        by_cases hAB : A.rootColor = .black ∧ B.rootColor = .black
        · have hred : (RBTree.join d .red A s B).NoRedRed := by
            obtain ⟨-, hAn, hBn⟩ := (RBTree.noRedRed_join ..).mp hi.path.2.1
            exact (RBTree.noRedRed_join ..).mpr ⟨fun _ => hAB, hAn, hBn⟩
          cases c with
          | red =>
            obtain ⟨fuel, rfl⟩ : ∃ n, fuel = n + 1 := ⟨fuel - 1, by simp at hfuel; omega⟩
            exact remove_redParent_end fuel h hi hAB hred
          | black =>
            -- the parent is black: the invariant holds one node higher
            obtain ⟨m1, e1, hfocus⟩ := remove_blackNephews_round fuel hne hcol h hAB
            have hkin : RBPath.fill (kin ++ [⟨d, .black, p, RBTree.join d .red A s B⟩])
                (leaf .black v) = RBTree.join d .black (RBPath.fill kin (leaf .black v)) p
                  (RBTree.join d .red A s B) := by
              rw [RBPath.fill_append]
              rfl
            have hlist : (RBTree.join d .red A s B).toList =
                (RBTree.join d .black A s B).toList := by cases d <;> rfl
            rw [← hkin] at hfocus
            obtain ⟨m2, k', e2, h2, hsame, hval⟩ := ih hfocus (hi.climb hred)
              (Or.inl (by simp at hfuel; omega))
            refine ⟨m2, k', ?_, h2, ?_, hval⟩
            · rw [hkin, rootPtr_join] at e2
              exact e1.trans e2
            · rw [List.append_assoc] at hsame
              exact (SameHole.append kin (SameHole.other hlist)).trans hsame
        · exact remove_redNephew_end fuel h hi hAB

end Ming.Analysis
