import Ming.Analysis.RBTreeStores

/-!
# Insertion restores the red-black invariant

The loop of `m_rbt_insert` is followed at the position of `node`: the tree is valid except
that the root of the focused subtree and the node above it may both be red. A red uncle
moves the position up by two nodes; otherwise at most two rotations end the loop. The
in-order sequence never changes.
-/

set_option autoImplicit false

namespace Ming.Analysis

open Ming.Foundation Ming.Model Ming.Interface

variable {m : MRBTree} {k : RBPath Ptr}

/-- The loop invariant of `m_rbt_insert`: only the edge above the focused root, which is
red, may join two red nodes. -/
structure InsertInv (k : RBPath Ptr) (t : RBTree Ptr) : Prop where
  red : t.rootColor = .red
  noRedRed : t.NoRedRed
  path : k.NoRedRed .black
  rootBlack : k.RootBlack
  balanced : ∃ H, RBTree.BlackHeight (RBPath.fill k t) H

/-- INTERNAL: below a black parent the tree is valid. -/
theorem InsertInv.valid_of_black {f : Frame Ptr} {t : RBTree Ptr} (h : InsertInv (f :: k) t)
    (hf : f.color = .black) : (RBPath.fill (f :: k) t).Valid := by
  refine ⟨(RBPath.rootColor_fill_cons f k t).mpr h.rootBlack, ?_, h.balanced⟩
  rw [RBPath.noRedRed_fill]
  exact ⟨h.noRedRed, fun e => absurd (e.symm.trans hf) (by decide), h.path.2⟩

/-- INTERNAL: a red node above the focused root has a black parent. -/
theorem InsertInv.gparent {f : Frame Ptr} {t : RBTree Ptr} (h : InsertInv (f :: k) t)
    (hf : f.color = .red) : ∃ g k', k = g :: k' ∧ g.color = .black := by
  cases k with
  | nil => exact absurd (hf.symm.trans h.rootBlack) (by decide)
  | cons g k' =>
    refine ⟨g, k', rfl, ?_⟩
    cases hg : g.color with
    | black => rfl
    | red => exact absurd (hf.symm.trans (h.path.2.2.1 hg).1) (by decide)

/-- INTERNAL: with a red uncle, recolouring three nodes moves the invariant up by two. -/
theorem InsertInv.recolor {f g : Frame Ptr} {t A B : RBTree Ptr} {u : Ptr}
    (h : InsertInv (f :: g :: k) t) (hf : f.color = .red) (hg : g.color = .black)
    (hu : g.other = RBTree.join .left .red A u B) :
    InsertInv k (RBTree.join g.side .red (RBTree.join f.side .black t f.elem f.other) g.elem
      (RBTree.join .left .black A u B)) := by
  obtain ⟨-, hfn, -, hgn, hk⟩ := h.path
  rw [hu, RBTree.noRedRed_join] at hgn
  refine ⟨by simp, ?_, ?_, ?_, ?_⟩
  · rw [RBTree.noRedRed_join, RBTree.noRedRed_join, RBTree.noRedRed_join]
    simp only [RBTree.rootColor_join, reduceCtorEq, IsEmpty.forall_iff, true_and, implies_true,
      and_self]
    exact ⟨⟨h.noRedRed, hfn⟩, hgn.2⟩
  · rw [hg] at hk
    exact hk
  · have := h.rootBlack
    cases k with
    | nil => trivial
    | cons g' k' => exact this
  · obtain ⟨H, hb⟩ := h.balanced
    refine ⟨H, ?_⟩
    rw [RBPath.blackHeight_fill] at hb ⊢
    obtain ⟨j, ht, hfb, hgb, hkb⟩ := hb
    rw [hf] at hgb hkb
    rw [hu] at hgb
    obtain ⟨i, hA, hB, e⟩ := (RBTree.blackHeight_join ..).mp hgb
    simp only [RBTree.blackWeight_red, Nat.add_zero] at e
    subst e
    rw [hg] at hkb
    simp only [RBTree.blackWeight_red, RBTree.blackWeight_black, Nat.add_zero] at hkb
    refine ⟨j + 1, ?_, hkb⟩
    rw [RBTree.blackHeight_join]
    refine ⟨j + 1, ?_, ?_, by simp⟩
    · exact (RBTree.blackHeight_join ..).mpr ⟨j, ht, hfb, by simp⟩
    · exact (RBTree.blackHeight_join ..).mpr ⟨j, hA, hB, by simp⟩

/-- INTERNAL: with a black uncle and the red edge on the outside, one rotation at the
grandparent makes the tree valid. -/
theorem InsertInv.rotated {d : Side} {p gp : Ptr} {t B U : RBTree Ptr}
    (h : InsertInv (⟨d, .red, p, B⟩ :: ⟨d, .black, gp, U⟩ :: k) t) (hU : U.rootColor = .black) :
    (RBPath.fill k (RBTree.join d.flip .black (RBTree.join d.flip .red U gp B) p t)).Valid := by
  obtain ⟨hred, hBn, -, hUn, hk⟩ := h.path
  have hB := (hred rfl).2
  refine ⟨?_, ?_, ?_⟩
  · cases k with
    | nil => simp
    | cons g' k' => exact (RBPath.rootColor_fill_cons g' k' _).mpr h.rootBlack
  · rw [RBPath.noRedRed_fill, RBTree.noRedRed_join, RBTree.noRedRed_join, RBTree.rootColor_join]
    refine ⟨⟨nofun, ⟨fun _ => ⟨hU, hB⟩, hUn, hBn⟩, h.noRedRed⟩, ?_⟩
    rw [RBTree.rootColor_join]
    exact hk
  · obtain ⟨H, hb⟩ := h.balanced
    refine ⟨H, ?_⟩
    rw [RBPath.blackHeight_fill] at hb ⊢
    obtain ⟨j, ht, hfb, hgb, hkb⟩ := hb
    simp only [RBTree.blackWeight_red, RBTree.blackWeight_black, Nat.add_zero] at hgb hkb
    refine ⟨j + 1, ?_, hkb⟩
    rw [RBTree.blackHeight_join]
    refine ⟨j, ?_, ht, by simp⟩
    exact (RBTree.blackHeight_join ..).mpr ⟨j, hgb, hfb, by simp⟩

/-- INTERNAL: an inner red edge becomes an outer one by a rotation at the parent. -/
theorem InsertInv.inner {d : Side} {g : Frame Ptr} {p x : Ptr} {A B P : RBTree Ptr}
    (h : InsertInv (⟨d.flip, .red, p, P⟩ :: g :: k) (RBTree.join d .red A x B)) :
    InsertInv (⟨d, .red, x, B⟩ :: g :: k) (RBTree.join d .red P p A) := by
  obtain ⟨hred, hPn, hk⟩ := h.path
  have hPb := (hred rfl).2
  have hn := (RBTree.noRedRed_join ..).mp h.noRedRed
  refine ⟨by simp, ?_, ?_, h.rootBlack, ?_⟩
  · exact (RBTree.noRedRed_join ..).mpr ⟨fun _ => ⟨hPb, (hn.1 rfl).1⟩, hPn, hn.2.1⟩
  · exact ⟨fun _ => ⟨rfl, (hn.1 rfl).2⟩, hn.2.2, hk⟩
  · obtain ⟨H, hb⟩ := h.balanced
    refine ⟨H, ?_⟩
    rw [RBPath.blackHeight_fill] at hb ⊢
    obtain ⟨j, ht, hfb, hkb⟩ := hb
    obtain ⟨i, hA, hB, e⟩ := (RBTree.blackHeight_join ..).mp ht
    simp only [RBTree.blackWeight_red, Nat.add_zero] at e hkb
    subst e
    exact ⟨j, (RBTree.blackHeight_join ..).mpr ⟨j, hfb, hA, by simp⟩, hB, by simpa using hkb⟩

/-- INTERNAL: the last block of the loop, for an outer red edge: recolour parent and
grandparent and rotate the grandparent away from them.
SOURCE: m_rbtree.h:664-671 -/
theorem insert_outer_spec {d : Side} {p gp : Ptr} {t B U : RBTree Ptr}
    (h : Focus m k (RBTree.join d .black (RBTree.join d .red t p B) gp U)) :
    ∃ m', (do
        let m ← mRbtSetColor m p M_RB_BLACK
        let m ← mRbtSetColor m gp M_RB_RED
        if rootPtr U = (m.node gp).right then mRbtRotateRight m gp
        else mRbtRotateLeft m gp : Outcome MRBTree) = .ok m' ∧
      Focus m' k (RBTree.join d.flip .black (RBTree.join d.flip .red U gp B) p t) := by
  obtain ⟨m1, e1, h1⟩ := setColor_spec .black (h.down (f := ⟨d, .black, gp, U⟩))
  obtain ⟨m2, e2, h2⟩ := setColor_spec .red h1.up
  have hside := (h2.down (f := ⟨d, .red, gp, U⟩)).other_right_iff (by cases d <;> nofun)
  have h3 : Focus m2 k (RBTree.join d.flip .red U gp (RBTree.join d.flip .black B p t)) := by
    rw [RBTree.join_flip, RBTree.join_flip]
    exact h2
  obtain ⟨m3, e3, h4⟩ := rotate_spec h3
  refine ⟨m3, ?_, h4⟩
  simp only [colorBit_black, colorBit_red] at e1 e2
  simp only [e1, e2, Outcome.ok_bind]
  cases d with
  | left =>
    rw [if_pos (hside.mpr rfl)]
    exact e3
  | right =>
    rw [if_neg (fun e => by simpa using hside.mp e)]
    exact e3

/-- INTERNAL: the last block of the loop for an inner red edge, which is first rotated to
the outside.
SOURCE: m_rbtree.h:648-671 -/
theorem insert_inner_spec {d : Side} {p gp x : Ptr} {A B P U : RBTree Ptr}
    (h : Focus m k (RBTree.join d .black (RBTree.join d .red P p (RBTree.join d .red A x B))
      gp U)) :
    ∃ m', (do
        let m ← rotate d m p
        let m ← mRbtSetColor m x M_RB_BLACK
        let m ← mRbtSetColor m gp M_RB_RED
        if rootPtr U = (m.node gp).right then mRbtRotateRight m gp
        else mRbtRotateLeft m gp : Outcome MRBTree) = .ok m' ∧
      Focus m' k (RBTree.join d.flip .black (RBTree.join d.flip .red U gp B) x
        (RBTree.join d .red P p A)) := by
  obtain ⟨m1, e1, h1⟩ := rotate_spec (h.down (f := ⟨d, .black, gp, U⟩))
  obtain ⟨m2, e2, h2⟩ := insert_outer_spec h1.up
  exact ⟨m2, by rw [e1, Outcome.ok_bind]; exact e2, h2⟩

/-- INTERNAL: the block of the loop that recolours parent, uncle and grandparent; `r` is
what follows it.
SOURCE: m_rbtree.h:637-646 -/
theorem insert_recolor_spec {f g : Frame Ptr} {t A B : RBTree Ptr} {u : Ptr}
    (h : Focus m (f :: g :: k) t) (hu : g.other = RBTree.join .left .red A u B) :
    ∃ m', (∀ r : MRBTree → Outcome MRBTree, (do
        let m ← mRbtSetColor m f.elem M_RB_BLACK
        let m ← mRbtSetColor m u M_RB_BLACK
        let m ← mRbtSetColor m g.elem M_RB_RED
        r m) = r m') ∧
      Focus m' k (RBTree.join g.side .red (RBTree.join f.side .black t f.elem f.other) g.elem
        (RBTree.join .left .black A u B)) := by
  obtain ⟨m1, e1, h1⟩ := setColor_spec .black h.up
  have hac := h1.across
  rw [hu] at hac
  obtain ⟨m2, e2, h2⟩ := setColor_spec .black hac
  obtain ⟨m3, e3, h3⟩ := setColor_spec .red h2.up
  refine ⟨m3, ?_, ?_⟩
  · simp only [colorBit_black, colorBit_red] at e1 e2 e3
    intro r
    simp only [e1, e2, e3, Outcome.ok_bind]
  · rw [RBTree.join_flip] at h3
    exact h3

/-- INTERNAL: recolouring and rotating a tree with the invariant keep its in-order
sequence. -/
theorem toList_fill_congr {t t' : RBTree Ptr} (h : t.toList = t'.toList) :
    (RBPath.fill k t).toList = (RBPath.fill k t').toList := by
  rw [RBPath.toList_fill, RBPath.toList_fill, h]

/-! ## One round of the loop -/

section Rounds

/-- INTERNAL: what a round reads above its node and the red parent of that.
SOURCE: m_rbtree.h:625-638 -/
theorem insert_round_reads {f g : Frame Ptr} {t : RBTree Ptr} (h : Focus m (f :: g :: k) t)
    (ht : t ≠ .nil) (hf : f.color = .red) :
    (mRbtParent m (rootPtr t) = f.elem ∧ f.elem ≠ NULL ∧ mRbtColor m f.elem = M_RB_RED) ∧
      (mRbtParent m f.elem = g.elem ∧ g.elem ≠ NULL) ∧
      mRbtSibling m f.elem = rootPtr g.other ∧
      mRbtColor m (rootPtr g.other) = colorBit g.other.rootColor := by
  have hup := h.up
  have hne : RBTree.join f.side f.color t f.elem f.other ≠ .nil := by
    cases f.side <;> nofun
  have hgp : mRbtParent m f.elem = g.elem := by simpa using hup.parent hne
  have hunc : mRbtSibling m f.elem = rootPtr g.other := by simpa using hup.sibling hne
  have hfc : mRbtColor m f.elem = M_RB_RED := by
    rw [h.color_parent, hf]
    rfl
  exact ⟨⟨h.parent ht, h.elem_ne_null, hfc⟩, ⟨hgp, hup.elem_ne_null⟩, hunc, hup.across.color⟩

variable (fuel : ℕ)

/-- INTERNAL: a round with a red uncle; the next one is on the grandparent.
SOURCE: m_rbtree.h:637-646 -/
theorem insert_redUncle_round {f g : Frame Ptr} {t A B : RBTree Ptr} {u : Ptr}
    (h : Focus m (f :: g :: k) t) (ht : t ≠ .nil) (hf : f.color = .red)
    (hu : g.other = RBTree.join .left .red A u B) :
    ∃ m', mRbtInsertLoop (fuel + 1) m (rootPtr t) = mRbtInsertLoop fuel m' g.elem ∧
      Focus m' k (RBTree.join g.side .red (RBTree.join f.side .black t f.elem f.other) g.elem
        (RBTree.join .left .black A u B)) := by
  obtain ⟨⟨hparent, hfp, hfc⟩, ⟨hgp, hgne⟩, hunc, huc⟩ := insert_round_reads h ht hf
  obtain ⟨m1, e1, h1⟩ := insert_recolor_spec h hu
  rw [hu, rootPtr_join] at hunc huc
  refine ⟨m1, ?_, h1⟩
  rw [mRbtInsertLoop]
  simp only [hparent, hgp, hunc, huc]
  rw [if_neg hfp, hfc, if_neg (by decide), if_neg hgne, if_pos (by simp)]
  exact e1 _

/-- INTERNAL: a round with a black uncle and a red edge on the outside ends the loop.
SOURCE: m_rbtree.h:647-672 -/
theorem insert_outer_round {d : Side} {p gp : Ptr} {t B U : RBTree Ptr}
    (h : Focus m (⟨d, .red, p, B⟩ :: ⟨d, .black, gp, U⟩ :: k) t) (ht : t ≠ .nil)
    (hU : U.rootColor = .black) :
    ∃ m', mRbtInsertLoop (fuel + 1) m (rootPtr t) = .ok m' ∧
      Focus m' k (RBTree.join d.flip .black (RBTree.join d.flip .red U gp B) p t) := by
  obtain ⟨⟨hparent, hfp, hfc⟩, ⟨hgp, hgne⟩, hunc, huc⟩ := insert_round_reads h ht rfl
  have hup := h.up
  have hur := hup.other_right_iff (by cases d <;> nofun)
  have hul := hup.other_left_iff (by cases d <;> nofun)
  have hnr := h.right_eq_iff ht
  have hnl := h.left_eq_iff ht
  obtain ⟨m1, e1, h1⟩ := insert_outer_spec hup.up
  refine ⟨m1, ?_, h1⟩
  dsimp only at hparent hfp hfc hgp hgne hunc huc hur hul hnr hnl
  rw [mRbtInsertLoop]
  simp only [hparent, hgp, hunc, huc]
  rw [if_neg hfp, hfc, if_neg (by decide), if_neg hgne, if_neg (by simp [hU])]
  simp only [hur, hul, hnr, hnl]
  cases d with
  | left => simpa using e1
  | right => simpa using e1

/-- INTERNAL: a round with a black uncle and a red edge between parent and node ends the loop.
SOURCE: m_rbtree.h:647-672 -/
theorem insert_inner_round {d : Side} {p gp x : Ptr} {A B P U : RBTree Ptr}
    (h : Focus m (⟨d.flip, .red, p, P⟩ :: ⟨d, .black, gp, U⟩ :: k) (RBTree.join d .red A x B))
    (hU : U.rootColor = .black) :
    ∃ m', mRbtInsertLoop (fuel + 1) m x = .ok m' ∧
      Focus m' k (RBTree.join d.flip .black (RBTree.join d.flip .red U gp B) x
        (RBTree.join d .red P p A)) := by
  have ht : RBTree.join d .red A x B ≠ .nil := by cases d <;> nofun
  obtain ⟨⟨hparent, hfp, hfc⟩, ⟨hgp, hgne⟩, hunc, huc⟩ := insert_round_reads h ht rfl
  have hup := h.up
  have hur := hup.other_right_iff (by cases d <;> nofun)
  have hul := hup.other_left_iff (by cases d <;> nofun)
  have hnr := h.right_eq_iff ht
  have hnl := h.left_eq_iff ht
  have hg := hup.up
  dsimp only at hg
  rw [RBTree.join_flip] at hg
  obtain ⟨m1, e1, h1⟩ := insert_inner_spec hg
  refine ⟨m1, ?_, h1⟩
  rw [rootPtr_join] at hparent hnr hnl
  dsimp only at hparent hfp hfc hgp hgne hunc huc hur hul hnr hnl
  rw [mRbtInsertLoop]
  simp only [hparent, hgp, hunc, huc]
  rw [if_neg hfp, hfc, if_neg (by decide), if_neg hgne, if_neg (by simp [hU])]
  simp only [hur, hul, hnr, hnl]
  cases d with
  | left => simpa [Side.flip, mRbtRotateLeft] using e1
  | right => simpa [Side.flip, mRbtRotateRight] using e1

end Rounds

/-! ## The loop -/

/-- INTERNAL: the root of the tree only has to be black.
SOURCE: m_rbtree.h:629-632 -/
theorem insert_root_end {t : RBTree Ptr} (h : Focus m [] t) (hi : InsertInv [] t) (fuel : ℕ) :
    ∃ m' T, mRbtInsertLoop (fuel + 1) m (rootPtr t) = .ok m' ∧ Represents m' T ∧ T.Valid ∧
      T.toList = t.toList := by
  have hne : t ≠ .nil := RBTree.ne_nil_of_rootColor_red hi.red
  have hparent := h.parent hne
  obtain ⟨A, x, B, rfl⟩ : ∃ A x B, t = RBTree.join .left .red A x B := by
    rw [← hi.red]
    exact RBTree.exists_join .left t hne
  obtain ⟨m1, e1, h1⟩ := setColor_spec .black h
  refine ⟨m1, RBTree.join .left .black A x B, ?_, represents_fill.mpr h1, ?_, rfl⟩
  · rw [rootPtr_join] at hparent ⊢
    simp only [mRbtInsertLoop, hparent, holeParent_nil, if_true]
    exact e1
  · obtain ⟨H, hb⟩ := hi.balanced
    obtain ⟨j, hA, hB, -⟩ := (RBTree.blackHeight_join ..).mp hb
    refine ⟨by simp, ?_, j + 1, (RBTree.blackHeight_join ..).mpr ⟨j, hA, hB, by simp⟩⟩
    have hn := (RBTree.noRedRed_join ..).mp hi.noRedRed
    exact (RBTree.noRedRed_join ..).mpr ⟨nofun, hn.2⟩

/-- INTERNAL: a red parent with a black sibling: one or two rotations end the loop.
SOURCE: m_rbtree.h:653-673 -/
theorem insert_blackUncle_end {f g : Frame Ptr} {t : RBTree Ptr} (h : Focus m (f :: g :: k) t)
    (hi : InsertInv (f :: g :: k) t) (hf : f.color = .red) (hg : g.color = .black)
    (hu : g.other.rootColor = .black) (fuel : ℕ) :
    ∃ m' T, mRbtInsertLoop (fuel + 1) m (rootPtr t) = .ok m' ∧ Represents m' T ∧ T.Valid ∧
      T.toList = (RBPath.fill (f :: g :: k) t).toList := by
  have hne : t ≠ .nil := RBTree.ne_nil_of_rootColor_red hi.red
  obtain ⟨d, c, gp, U⟩ := g
  obtain ⟨e, c', p, P⟩ := f
  dsimp only at hf hg hu
  subst hf hg
  rcases Side.eq_or_eq_flip d e with rfl | rfl
  · -- the red edge is on the outside
    obtain ⟨m1, e1, h1⟩ := insert_outer_round fuel h hne hu
    refine ⟨m1, _, e1, represents_fill.mpr h1, hi.rotated hu, ?_⟩
    rw [RBPath.fill_cons, RBPath.fill_cons]
    apply toList_fill_congr
    cases e <;> simp [RBTree.join, Side.flip]
  · -- the red edge is inside, between `parent` and `node`
    obtain ⟨A, x, B, rfl⟩ : ∃ A x B, t = RBTree.join d .red A x B := by
      rw [← hi.red]
      exact RBTree.exists_join d _ hne
    obtain ⟨m1, e1, h1⟩ := insert_inner_round fuel h hu
    rw [rootPtr_join]
    refine ⟨m1, _, e1, represents_fill.mpr h1, hi.inner.rotated hu, ?_⟩
    rw [RBPath.fill_cons, RBPath.fill_cons]
    apply toList_fill_congr
    cases d <;> simp [RBTree.join, Side.flip]

/-- INTERNAL: **the rebalance loop of `m_rbt_insert`** ends in a valid tree with the same
in-order sequence, after at most one round for every two nodes above the new one.
SOURCE: m_rbtree.h:624-674 -/
theorem insertLoop_spec {t : RBTree Ptr} (h : Focus m k t) (hi : InsertInv k t) (fuel : ℕ)
    (hfuel : k.length < fuel) :
    ∃ m' T, mRbtInsertLoop fuel m (rootPtr t) = .ok m' ∧ Represents m' T ∧ T.Valid ∧
      T.toList = (RBPath.fill k t).toList := by
  induction fuel generalizing m k t with
  | zero => omega
  | succ fuel ih =>
    have hne : t ≠ .nil := RBTree.ne_nil_of_rootColor_red hi.red
    cases k with
    | nil => exact insert_root_end h hi fuel
    | cons f k =>
      cases hf : f.color with
      | black =>
        refine ⟨m, _, ?_, represents_fill.mpr h, hi.valid_of_black hf, rfl⟩
        simp only [mRbtInsertLoop, h.parent hne, holeParent_cons, h.elem_ne_null, if_false,
          h.color_parent, hf, colorBit_black, if_true]
      | red =>
        obtain ⟨g, k, rfl, hg⟩ := hi.gparent hf
        cases hu : g.other.rootColor with
        | black => exact insert_blackUncle_end h hi hf hg hu fuel
        | red =>
          obtain ⟨A, u, B, hA⟩ := RBTree.exists_join_of_red .left hu
          obtain ⟨m1, e1, h1⟩ := insert_redUncle_round fuel h hne hf hA
          obtain ⟨m2, T, e2, hT, hV, hL⟩ := ih h1 (hi.recolor hf hg hA) (by simp at hfuel; omega)
          rw [rootPtr_join] at e2
          refine ⟨m2, T, e1.trans e2, hT, hV, ?_⟩
          rw [hL, RBPath.fill_cons, RBPath.fill_cons]
          apply toList_fill_congr
          rw [hA]
          cases g.side <;> cases f.side <;> simp [RBTree.join]

/-- INTERNAL: the four stores that hang the new node as a red leaf in the hole; `r` is what
follows them.
SOURCE: m_rbtree.h:618-622 -/
theorem insert_leaf_spec {node : Ptr} (h : Focus m k .nil) (hn : NodePtr node)
    (hfresh : node ∉ RBPath.elems k) :
    ∃ m', (∀ r : MRBTree → Outcome MRBTree, (do
        let m ← m.setChild .left node NULL
        let m ← m.setChild .right node NULL
        let m ← m.storePos (holePos k) node
        let m ← mRbtSetParentColor m node (holeParent k) M_RB_RED
        r m) = r m') ∧
      Focus m' k (RBTree.join .left .red .nil node .nil) := by
  obtain ⟨m1, e1, t1, c1, c1', p1, r1⟩ := setChild_ok (m := m) hn.ne_null .left NULL
  obtain ⟨m2, e2, t2, c2, c2', p2, r2⟩ := setChild_ok (m := m1) hn.ne_null .right NULL
  have hnd : (RBPath.elems k).Nodup := by simpa using h.nodup
  have hptr : ∀ p ∈ RBPath.elems k, NodePtr p := fun p hp => h.nodePtr p (Or.inr hp)
  have hne : ∀ q ∈ RBPath.elems k, q ≠ node := by
    rintro q hq rfl
    exact hfresh hq
  have hk2 : PathLinks m2 k NULL := h.path.congr (t2.trans t1) fun q hq =>
    (r2 q (hne q hq)).trans (r1 q (hne q hq))
  obtain ⟨m3, e3, hk3, r3⟩ := storeHole_spec node hk2 hnd hptr
  obtain ⟨m4, e4, t4, c4, p4, r4⟩ := storePcolor_ok (m := m3) hn.ne_null
    fun _ => holeParent k ||| M_RB_RED
  refine ⟨m4, fun r => ?_, ?_, ?_, ?_, ?_⟩
  · have e4' : mRbtSetParentColor m3 node (holeParent k) M_RB_RED = .ok m4 := e4
    simp only [e1, e2, e3, e4', Outcome.ok_bind]
  · refine links_join.mpr ⟨p4, ?_, ?_, trivial, trivial⟩
    · rw [c4, child_congr (r3 node hfresh)]
      exact c2'.trans c1
    · rw [c4, child_congr (r3 node hfresh)]
      exact c2
  · rw [rootPtr_join]
    exact hk3.congr t4 fun q hq => r4 q (hne q hq)
  · simpa [RBTree.join] using ⟨hfresh, hnd⟩
  · intro p hp
    rcases hp with hp | hp
    · rw [show p = node by simpa [RBTree.join] using hp]
      exact hn
    · exact hptr p hp

/-- INTERNAL: **`m_rbt_insert`** at a hole of a valid tree: the tree stays valid and its
in-order sequence gets the new node at the place of the hole.
SOURCE: m_rbtree.h:612-675 -/
theorem mRbtInsert_spec {node : Ptr} (h : Focus m k .nil) (hv : (RBPath.fill k .nil).Valid)
    (hn : NodePtr node) (hfresh : node ∉ RBPath.elems k) {fuel : ℕ} (hf : k.length < fuel) :
    ∃ m' T, mRbtInsert fuel m (holeParent k) (holePos k) node = .ok m' ∧ Represents m' T ∧
      T.Valid ∧ T.toList = RBPath.before k ++ node :: RBPath.after k := by
  obtain ⟨m1, e1, h1⟩ := insert_leaf_spec h hn hfresh
  have hi : InsertInv k (RBTree.join .left .red .nil node .nil) := by
    obtain ⟨-, hk⟩ := (RBPath.noRedRed_fill ..).mp hv.noRedRed
    obtain ⟨H, hb⟩ := hv.balanced
    refine ⟨by simp, ?_, hk, ?_, H, ?_⟩
    · exact (RBTree.noRedRed_join ..).mpr ⟨fun _ => ⟨rfl, rfl⟩, trivial, trivial⟩
    · cases k with
      | nil => trivial
      | cons f k => exact (RBPath.rootColor_fill_cons ..).mp hv.rootBlack
    · rw [RBPath.blackHeight_fill] at hb ⊢
      obtain ⟨j, hj, hb⟩ := hb
      obtain rfl : j = 0 := hj
      exact ⟨0, (RBTree.blackHeight_join ..).mpr ⟨0, rfl, rfl, by simp⟩, hb⟩
  obtain ⟨m2, T, e2, hT, hV, hL⟩ := insertLoop_spec h1 hi fuel hf
  refine ⟨m2, T, ?_, hT, hV, ?_⟩
  · unfold mRbtInsert
    rw [if_neg hn.ne_null, e1]
    simpa using e2
  · rw [hL, RBPath.toList_fill]
    simp [RBTree.join]

end Ming.Analysis
