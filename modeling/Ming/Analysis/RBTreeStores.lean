import Ming.Interface.RBTreeShape

/-!
# Recolouring and rotating a represented tree

One lemma for each store of m_rbtree.h, stated at the focused position: what the call
returns, and the tree the memory represents afterwards. A rotation is taken apart into the
three stores it consists of: the two child links, the link from above, and the parent
pointers.
-/

set_option autoImplicit false

namespace Ming.Analysis

open Ming.Foundation Ming.Model Ming.Interface

variable {m : MRBTree} {k : RBPath Ptr}

/-- INTERNAL: a memory that only differs in the packed word of the focused root, where the
colour is now `col`. -/
theorem focus_recolor {m' : MRBTree} {d : Side} {c col : Color} {s t : RBTree Ptr} {p : Ptr}
    (h : Focus m k (RBTree.join d c s p t)) (htree : m'.tree = m.tree)
    (hchild : ∀ d, m'.child d p = m.child d p)
    (hpc : (m'.node p).pcolor = holeParent k ||| colorBit col)
    (hrest : ∀ q, q ≠ p → m'.node q = m.node q) :
    Focus m' k (RBTree.join d col s p t) := by
  have hmem : ∀ x, x ∈ (RBTree.join d col s p t).toList ↔
      x ∈ (RBTree.join d c s p t).toList := fun x => by simp [RBTree.mem_toList_join]
  have hlist : (RBTree.join d col s p t).toList = (RBTree.join d c s p t).toList := by
    cases d <;> rfl
  have hnd := h.nodup
  have hp : ∀ x, x ∈ s.toList ∨ x ∈ t.toList ∨ x ∈ RBPath.elems k → x ≠ p := by
    rintro x hx rfl
    cases d <;> simp only [RBTree.join, RBTree.toList_node, List.nodup_append, List.nodup_cons,
      List.mem_append, List.mem_cons] at hnd <;> grind
  obtain ⟨-, h2, h3, h4, h5⟩ := links_join.mp h.links
  refine ⟨links_join.mpr ⟨hpc, (hchild d).trans h2, (hchild d.flip).trans h3, ?_, ?_⟩, ?_, ?_, ?_⟩
  · exact h4.congr fun x hx => hrest x (hp x (Or.inl hx))
  · exact h5.congr fun x hx => hrest x (hp x (Or.inr (Or.inl hx)))
  · have hpath := h.path.congr htree fun x hx => hrest x (hp x (Or.inr (Or.inr hx)))
    simpa using hpath
  · rw [hlist]
    exact hnd
  · intro x hx
    rw [hmem] at hx
    exact h.nodePtr x hx

/-- INTERNAL: `m_rbt_set_color` recolours the focused root.
SOURCE: m_rbtree.h:289-296 -/
theorem setColor_spec {d : Side} {c : Color} {s t : RBTree Ptr} {p : Ptr} (col : Color)
    (h : Focus m k (RBTree.join d c s p t)) :
    ∃ m', mRbtSetColor m p (colorBit col) = .ok m' ∧ Focus m' k (RBTree.join d col s p t) := by
  have hp : p ≠ NULL :=
    (h.nodePtr p (Or.inl (by simp [RBTree.mem_toList_join]))).ne_null
  obtain ⟨m', hm, htree, hchild, hpc, hrest⟩ := storePcolor_ok (m := m) hp fun w =>
    if colorBit col ≠ 0 then w ||| M_RB_FL_BLACK else w &&& ~~~M_RB_FL_BLACK
  refine ⟨m', hm, focus_recolor h htree hchild ?_ hrest⟩
  rw [hpc, (links_join.mp h.links).1]
  cases col with
  | red =>
    rw [if_neg (by simp)]
    exact packed_and_red h.aligned_holeParent c
  | black =>
    rw [if_pos (by simp)]
    exact packed_or_black _ c

/-- INTERNAL: a pointer stored in the hole of a path; nothing outside the path changes. -/
theorem storeHole_spec {x : Ptr} (y : Ptr) (hk : PathLinks m k x)
    (hnd : (RBPath.elems k).Nodup) (hptr : ∀ p ∈ RBPath.elems k, NodePtr p) :
    ∃ m', m.storePos (holePos k) y = .ok m' ∧ PathLinks m' k y ∧
      ∀ q, q ∉ RBPath.elems k → m'.node q = m.node q := by
  cases k with
  | nil => exact ⟨{ m with tree := y }, rfl, rfl, fun q _ => rfl⟩
  | cons f k =>
    obtain ⟨h1, h2, h3, h4, h5⟩ := hk
    have hf : f.elem ≠ NULL := (hptr f.elem (by simp [RBPath.elems])).ne_null
    obtain ⟨m', hm, htree, hc, hc', hpc, hrest⟩ := setChild_ok (m := m) hf f.side y
    simp only [RBPath.elems, List.cons_append, List.nodup_cons, List.mem_append, not_or] at hnd
    refine ⟨m', (storePos_sidePos ..).trans hm, ⟨hpc.trans h1, hc, hc'.trans h3, ?_, ?_⟩, ?_⟩
    · exact h4.congr fun q hq => hrest q (by rintro rfl; exact hnd.1.1 hq)
    · exact h5.congr htree fun q hq => hrest q (by rintro rfl; exact hnd.1.2 hq)
    · intro q hq
      exact hrest q (by rintro rfl; exact hq (by simp [RBPath.elems]))

/-- INTERNAL: the block that replaces the child `x` of `parent` finds the hole by the
pointer that is in it. -/
theorem replaceChild_eq {x : Ptr} (y : Ptr) (hk : PathLinks m k x) (hx : x ≠ NULL)
    (hxk : x ∉ RBPath.elems k) (hptr : ∀ p ∈ RBPath.elems k, NodePtr p) :
    replaceChild m (holeParent k) x y = m.storePos (holePos k) y := by
  cases k with
  | nil => simp [replaceChild, holePos, MRBTree.storePos]
  | cons f k =>
    obtain ⟨-, h2, h3, -, -⟩ := hk
    have hf : f.elem ≠ NULL := (hptr f.elem (by simp [RBPath.elems])).ne_null
    refine Eq.trans ?_ (storePos_sidePos ..).symm
    unfold replaceChild
    rw [holeParent_cons, if_pos hf]
    cases hs : f.side with
    | left =>
      rw [hs] at h2
      rw [if_pos (by simpa [MRBTree.child] using h2)]
    | right =>
      -- `parent->left` is the other subtree, which does not start at `x`
      have hne : (m.node f.elem).left ≠ x := by
        rw [hs] at h3
        have h3' : (m.node f.elem).left = rootPtr f.other := h3
        rw [h3']
        intro e
        by_cases ho : f.other = .nil
        · exact hx (by rw [← e, ho]; rfl)
        · exact hxk (by simp [RBPath.elems, ← e, rootPtr_mem ho])
      rw [if_neg hne]

/-- INTERNAL: giving a subtree, possibly empty, a new parent. -/
theorem setParent_spec {t : RBTree Ptr} {parent q : Ptr} (ht : Links m parent t)
    (hal : Aligned parent) (hnd : t.toList.Nodup) (hptr : ∀ p ∈ t.toList, NodePtr p) :
    ∃ m', (if rootPtr t ≠ NULL then mRbtSetParent m (rootPtr t) q else pure m) = .ok m' ∧
      Links m' q t ∧ m'.tree = m.tree ∧ ∀ z, z ∉ t.toList → m'.node z = m.node z := by
  by_cases hnil : t = .nil
  · subst hnil
    exact ⟨m, by simp, trivial, rfl, fun _ _ => rfl⟩
  · have hp : rootPtr t ≠ NULL := (hptr _ (rootPtr_mem hnil)).ne_null
    obtain ⟨m', hm, htree, hc, hpc, hrest⟩ := storePcolor_ok (m := m) hp fun w =>
      (w &&& M_RB_FL_BLACK) ||| q
    refine ⟨m', by rw [if_pos hp]; exact hm, ?_, htree, ?_⟩
    · refine ht.reparent hnd (fun p _ hne => hrest p hne) (fun _ => hc) fun _ => ?_
      rw [hpc]
      cases t with
      | nil => exact absurd rfl hnil
      | node c l p r =>
        simp only [rootPtr, RBTree.rootColor, ht.1]
        exact packed_set_parent hal c q
    · intro z hz
      exact hrest z (by rintro rfl; exact hz (rootPtr_mem hnil))

/-- INTERNAL: giving the node `p` a new parent. -/
theorem setParent_node_spec {p q parent : Ptr} {c : Color} (hp : p ≠ NULL)
    (hpc : (m.node p).pcolor = parent ||| colorBit c) (hal : Aligned parent) :
    ∃ m', mRbtSetParent m p q = .ok m' ∧ m'.tree = m.tree ∧
      (∀ d, m'.child d p = m.child d p) ∧ (m'.node p).pcolor = q ||| colorBit c ∧
      ∀ z, z ≠ p → m'.node z = m.node z := by
  obtain ⟨m', hm, htree, hc, hpc', hrest⟩ := storePcolor_ok (m := m) hp fun w =>
    (w &&& M_RB_FL_BLACK) ||| q
  refine ⟨m', hm, htree, hc, ?_, hrest⟩
  rw [hpc', hpc]
  exact packed_set_parent hal c q

/-- INTERNAL: the addresses around a rotation, and the rest of the tree. -/
theorem rotate_perm (d : Side) (cx cy : Color) (A B C : RBTree Ptr) (x y : Ptr) (l : List Ptr) :
    ((RBTree.join d cx A x (RBTree.join d cy B y C)).toList ++ l).Perm
      (x :: y :: (A.toList ++ (B.toList ++ (C.toList ++ l)))) := by
  have h1 := (RBTree.perm_join d cx A x (RBTree.join d cy B y C)).append_right l
  have h2 := (RBTree.perm_join d cy B y C).append_left A.toList
  refine h1.trans ?_
  simp only [List.cons_append]
  refine List.Perm.cons x ?_
  refine (h2.append_right l).trans ?_
  simp [List.perm_middle]

/-- INTERNAL: a rotation keeps the order of the nodes. -/
theorem rotate_toList (d : Side) (cx cy : Color) (A B C : RBTree Ptr) (x y : Ptr) :
    (RBTree.join d cy (RBTree.join d cx A x B) y C).toList =
      (RBTree.join d cx A x (RBTree.join d cy B y C)).toList := by
  cases d <;> simp [RBTree.join]

/-- INTERNAL: **rotation**: the child on the far side of `x` moves up, `x` becomes its near
child, and the subtree between them changes hands.
SOURCE: m_rbtree.h:550-610 -/
theorem rotate_spec {d : Side} {cx cy : Color} {A B C : RBTree Ptr} {x y : Ptr}
    (h : Focus m k (RBTree.join d cx A x (RBTree.join d cy B y C))) :
    ∃ m', rotate d m x = .ok m' ∧
      Focus m' k (RBTree.join d cy (RBTree.join d cx A x B) y C) := by
  obtain ⟨hpx, hxA, hxy, hA, hY⟩ := links_join.mp h.links
  obtain ⟨hpy, hyB, hyC, hB, hC⟩ := links_join.mp hY
  have hpath := h.path
  rw [rootPtr_join] at hxy hpath
  have hperm := rotate_perm d cx cy A B C x y (RBPath.elems k)
  have hnd := hperm.nodup_iff.mp h.nodup
  have hptr : ∀ p ∈ x :: y :: (A.toList ++ (B.toList ++ (C.toList ++ RBPath.elems k))),
      NodePtr p := by
    intro p hp
    exact h.nodePtr p (List.mem_append.mp (hperm.mem_iff.mpr hp))
  have hx : NodePtr x := hptr x (by simp)
  have hy : NodePtr y := hptr y (by simp)
  have hpar : mRbtParent m x = holeParent k := by
    simp only [mRbtParent, hpx]
    exact packed_parent h.aligned_holeParent cx
  simp only [List.nodup_cons, List.nodup_append, List.mem_cons, List.mem_append] at hnd
  -- the two child links
  obtain ⟨m1, e1, t1, c1, c1', p1, r1⟩ := setChild_ok (m := m) hx.ne_null d.flip (rootPtr B)
  obtain ⟨m2, e2, t2, c2, c2', p2, r2⟩ := setChild_ok (m := m1) hy.ne_null d x
  have f2 : ∀ z, z ≠ x → z ≠ y → m2.node z = m.node z :=
    fun z hzx hzy => (r2 z hzy).trans (r1 z hzx)
  -- the link from above
  have hk2 : PathLinks m2 k x :=
    hpath.congr (t2.trans t1) fun q hq => f2 q (by grind) (by grind)
  have hptrk : ∀ q ∈ RBPath.elems k, NodePtr q := fun q hq => hptr q (by simp [hq])
  have hpos := replaceChild_eq y hk2 hx.ne_null (by grind) hptrk
  obtain ⟨m3, e3, hk3, r3⟩ := storeHole_spec y hk2 (by grind) hptrk
  -- the parent pointers
  have hB3 : Links m3 y B := hB.congr fun q hq =>
    (r3 q (by grind)).trans (f2 q (by grind) (by grind))
  obtain ⟨m4, e4, hB4, t4, r4⟩ := setParent_spec (q := x) hB3 hy.aligned (by grind)
    fun q hq => hptr q (by simp [hq])
  have x4 : m4.node x = m1.node x := ((r4 x (by grind)).trans (r3 x (by grind))).trans
    (r2 x (by grind))
  have y4 : m4.node y = m2.node y := (r4 y (by grind)).trans (r3 y (by grind))
  obtain ⟨m5, e5, t5, c5, p5, r5⟩ := setParent_node_spec (m := m4) (q := y) hx.ne_null
    (by rw [x4, p1, hpx]) h.aligned_holeParent
  have y5 : m5.node y = m2.node y := (r5 y (by grind)).trans y4
  have y1 : m1.node y = m.node y := r1 y (by grind)
  obtain ⟨m6, e6, t6, c6, p6, r6⟩ := setParent_node_spec (m := m5) (q := holeParent k)
    hy.ne_null (by rw [y5, p2, y1, hpy]) hx.aligned
  have hcode : rotate d m x = .ok m6 := by
    simp only [rotate, hxy, hy.ne_null, if_false, hyB, hpar, e1, e2, hpos, e3, e4, e5, e6,
      Outcome.ok_bind]
  have f6 : ∀ z, z ≠ x → z ≠ y → z ∉ B.toList → z ∉ RBPath.elems k →
      m6.node z = m.node z := by
    intro z hzx hzy hzB hzk
    rw [r6 z hzy, r5 z hzx, r4 z hzB, r3 z hzk, f2 z hzx hzy]
  have x6 : m6.node x = m5.node x := r6 x (by grind)
  have hnd' : ((RBTree.join d cy (RBTree.join d cx A x B) y C).toList ++
      RBPath.elems k).Nodup := by
    rw [rotate_toList]
    exact h.nodup
  refine ⟨m6, hcode, links_join.mpr ⟨p6, ?_, ?_, links_join.mpr ⟨?_, ?_, ?_, ?_, ?_⟩, ?_⟩,
    ?_, hnd', ?_⟩
  · rw [c6, child_congr y5, c2, rootPtr_join]
  · rw [c6, child_congr y5, c2', child_congr y1, hyC]
  · rw [x6, p5]
  · rw [child_congr x6, c5, child_congr x4]
    simpa using c1'.trans (by simpa using hxA)
  · rw [child_congr x6, c5, child_congr x4, c1]
  · exact hA.congr fun q hq => f6 q (by grind) (by grind) (by grind) (by grind)
  · exact hB4.congr fun q hq => (r6 q (by grind)).trans (r5 q (by grind))
  · exact hC.congr fun q hq => f6 q (by grind) (by grind) (by grind) (by grind)
  · rw [rootPtr_join]
    refine hk3.congr (t6.trans (t5.trans t4)) fun q hq => ?_
    rw [r6 q (by grind), r5 q (by grind), r4 q (by grind)]
  · intro p hp
    rw [rotate_toList] at hp
    exact h.nodePtr p hp

end Ming.Analysis
