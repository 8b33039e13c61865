import Ming.Analysis.RBTreeRebalance

/-!
# Removal keeps a valid tree and forgets one node

`m_rbt_remove` saves where the victim hangs, rebalances, puts the victim into the place of
the node when the node has two children, and unlinks it where it hung. The victim's link
survives the rebalancing, so the saved values still name it afterwards.
-/

set_option autoImplicit false

namespace Ming.Analysis

open Ming.Foundation Ming.Model Ming.Interface

variable {m : MRBTree} {k : RBPath Ptr} {v node : Ptr} {C : RBTree Ptr}

/-! ## Choosing the victim -/

/-- INTERNAL: the walk to the right ends at the last node of the subtree.
SOURCE: m_rbtree.h:775-777 -/
theorem maxLoop_spec {t : RBTree Ptr} {parent : Ptr} (hl : Links m parent t)
    (hp : ∀ p ∈ t.toList, NodePtr p) (ht : t ≠ .nil) :
    ∃ ks c l a, t = RBPath.fill ks (.node c l a .nil) ∧ (∀ f ∈ ks, f.side = .right) ∧
      ∀ fuel, t.height ≤ fuel → mRbtMaxLoop m fuel (rootPtr t) = .ok a := by
  induction t generalizing parent with
  | nil => exact absurd rfl ht
  | node c l p r _ ihr =>
    obtain ⟨-, -, hright, -, hlr⟩ := hl
    by_cases hr : r = .nil
    · subst hr
      refine ⟨[], c, l, p, rfl, by simp, fun fuel hf => ?_⟩
      cases fuel with
      | zero => simp [RBTree.height] at hf
      | succ fuel => simp [mRbtMaxLoop, hright]
    · have hr' : ∀ q ∈ r.toList, NodePtr q := fun q hq => hp q (by simp [hq])
      obtain ⟨ks, c', l', a, rfl, hks, hloop⟩ := ihr hlr hr' hr
      refine ⟨ks ++ [⟨.right, c, p, l⟩], c', l', a, ?_, ?_, fun fuel hf => ?_⟩
      · rw [RBPath.fill_append]
        rfl
      · intro f hf
        rcases List.mem_append.mp hf with hf | hf
        · exact hks f hf
        · rw [List.mem_singleton.mp hf]
      · cases fuel with
        | zero => simp [RBTree.height] at hf
        | succ fuel =>
          have hne := (hr' _ (rootPtr_mem hr)).ne_null
          simp only [mRbtMaxLoop, rootPtr_node, hright]
          rw [if_pos hne]
          exact hloop fuel (by simp only [RBTree.height] at hf; omega)

/-- The saved parent and side are those of the link the victim hangs on; where the parent
is the node itself, the victim's own address is saved, since it will take that place. -/
def PlanFor (node : Ptr) (plan : RemovePlan) : Option (Side × Ptr) → Prop
  | none => plan.parent = NULL
  | some (d, p) => plan.isLeft = decide (d = .left) ∧
      plan.parent = if p = node then plan.succ else p

section Plan

variable {c : Color} {l r : RBTree Ptr} {fuel : ℕ}

/-- INTERNAL: which links of a focused node are `NULL`. -/
theorem child_null (h : Focus m k (.node c l node r)) :
    ((m.node node).left = rootPtr l ∧ (rootPtr l = NULL ↔ l = .nil)) ∧
      (m.node node).right = rootPtr r ∧ (rootPtr r = NULL ↔ r = .nil) := by
  obtain ⟨-, hleft, hright, -, -⟩ := h.links
  have hptr : ∀ p ∈ (RBTree.node c l node r).toList, NodePtr p := fun p hp =>
    h.nodePtr p (Or.inl hp)
  exact ⟨⟨hleft, rootPtr_eq_null fun p hp => hptr p (by simp [hp])⟩,
    hright, rootPtr_eq_null fun p hp => hptr p (by simp [hp])⟩

/-- INTERNAL: the only child of the last node of a subtree, as the code reads it.
SOURCE: m_rbtree.h:787 -/
theorem victim_child {t : RBTree Ptr} (h : Focus m k (.node c t v .nil)) :
    (if (m.node v).left ≠ NULL then (m.node v).left else (m.node v).right) = rootPtr t := by
  obtain ⟨-, hleft, hright, -, -⟩ := h.links
  rw [hleft, hright]
  split_ifs with e
  · rfl
  · exact (not_not.mp e).symm

/-- INTERNAL: a node with two children; the victim is the last node on the left.
SOURCE: m_rbtree.h:773-787 -/
theorem removePlan_two (h : Focus m k (.node c l node r)) (hl : l ≠ .nil) (hr : r ≠ .nil)
    (hf : (RBTree.node c l node r).toList.length ≤ fuel) :
    ∃ plan k' c' C, removePlan fuel m node = .ok plan ∧
      RBPath.fill k (.node c l node r) = RBPath.fill k' (RBTree.join .left c' C plan.succ .nil) ∧
      plan.child = rootPtr C ∧ PlanFor node plan (holeLink k') ∧
      ∃ rest, RBPath.after k' = node :: rest := by
  obtain ⟨⟨hleft, hlnull⟩, hright, hrnull⟩ := child_null h
  obtain ⟨-, -, -, hll, -⟩ := h.links
  obtain ⟨ks, c', l', a, rfl, hks, hloop⟩ := maxLoop_spec hll
    (fun p hp => h.nodePtr p (Or.inl (by simp [hp]))) hl
  have hheight : (RBPath.fill ks (.node c' l' a .nil)).height ≤ fuel := by
    refine le_trans (RBTree.height_le_length _) (le_trans ?_ hf)
    rw [RBTree.toList_node, List.length_append]
    omega
  have hfoc : Focus m (ks ++ ⟨.left, c, node, r⟩ :: k) (.node c' l' a .nil) :=
    (Focus.append_iff ks).mpr (h.down (f := ⟨.left, c, node, r⟩))
  have hafter : RBPath.after (ks ++ ⟨.left, c, node, r⟩ :: k) =
      node :: (r.toList ++ RBPath.after k) := by
    rw [RBPath.after_append, RBPath.after_eq_nil hks]
    simp [RBPath.after]
  have hT : RBPath.fill k (.node c (RBPath.fill ks (.node c' l' a .nil)) node r) =
      RBPath.fill (ks ++ ⟨.left, c, node, r⟩ :: k) (RBTree.join .left c' l' a .nil) := by
    rw [RBPath.fill_append]
    rfl
  unfold removePlan
  rw [hleft, hright, if_pos ⟨fun e => hl (hlnull.mp e), fun e => hr (hrnull.mp e)⟩,
    hloop fuel hheight, Outcome.ok_bind, victim_child hfoc]
  cases ks with
  | nil =>
    rw [if_pos (by simp)]
    exact ⟨_, _, c', l', rfl, hT, rfl, ⟨rfl, (if_pos rfl).symm⟩, _, hafter⟩
  | cons f ks =>
    have hnd := hfoc.nodup
    rw [List.cons_append] at hfoc hnd
    rw [List.nodup_append] at hnd
    have hpar : mRbtParent m a = f.elem := hfoc.parent (by simp)
    have hside : f.side = .right := hks f (by simp)
    have hne : a ≠ rootPtr (RBPath.fill (f :: ks) (.node c' l' a .nil)) := by
      rw [rootPtr_fill]
      rintro e
      refine hnd.2.2 a (by simp) (segRoot (f :: ks) a) ?_ e
      rw [← List.cons_append, RBPath.elems_append]
      exact List.mem_append_left _ (segRoot_mem f ks a)
    have hfn : f.elem ≠ node := by
      rintro rfl
      have := hnd.2.1
      rw [← List.cons_append, RBPath.elems_append, List.nodup_append] at this
      exact this.2.2 f.elem (by simp [RBPath.elems]) f.elem (by simp [RBPath.elems]) rfl
    rw [if_neg hne, hpar]
    refine ⟨_, _, c', l', rfl, hT, rfl, ⟨?_, (if_neg hfn).symm⟩, _, hafter⟩
    have hl := (eq_comm.trans (hfoc.left_eq_iff (by simp)))
    exact decide_eq_decide.mpr hl

/-- INTERNAL: the link that a focused node hangs on, as the code reads it.
SOURCE: m_rbtree.h:788-795 -/
theorem planFor_node (h : Focus m k (.node c l node r)) (child : Ptr) :
    PlanFor node ⟨node, child, holeParent k,
      decide (holeParent k ≠ NULL ∧ (m.node (holeParent k)).left = node)⟩ (holeLink k) := by
  cases k with
  | nil => rfl
  | cons f k =>
    have hfn : f.elem ≠ node := by
      rintro rfl
      exact (List.nodup_append.mp h.nodup).2.2 f.elem (by simp) f.elem
        (by simp [RBPath.elems]) rfl
    refine ⟨decide_eq_decide.mpr ?_, (if_neg hfn).symm⟩
    have hl := (eq_comm.trans (h.left_eq_iff (by simp)))
    exact (and_iff_right h.elem_ne_null).trans hl

/-- INTERNAL: a node with at most one child is its own victim.
SOURCE: m_rbtree.h:788-795 -/
theorem removePlan_one (fuel : ℕ) (h : Focus m k (.node c l node r)) (hlr : l = .nil ∨ r = .nil) :
    ∃ plan d C, removePlan fuel m node = .ok plan ∧
      RBTree.node c l node r = RBTree.join d c C node .nil ∧ plan.succ = node ∧
      plan.child = rootPtr C ∧ PlanFor node plan (holeLink k) := by
  obtain ⟨⟨hleft, hlnull⟩, hright, hrnull⟩ := child_null h
  have hpar : mRbtParent m node = holeParent k := h.parent (by simp)
  have hnot : ¬ (rootPtr l ≠ NULL ∧ rootPtr r ≠ NULL) := by
    rw [← hlnull, ← hrnull] at hlr
    tauto
  unfold removePlan
  rw [hleft, hright, if_neg hnot, hpar]
  by_cases hl : l = .nil
  · subst hl
    refine ⟨_, .right, r, rfl, rfl, rfl, ?_, planFor_node h _⟩
    simp
  · obtain rfl := hlr.resolve_left hl
    exact ⟨_, .left, l, rfl, rfl, rfl, if_pos (fun e => hl (hlnull.mp e)), planFor_node h _⟩

end Plan

/-- INTERNAL: what the first part of `m_rbt_remove` saves: the victim, its only child, and
its link. A victim other than the node is the node's predecessor.
SOURCE: m_rbtree.h:768-807 -/
theorem removePlan_spec {T : RBTree Ptr} (h : Represents m T) (hn : node ∈ T.toList) {fuel : ℕ}
    (hf : T.toList.length ≤ fuel) :
    ∃ plan k d c C, removePlan fuel m node = .ok plan ∧
      T = RBPath.fill k (RBTree.join d c C plan.succ .nil) ∧ plan.child = rootPtr C ∧
      PlanFor node plan (holeLink k) ∧
      (plan.succ = node ∨ d = .left ∧ ∃ rest, RBPath.after k = node :: rest) := by
  obtain ⟨k, c, l, r, rfl⟩ := RBPath.exists_fill_of_mem hn
  have hfo := represents_fill.mp h
  by_cases hlr : l = .nil ∨ r = .nil
  · obtain ⟨plan, d, C, e, hjoin, hsucc, hchild, hplan⟩ := removePlan_one fuel hfo hlr
    refine ⟨plan, k, d, c, C, e, ?_, hchild, hplan, Or.inl hsucc⟩
    rw [hjoin, hsucc]
  · obtain ⟨hl, hr⟩ := not_or.mp hlr
    have hlen : (RBTree.node c l node r).toList.length ≤ fuel := by
      rw [(RBPath.perm_fill k _).length_eq, List.length_append] at hf
      omega
    obtain ⟨plan, k', c', C, e, hT, hchild, hplan, hafter⟩ := removePlan_two hfo hl hr hlen
    exact ⟨plan, k', .left, c', C, e, hT, hchild, hplan, Or.inr ⟨rfl, hafter⟩⟩

/-! ## The victim before and after the rebalancing -/

/-- A hole whose content has been unlinked in thought: `C`, the only child of the victim,
is what will hang there. -/
structure Detached (m : MRBTree) (k : RBPath Ptr) (C : RBTree Ptr) : Prop where
  path : ∃ x, PathLinks m k x
  child : ∃ q, Links m q C
  nodup : (C.toList ++ RBPath.elems k).Nodup
  nodePtr : ∀ p ∈ C.toList ++ RBPath.elems k, NodePtr p
  single : C = .nil ∨ ∃ ch, C = leaf .red ch
  valid : (RBPath.fill k C.blacken).Valid

/-- The victim `v` hangs in the hole of `k`, with `C` as its only child, and the tree is
valid without it. -/
structure VictimAt (m : MRBTree) (k : RBPath Ptr) (v : Ptr) (C : RBTree Ptr) : Prop
    extends Detached m k C where
  victim : PathLinks m k v
  fresh : v ∉ C.toList ++ RBPath.elems k
  victimPtr : NodePtr v

/-- INTERNAL: the nodes around a node with one child. -/
theorem victim_mem {d : Side} {c : Color} (x : Ptr) :
    x ∈ (RBTree.join d c C v .nil).toList ++ RBPath.elems k ↔
      x = v ∨ x ∈ C.toList ++ RBPath.elems k := by
  simp only [List.mem_append, RBTree.mem_toList_join, RBTree.toList_nil, List.not_mem_nil]
  tauto

/-- INTERNAL: no node is twice around a node with one child. -/
theorem victim_nodup {d : Side} {c : Color} :
    ((RBTree.join d c C v .nil).toList ++ RBPath.elems k).Nodup ↔
      v ∉ C.toList ++ RBPath.elems k ∧ (C.toList ++ RBPath.elems k).Nodup := by
  rw [((RBTree.perm_join d c C v .nil).append_right _).nodup_iff]
  simp

/-- INTERNAL: a focused node with one child, once the tree is valid without it. -/
theorem Focus.victimAt {d : Side} {c : Color} (h : Focus m k (RBTree.join d c C v .nil))
    (hs : C = .nil ∨ ∃ ch, C = leaf .red ch) (hv : (RBPath.fill k C.blacken).Valid) :
    VictimAt m k v C := by
  obtain ⟨-, -, -, hC, -⟩ := links_join.mp h.links
  obtain ⟨hfresh, hnd⟩ := victim_nodup.mp h.nodup
  have hpath := h.path
  rw [rootPtr_join] at hpath
  have hptr : ∀ p, p = v ∨ p ∈ C.toList ++ RBPath.elems k → NodePtr p := fun p hp =>
    h.nodePtr p (List.mem_append.mp ((victim_mem p).mpr hp))
  exact ⟨⟨⟨v, hpath⟩, ⟨v, hC⟩, hnd, fun p hp => hptr p (Or.inr hp), hs, hv⟩, hpath, hfresh,
    hptr v (Or.inl rfl)⟩

/-- INTERNAL: an only child is a red leaf below a black node, which it can replace. -/
theorem single_child {d : Side} {c : Color}
    (hv : (RBPath.fill k (RBTree.join d c C v .nil)).Valid) (hC : C ≠ .nil) :
    (∃ ch, C = leaf .red ch) ∧ (RBPath.fill k C.blacken).Valid := by
  obtain ⟨-, -, hn, -, h, H, hb, -⟩ := (RBPath.valid_fill ..).mp hv
  obtain ⟨j, hCj, hnil, rfl⟩ := (RBTree.blackHeight_join ..).mp hb
  obtain rfl : j = 0 := hnil
  obtain ⟨hred, hCn, -⟩ := (RBTree.noRedRed_join ..).mp hn
  cases C with
  | nil => exact absurd rfl hC
  | node cc l ch r =>
    obtain ⟨i, hl, hr, e⟩ := hCj
    cases cc with
    | black => simp at e
    | red =>
      obtain rfl : 0 = i := by simpa using e
      obtain ⟨hlr, -, -⟩ := hCn
      obtain rfl := hl.eq_nil (hlr rfl).1
      obtain rfl := hr.eq_nil (hlr rfl).2
      cases c with
      | red => exact absurd (hred rfl).1 (by simp [RBTree.rootColor])
      | black =>
        refine ⟨⟨ch, rfl⟩, RBPath.valid_fill_congr ?_ ?_ ?_ hv⟩
        · rw [RBTree.rootColor_join]
          rfl
        · exact fun _ => ⟨by simp, trivial, trivial⟩
        · intro h hh
          obtain ⟨i, -, hi, rfl⟩ := (RBTree.blackHeight_join ..).mp hh
          exact ⟨i, hi, hi, rfl⟩

/-- INTERNAL: `m_rbt_remove_rebalance` leaves a childless victim childless and on its link, in a
tree that is valid without it.
SOURCE: m_rbtree.h:677-751 -/
theorem rebalance_leaf {c : Color} (h : Represents m (RBPath.fill k (leaf c v)))
    (hv : (RBPath.fill k (leaf c v)).Valid) {fuel : ℕ} (hf : k.length + 3 ≤ fuel) :
    ∃ m' k' c', mRbtRemoveRebalance fuel m v = .ok m' ∧ Focus m' k' (leaf c' v) ∧
      SameHole k k' ∧ (RBPath.fill k' .nil).Valid := by
  have hfo := represents_fill.mp h
  obtain ⟨hr, hrb, hn, hnk, j, H, hb, hk⟩ := (RBPath.valid_fill ..).mp hv
  obtain ⟨i, hi, -, rfl⟩ := hb
  obtain rfl : i = 0 := hi
  cases c with
  | red =>
    -- a red victim only turns black
    have hleaf : leaf .red v = RBTree.join .left .red .nil v .nil := rfl
    have hcol : mRbtColor m v = M_RB_RED := hfo.color
    rw [hleaf] at hfo
    obtain ⟨m', e, h'⟩ := setColor_spec .black hfo
    refine ⟨m', k, .black, ?_, h', SameHole.refl k, ?_⟩
    · obtain ⟨fuel, rfl⟩ : ∃ n, fuel = n + 1 := ⟨fuel - 1, by omega⟩
      rw [mRbtRemoveRebalance, if_pos hcol]
      exact e
    · exact (RBPath.valid_fill ..).mpr ⟨fun _ => rfl, hrb, trivial, hnk.black, 0, H, rfl, hk⟩
  | black =>
    have hi : RemoveInv [] k := ⟨rfl, trivial, hnk, hrb, 0, H, rfl, hk⟩
    have hfo' : Focus m k (RBPath.fill [] (leaf .black v)) := hfo
    obtain ⟨m', k', e, h', hsame, hval⟩ := removeRebalance_spec hfo' hi (Or.inl hf)
    exact ⟨m', k', .black, e, h', hsame, hval⟩

/-- INTERNAL: the conditional call of `m_rbt_remove_rebalance` leaves the victim on its
link, in a tree that is valid without it.
SOURCE: m_rbtree.h:809-811 -/
theorem rebalance_victim {d : Side} {c : Color}
    (h : Represents m (RBPath.fill k (RBTree.join d c C v .nil)))
    (hv : (RBPath.fill k (RBTree.join d c C v .nil)).Valid) {fuel : ℕ}
    (hf : k.length + 3 ≤ fuel) :
    ∃ m' k', (if rootPtr C = NULL then mRbtRemoveRebalance fuel m v else pure m) = .ok m' ∧
      VictimAt m' k' v C ∧ SameHole k k' := by
  have hfo := represents_fill.mp h
  have hnull : rootPtr C = NULL ↔ C = .nil := rootPtr_eq_null fun p hp =>
    hfo.nodePtr p (Or.inl ((RBTree.mem_toList_join ..).mpr (Or.inr (Or.inl hp))))
  by_cases hC : C = .nil
  · subst hC
    have hleaf : RBTree.join d c .nil v .nil = leaf c v := by cases d <;> rfl
    rw [hleaf] at h hv
    rw [if_pos rootPtr_nil]
    obtain ⟨m', k', c', e, h', hsame, hval⟩ := rebalance_leaf h hv hf
    exact ⟨m', k', e, Focus.victimAt (d := .left) h' (Or.inl rfl) hval, hsame⟩
  · obtain ⟨hs, hval⟩ := single_child hv hC
    refine ⟨m, k, ?_, Focus.victimAt hfo (Or.inr hs) hval, SameHole.refl k⟩
    rw [if_neg (fun e => hC (hnull.mp e))]
    rfl

/-! ## Splicing and unlinking -/

/-- What the hole of a segment holds after the splice: the pointer `h` stays in the record
above it, but without such a record nothing hangs there. -/
def spliceHole (k : RBPath Ptr) (h : Ptr) : Ptr :=
  match k with
  | [] => NULL
  | _ :: _ => h

/-- The address a segment starts with after the splice. -/
abbrev spliceRoot (k : RBPath Ptr) (h : Ptr) : Ptr := segRoot k (spliceHole k h)

/-- INTERNAL: the links do not depend on the color of the parent. -/
theorem segLinks_spliceHole {parent h : Ptr} :
    SegLinks m parent k (spliceHole k h) ↔ SegLinks m parent k h := by cases k <;> rfl

/-- INTERNAL: `m_rbt_set_parent` on the node a segment starts with, if it has one.
SOURCE: m_rbtree.h:828-829 -/
theorem setParent_segment {parent q h : Ptr} (hk : SegLinks m parent k h)
    (hal : Aligned parent) (hnd : (RBPath.elems k).Nodup)
    (hptr : ∀ p ∈ RBPath.elems k, NodePtr p) :
    ∃ m', (if spliceRoot k h ≠ NULL then mRbtSetParent m (spliceRoot k h) q
        else pure m) = .ok m' ∧
      SegLinks m' q k h ∧ m'.tree = m.tree ∧
      ∀ z, z ∉ RBPath.elems k → m'.node z = m.node z := by
  cases k with
  | nil => exact ⟨m, if_neg (not_not.mpr rfl), trivial, rfl, fun _ _ => rfl⟩
  | cons f k =>
    have hmem := segRoot_mem f k h
    have hne : segRoot (f :: k) h ≠ NULL := (hptr _ hmem).ne_null
    obtain ⟨m', hm, htree, hc, hpc, hrest⟩ := storePcolor_ok (m := m) hne fun w =>
      (w &&& M_RB_FL_BLACK) ||| q
    refine ⟨m', (if_pos hne).trans hm, ?_, htree, ?_⟩
    · refine hk.reparent hnd (fun p _ hp => hrest p hp) (fun _ => hc) fun c _ hpar => ?_
      rw [hpc, hpar]
      exact packed_set_parent hal c q
    · intro z hz
      exact hrest z (by rintro rfl; exact hz hmem)

/-- INTERNAL: the addresses around a hole, the node `a` above it first. -/
theorem hole_perm (C : RBTree Ptr) (k₁ k₂ : RBPath Ptr) (c : Color) (r : RBTree Ptr) (a : Ptr) :
    (C.toList ++ RBPath.elems (k₁ ++ ⟨.left, c, a, r⟩ :: k₂)).Perm
      (a :: (C.toList ++ (RBPath.elems k₁ ++ (r.toList ++ RBPath.elems k₂)))) := by
  rw [RBPath.elems_append]
  simp only [RBPath.elems, List.cons_append]
  exact (List.perm_middle.append_left _).trans List.perm_middle

/-- INTERNAL: the victim takes the record and the place of its successor `node`; the hole it
leaves keeps some pointer that the unlinking overwrites.
SOURCE: m_rbtree.h:813-833 -/
theorem swapSuccessor_spec {k₁ k₂ : RBPath Ptr} {c : Color} {r : RBTree Ptr}
    (h : VictimAt m (k₁ ++ ⟨.left, c, node, r⟩ :: k₂) v C) :
    ∃ m', swapSuccessor m node v = .ok m' ∧
      Detached m' (k₁ ++ ⟨.left, c, v, r⟩ :: k₂) C := by
  obtain ⟨hseg, hpcn, hln, hrn, hr, hk₂⟩ := pathLinks_append.mp h.victim
  rw [holeParent_cons] at hseg
  have hperm := hole_perm C k₁ k₂ c r node
  -- the addresses in play, all different
  have hnd : (v :: node :: (C.toList ++ (RBPath.elems k₁ ++ (r.toList ++
      RBPath.elems k₂)))).Nodup := by
    exact (hperm.cons v).nodup_iff.mp (List.nodup_cons.mpr ⟨h.fresh, h.nodup⟩)
  have hptr : ∀ p ∈ v :: node :: (C.toList ++ (RBPath.elems k₁ ++ (r.toList ++
      RBPath.elems k₂))), NodePtr p := by
    intro p hp
    rcases List.mem_cons.mp hp with rfl | hp
    · exact h.victimPtr
    · exact h.nodePtr p (hperm.mem_iff.mpr hp)
  have hv : NodePtr v := hptr v (by simp)
  have hnode : NodePtr node := hptr node (by simp)
  have hptrk₂ : ∀ q ∈ RBPath.elems k₂, NodePtr q := fun q hq => hptr q (by simp [hq])
  have halk₂ : Aligned (holeParent k₂) := by
    cases k₂ with
    | nil => exact aligned_null
    | cons f k₂ => exact (hptrk₂ _ (by simp [RBPath.elems])).aligned
  have hpar : mRbtParent m node = holeParent k₂ := by
    simp only [mRbtParent, hpcn]
    exact packed_parent halk₂ c
  have hall := hnd
  simp only [List.nodup_cons, List.nodup_append, List.mem_cons, List.mem_append] at hnd
  -- what is left of the node once the victim is gone
  have hleft : (if v = (m.node node).left then NULL else (m.node node).left) =
      spliceRoot k₁ v := by
    have hln' : (m.node node).left = segRoot k₁ v := hln
    rw [hln']
    cases k₁ with
    | nil => exact if_pos rfl
    | cons f k₁ =>
      have := segRoot_mem f k₁ v
      exact if_neg (by rintro e; rw [← e] at this; grind)
  have hright : (m.node node).right = rootPtr r := hrn
  -- the record of the victim
  obtain ⟨m1, e1, t1, c1, c1', p1, r1⟩ := setChild_ok (m := m) hv.ne_null .left
    (spliceRoot k₁ v)
  obtain ⟨m2, e2, t2, c2, c2', p2, r2⟩ := setChild_ok (m := m1) hv.ne_null .right (rootPtr r)
  obtain ⟨m3, e3, t3, c3, p3, r3⟩ := storePcolor_ok (m := m2) hv.ne_null
    fun _ => holeParent k₂ ||| colorBit c
  have f3 : ∀ z, z ≠ v → m3.node z = m.node z :=
    fun z hz => (r3 z hz).trans ((r2 z hz).trans (r1 z hz))
  -- the parents of its new children
  have hseg3 : SegLinks m3 node k₁ v := hseg.congr fun q hq => f3 q (by grind)
  obtain ⟨m4, e4, hseg4, t4, r4⟩ := setParent_segment (q := v) hseg3 hnode.aligned (by grind)
    fun p hp => hptr p (by simp [hp])
  have hr4 : Links m4 node r := hr.congr fun q hq => (r4 q (by grind)).trans (f3 q (by grind))
  obtain ⟨m5, e5, hr5, t5, r5⟩ := setParent_spec (q := v) hr4 hnode.aligned (by grind)
    fun p hp => hptr p (by simp [hp])
  -- the link from above
  have hk5 : PathLinks m5 k₂ node := hk₂.congr (t5.trans (t4.trans (t3.trans (t2.trans t1))))
    fun q hq => (r5 q (by grind)).trans ((r4 q (by grind)).trans (f3 q (by grind)))
  have hpos := replaceChild_eq v hk5 hnode.ne_null (by grind) hptrk₂
  obtain ⟨m6, e6, hk6, r6⟩ := storeHole_spec v hk5 (by grind) hptrk₂
  have v6 : m6.node v = m3.node v :=
    (r6 v (by grind)).trans ((r5 v (by grind)).trans (r4 v (by grind)))
  have hcode : swapSuccessor m node v = .ok m6 := by
    have e3' : (m2.store v fun n => { n with pcolor := (m.node node).pcolor }) = .ok m3 := by
      rw [hpcn]
      exact e3
    unfold swapSuccessor
    simp only [hleft, hright, hpar, e1, e2, e3', Outcome.ok_bind]
    rw [e4, Outcome.ok_bind, e5, Outcome.ok_bind, hpos]
    exact e6
  have hperm' := hole_perm C k₁ k₂ c r v
  refine ⟨m6, hcode, ⟨spliceHole k₁ v, ?_⟩, ?_, ?_, ?_, h.single, ?_⟩
  · refine pathLinks_append.mpr ⟨segLinks_spliceHole.mpr ?_, ?_, ?_, ?_, ?_, hk6⟩
    · exact hseg4.congr fun q hq => (r6 q (by grind)).trans (r5 q (by grind))
    · rw [v6, p3]
    · rw [child_congr v6, c3]
      exact c2'.trans c1
    · rw [child_congr v6, c3]
      exact c2
    · exact hr5.congr fun q hq => r6 q (by grind)
  · obtain ⟨q, hC⟩ := h.child
    refine ⟨q, hC.congr fun z hz => ?_⟩
    rw [r6 z (by grind), r5 z (by grind), r4 z (by grind), f3 z (by grind)]
  · exact hperm'.nodup_iff.mpr (hall.sublist ((List.sublist_cons_self ..).cons_cons v))
  · intro p hp
    refine hptr p ?_
    rcases List.mem_cons.mp (hperm'.mem_iff.mp hp) with rfl | hp
    · exact List.mem_cons_self
    · exact List.mem_cons_of_mem _ (List.mem_cons_of_mem _ hp)
  · have hval := h.valid
    rw [RBPath.fill_append, RBPath.fill_cons] at hval ⊢
    refine RBPath.valid_fill_congr (by simp) (fun hn => ?_) (fun j hb => ?_) hval
    · exact (RBTree.noRedRed_join ..).mpr ((RBTree.noRedRed_join ..).mp hn)
    · exact (RBTree.blackHeight_join ..).mpr ((RBTree.blackHeight_join ..).mp hb)

/-- INTERNAL: the last block hangs the victim's child, now black, in the hole.
SOURCE: m_rbtree.h:835-842 -/
theorem unlinkChild_spec {plan : RemovePlan} (h : Detached m k C) (hc : plan.child = rootPtr C)
    (hp : plan.parent = holeParent k)
    (hl : ∀ f k', k = f :: k' → plan.isLeft = decide (f.side = .left)) :
    ∃ m', unlinkChild m plan = .ok m' ∧ Represents m' (RBPath.fill k C.blacken) := by
  obtain ⟨x, hpath⟩ := h.path
  have hptrk : ∀ p ∈ RBPath.elems k, NodePtr p := fun p hq => h.nodePtr p (by simp [hq])
  obtain ⟨hndC, hndk, hdisj⟩ := List.nodup_append.mp h.nodup
  obtain ⟨m1, e1, hk1, r1⟩ := storeHole_spec (rootPtr C) hpath hndk hptrk
  have hfirst : (if plan.parent ≠ NULL then
      if plan.isLeft then m.setChild .left plan.parent plan.child
      else m.setChild .right plan.parent plan.child
      else pure { m with tree := plan.child }) = .ok m1 := by
    rw [hp, hc, ← e1]
    cases k with
    | nil => exact if_neg (not_not.mpr rfl)
    | cons f k =>
      have hf : f.elem ≠ NULL := (hptrk f.elem (by simp [RBPath.elems])).ne_null
      rw [holeParent_cons, if_pos hf, hl f k rfl]
      refine Eq.trans ?_ (storePos_sidePos ..).symm
      cases f.side with
      | left => exact if_pos rfl
      | right => exact if_neg (by decide)
  unfold unlinkChild
  rw [hfirst, Outcome.ok_bind, hc, hp]
  rcases h.single with rfl | ⟨ch, rfl⟩
  · refine ⟨m1, if_neg (not_not.mpr rfl), represents_fill.mpr ⟨trivial, hk1, h.nodup, ?_⟩⟩
    intro p hq
    exact h.nodePtr p (List.mem_append.mpr hq)
  · have hch : NodePtr ch := h.nodePtr ch (by simp)
    obtain ⟨q, hC⟩ := h.child
    obtain ⟨-, hcl, hcr, -, -⟩ := hC
    obtain ⟨m2, e2, t2, c2, p2, r2⟩ := storePcolor_ok (m := m1) hch.ne_null
      fun _ => holeParent k ||| M_RB_BLACK
    have hchk : ch ∉ RBPath.elems k := fun hq => hdisj ch (by simp) ch hq rfl
    have hne : ∀ z ∈ RBPath.elems k, z ≠ ch := by
      rintro z hz rfl
      exact hchk hz
    refine ⟨m2, (if_pos hch.ne_null).trans e2, represents_fill.mpr ⟨⟨p2, ?_, ?_, trivial, trivial⟩,
      hk1.congr t2 fun z hz => r2 z (hne z hz), h.nodup, ?_⟩⟩
    · exact (c2 .left).trans ((child_congr (r1 ch hchk) .left).trans hcl)
    · exact (c2 .right).trans ((child_congr (r1 ch hchk) .right).trans hcr)
    · intro p hq
      exact h.nodePtr p (List.mem_append.mpr hq)

/-- INTERNAL: a node is erased where it stands. -/
theorem erase_middle {l r : List Ptr} {a : Ptr} (h : (l ++ a :: r).Nodup) :
    (l ++ a :: r).erase a = l ++ r := by
  have ha : a ∉ l := fun hl => (List.nodup_append.mp h).2.2 a hl a (by simp) rfl
  rw [List.erase_append_right _ ha, List.erase_cons_head]

section Unlink

variable {k₁ : RBPath Ptr} {plan : RemovePlan} (hvic : VictimAt m k₁ plan.succ C)
variable (hlink : PlanFor node plan (holeLink k₁)) (hchild : plan.child = rootPtr C)
include hvic hlink hchild

/-- INTERNAL: the node itself is unlinked.
SOURCE: m_rbtree.h:831-842 -/
theorem unlink_itself (hs : plan.succ = node) :
    ∃ m', unlinkChild m plan = .ok m' ∧ Represents m' (RBPath.fill k₁ C.blacken) := by
  have hpar : plan.parent = holeParent k₁ ∧
      ∀ f k', k₁ = f :: k' → plan.isLeft = decide (f.side = .left) := by
    cases k₁ with
    | nil => exact ⟨hlink, nofun⟩
    | cons f k₁ =>
      obtain ⟨h1, h2⟩ := hlink
      have hne : f.elem ≠ node := by
        rintro rfl
        exact hvic.fresh (by simp [RBPath.elems, hs])
      rw [if_neg hne] at h2
      refine ⟨h2, ?_⟩
      rintro _ _ ⟨⟩
      exact h1
  exact unlinkChild_spec hvic.toDetached hchild hpar.1 hpar.2

omit hchild in
/-- INTERNAL: the predecessor takes the place of the node, and the saved link names its old one.
SOURCE: m_rbtree.h:802-829 -/
theorem swap_predecessor {rest : List Ptr} (hafter : RBPath.after k₁ = node :: rest) :
    ∃ m' k₂, swapSuccessor m node plan.succ = .ok m' ∧ Detached m' k₂ C ∧
      (plan.parent = holeParent k₂ ∧
        ∀ f k', k₂ = f :: k' → plan.isLeft = decide (f.side = .left)) ∧
      RBPath.before k₂ = RBPath.before k₁ ∧ RBPath.after k₂ = plan.succ :: rest := by
  obtain ⟨ka, cn, r, kb, rfl, hka⟩ := RBPath.exists_of_after_eq_cons hafter
  obtain ⟨m2, e2, hdet⟩ := swapSuccessor_spec hvic
  refine ⟨m2, _, e2, hdet, ?_, ?_, ?_⟩
  · cases ka with
    | nil =>
      obtain ⟨h1, h2⟩ := hlink
      refine ⟨h2.trans (if_pos rfl), ?_⟩
      rintro _ _ ⟨⟩
      exact h1
    | cons f ka =>
      obtain ⟨h1, h2⟩ := hlink
      have hne : f.elem ≠ node := by
        rintro rfl
        have := (List.nodup_append.mp hvic.nodup).2.1
        rw [RBPath.elems_append, List.nodup_append] at this
        exact this.2.2 f.elem (by simp [RBPath.elems]) f.elem (by simp [RBPath.elems]) rfl
      refine ⟨h2.trans (if_neg hne), ?_⟩
      rintro _ _ ⟨⟩
      exact h1
  · rw [RBPath.before_append, RBPath.before_append]
    rfl
  · rw [RBPath.after_append, RBPath.after_eq_nil hka] at hafter ⊢
    simp only [RBPath.after, List.nil_append, List.cons_append, List.cons.injEq] at hafter ⊢
    exact ⟨trivial, hafter.2⟩

end Unlink

/-- INTERNAL: with the values saved before, the code behind the rebalancing removes the node
alone. -/
theorem unlinkVictim_spec {plan : RemovePlan} {d : Side} {c : Color} {k₁ : RBPath Ptr}
    (hnd : (RBPath.fill k (RBTree.join d c C plan.succ .nil)).toList.Nodup)
    (hchild : plan.child = rootPtr C) (hplan : PlanFor node plan (holeLink k))
    (hcase : plan.succ = node ∨ d = .left ∧ ∃ rest, RBPath.after k = node :: rest)
    (hvic : VictimAt m k₁ plan.succ C) (hsame : SameHole k k₁) :
    ∃ m' T', unlinkVictim m node plan = .ok m' ∧ Represents m' T' ∧ T'.Valid ∧
      T'.toList = (RBPath.fill k (RBTree.join d c C plan.succ .nil)).toList.erase node := by
  have hlink : PlanFor node plan (holeLink k₁) := by
    rw [hsame.link]
    exact hplan
  rw [RBPath.toList_fill] at hnd ⊢
  have hcode : ∀ m₂, (if plan.succ ≠ node then swapSuccessor m node plan.succ else pure m) =
      .ok m₂ → unlinkVictim m node plan = unlinkChild m₂ plan := by
    intro m₂ e2
    rw [unlinkVictim, e2, Outcome.ok_bind]
  by_cases hs : plan.succ = node
  · obtain ⟨m2, e2, hrep⟩ := unlink_itself hvic hlink hchild hs
    refine ⟨m2, _, (hcode m (if_neg (not_not.mpr hs))).trans e2, hrep, hvic.valid, ?_⟩
    rw [RBPath.toList_fill, RBTree.toList_blacken, hsame.before, hsame.after]
    rw [hs] at hnd ⊢
    cases d with
    | left =>
      have e : RBPath.before k ++ (RBTree.join .left c C node .nil).toList ++ RBPath.after k =
          (RBPath.before k ++ C.toList) ++ node :: RBPath.after k := by simp [RBTree.join]
      rw [e] at hnd ⊢
      exact (erase_middle hnd).symm
    | right =>
      have e : RBPath.before k ++ (RBTree.join .right c C node .nil).toList ++ RBPath.after k =
          RBPath.before k ++ node :: (C.toList ++ RBPath.after k) := by simp [RBTree.join]
      rw [e] at hnd ⊢
      rw [erase_middle hnd, List.append_assoc]
  · obtain ⟨rfl, rest, hrest⟩ := hcase.resolve_left hs
    have hafter : RBPath.after k₁ = node :: rest := hsame.after.trans hrest
    obtain ⟨m2, k₂, e2, hdet, hpar, hb, ha⟩ := swap_predecessor hvic hlink hafter
    obtain ⟨m3, e3, hrep⟩ := unlinkChild_spec hdet hchild hpar.1 hpar.2
    refine ⟨m3, _, (hcode m2 ((if_pos hs).trans e2)).trans e3, hrep, hdet.valid, ?_⟩
    rw [RBPath.toList_fill, RBTree.toList_blacken, hb.trans hsame.before, ha]
    have e : RBPath.before k ++ (RBTree.join .left c C plan.succ .nil).toList ++ RBPath.after k =
        (RBPath.before k ++ C.toList ++ [plan.succ]) ++ node :: rest := by
      simp [RBTree.join, hrest]
    rw [e] at hnd ⊢
    rw [erase_middle hnd]
    simp

/-- INTERNAL: fuel for the tree is fuel for the path. -/
theorem hole_length {T : RBTree Ptr} {t : RBTree Ptr} (h : T = RBPath.fill k t) {fuel : ℕ}
    (hf : T.toList.length + 3 ≤ fuel) : k.length + 3 ≤ fuel := by
  have h1 := RBPath.length_le_elems k
  rw [h, (RBPath.perm_fill k _).length_eq, List.length_append] at hf
  omega

/-- INTERNAL: **`m_rbt_remove`** of any node of a valid tree returns, the tree stays valid,
and its in-order sequence is the old one without the node.
SOURCE: m_rbtree.h:760-843 -/
theorem mRbtRemove_spec {T : RBTree Ptr} (h : Represents m T) (hv : T.Valid)
    (hn : node ∈ T.toList) {fuel : ℕ} (hf : T.toList.length + 3 ≤ fuel) :
    ∃ m' T', mRbtRemove fuel m node = .ok m' ∧ Represents m' T' ∧ T'.Valid ∧
      T'.toList = T.toList.erase node := by
  have hnull := (h.nodePtr node hn).ne_null
  have hfuel : T.toList.length ≤ fuel := by omega
  obtain ⟨plan, k, d, c, C, eplan, hT, hchild, hplan, hcase⟩ := removePlan_spec h hn hfuel
  have hlen := hole_length hT hf
  subst hT
  obtain ⟨m1, k₁, e1, hvic, hsame⟩ := rebalance_victim h hv hlen
  obtain ⟨m2, T', e2, hrep, hval, hlist⟩ := unlinkVictim_spec h.nodup hchild hplan hcase hvic hsame
  refine ⟨m2, T', ?_, hrep, hval, hlist⟩
  unfold mRbtRemove
  rw [if_neg hnull, eplan, Outcome.ok_bind, hchild, e1, Outcome.ok_bind]
  exact e2

end Ming.Analysis
