import Ming.Analysis.RBTreeRuns
import Ming.Model.RBTreeRelease

/-!
# The nodes of a tree are released once

`m_rbt_free_node` releases the two subtrees of a node before the node, so it reads the links of
a node while its memory is still there. The depth of the recursion is the height of the tree.
-/

set_option autoImplicit false

namespace Ming.Analysis

open Ming.Foundation Ming.Model Ming.Interface

variable {K : Type} {m : MRBTree} {S : List Ptr} {t l r : RBTree Ptr} {s : RBTreeMemory}
variable {parent p : Ptr} {depth : ℕ} {d : Side}

/-- The nodes of a tree, the subtrees of a node before the node. -/
def postorder : RBTree Ptr → List Ptr
  | .nil => []
  | .node _ l p r => postorder l ++ (postorder r ++ [p])

/-- INTERNAL: the order of the releases has the nodes of the tree. -/
theorem postorder_perm (t : RBTree Ptr) : (postorder t).Perm t.toList := by
  induction t with
  | nil => exact List.Perm.nil
  | node c l p r hl hr =>
    rw [postorder, RBTree.toList_node]
    exact hl.append (List.perm_append_comm.trans (hr.cons p))

/-- The nodes of a list are released. -/
def released (s : RBTreeMemory) (nodes : List Ptr) : RBTreeMemory :=
  { s with live := fun p => s.live p && !nodes.contains p, freed := s.freed ++ nodes }

/-- INTERNAL: nothing is released. -/
theorem released_nil (s : RBTreeMemory) : released s [] = s := by
  cases s
  simp [released]

/-- INTERNAL: some nodes are released after others. -/
theorem released_append (s : RBTreeMemory) (nodes nodes' : List Ptr) :
    released (released s nodes) nodes' = released s (nodes ++ nodes') := by
  simp only [released, List.append_assoc, RBTreeMemory.mk.injEq, and_true, true_and]
  funext p
  simp [Bool.and_assoc]

/-- INTERNAL: a node that is not released stays. -/
theorem released_live {nodes : List Ptr} (hp : p ∉ nodes) :
    (released s nodes).live p = s.live p := by
  simp [released, hp]

/-- INTERNAL: a call of `free_node`. -/
theorem freeNode_ok (hp : s.live p = true) : s.freeNode p = .ok (released s [p]) := by
  rw [RBTreeMemory.freeNode, if_pos hp, released]
  refine congrArg (fun f => Except.ok (RBTreeMemory.mk s.mem f (s.freed ++ [p]))) ?_
  funext q
  by_cases hq : q = p
  · subst hq
    simp
  · simp [hq]

/-- INTERNAL: a subtree is released, or is not there. -/
theorem freeChild_ok (hp : s.live p = true) (hchild : s.mem.child d p = rootPtr t)
    (hnode : ∀ q ∈ t.toList, NodePtr q)
    (ih : t ≠ .nil → mRbtFreeNode depth s (rootPtr t) = .ok (released s (postorder t))) :
    freeChild (mRbtFreeNode depth) d s p = .ok (released s (postorder t)) := by
  rw [freeChild, RBTreeMemory.child, if_pos hp, hchild, Outcome.ok_bind]
  by_cases ht : t = .nil
  · subst ht
    rw [show rootPtr RBTree.nil = NULL from rfl, if_neg (not_not.mpr rfl), postorder, released_nil]
    rfl
  · rw [if_pos (fun e => ht ((rootPtr_eq_null hnode).mp e))]
    exact ih ht

/-- INTERNAL: **the release of a subtree** visits its nodes in postorder. The induction is on the
tree, and the right subtree is intact when the left one has been released.
SOURCE: m_rbtree.h:311-320 -/
theorem freeNode_spec (hl : Links s.mem parent t) (hnd : t.toList.Nodup)
    (hnode : ∀ p ∈ t.toList, NodePtr p) (hlive : ∀ p ∈ t.toList, s.live p = true)
    (ht : t ≠ .nil) (hd : t.height ≤ depth) :
    mRbtFreeNode depth s (rootPtr t) = .ok (released s (postorder t)) := by
  induction t generalizing s parent depth with
  | nil => exact absurd rfl ht
  | node c l p r ihl ihr =>
    obtain ⟨-, hleft, hright, hll, hlr⟩ := hl
    rw [RBTree.toList_node, List.nodup_append, List.nodup_cons] at hnd
    obtain ⟨hndl, ⟨hpr, hndr⟩, hdis⟩ := hnd
    simp only [RBTree.toList_node, List.mem_append, List.mem_cons] at hnode hlive
    obtain ⟨n, rfl⟩ : ∃ n, depth = n + 1 := ⟨depth - 1, by rw [RBTree.height] at hd; omega⟩
    have hheight : l.height ≤ n ∧ r.height ≤ n := by
      rw [RBTree.height] at hd
      omega
    have hp := hlive p (Or.inr (Or.inl rfl))
    have hpl : p ∉ postorder l := fun h =>
      hdis p ((postorder_perm l).mem_iff.mp h) p List.mem_cons_self rfl
    have hpr' : p ∉ postorder r := fun h => hpr ((postorder_perm r).mem_iff.mp h)
    have hrl : ∀ q ∈ r.toList, q ∉ postorder l := fun q hq h =>
      hdis q ((postorder_perm l).mem_iff.mp h) q (List.mem_cons_of_mem p hq) rfl
    have eleft : freeChild (mRbtFreeNode n) .left s p = .ok (released s (postorder l)) :=
      freeChild_ok hp hleft (fun q hq => hnode q (Or.inl hq)) fun hne =>
        ihl hll hndl (fun q hq => hnode q (Or.inl hq)) (fun q hq => hlive q (Or.inl hq)) hne
          hheight.1
    have eright : freeChild (mRbtFreeNode n) .right (released s (postorder l)) p =
        .ok (released (released s (postorder l)) (postorder r)) :=
      freeChild_ok ((released_live hpl).trans hp) hright
        (fun q hq => hnode q (Or.inr (Or.inr hq))) fun hne =>
        ihr hlr hndr (fun q hq => hnode q (Or.inr (Or.inr hq)))
          (fun q hq => (released_live (hrl q hq)).trans (hlive q (Or.inr (Or.inr hq)))) hne
          hheight.2
    have hp' : (released (released s (postorder l)) (postorder r)).live p = true :=
      (released_live hpr').trans ((released_live hpl).trans hp)
    rw [rootPtr_node, mRbtFreeNode, eleft, Outcome.ok_bind, eright, Outcome.ok_bind,
      freeNode_ok hp', released_append, released_append, postorder]

/-- **A tree is released node by node.** In every state of a run, when the memory of the nodes is
allocated, `m_rbt_deinit` reads only records whose memory is still there, passes every node of
the tree to `free_node` exactly once and nothing else, and nests at most `2 * log2 (n + 1)`
calls.
SOURCE: m_rbtree.h:311-320, 455-463, 550-843 -/
theorem rbt_released_once {cmp : K → K → ℤ} (hcmp : StrictOrder cmp) {getKey : Ptr → K}
    (h : RBRun cmp m getKey S) {live : Ptr → Bool} (hlive : ∀ p ∈ S, live p = true) :
    ∃ freed, mRbtDeinit true (2 * Nat.log 2 (S.length + 1)) ⟨m, live, []⟩ =
        .ok ⟨m, fun p => live p && !S.contains p, freed⟩ ∧ freed.Perm S ∧ freed.Nodup := by
  obtain ⟨T, hr, hv, -, hperm⟩ := rbRun_inv hcmp h
  have hpost := (postorder_perm T).trans hperm
  have hnd : (postorder T).Nodup := (postorder_perm T).nodup_iff.mpr hr.nodup
  refine ⟨postorder T, ?_, hpost, hnd⟩
  have hresult : released ⟨m, live, []⟩ (postorder T) =
      ⟨m, fun p => live p && !S.contains p, postorder T⟩ := by
    rw [released]
    refine congrArg (fun f => RBTreeMemory.mk m f (postorder T)) ?_
    funext p
    rw [hpost.contains_eq]
  rw [← hresult]
  by_cases hT : T = .nil
  · subst hT
    have htree : m.tree = NULL := hr.tree
    rw [mRbtDeinit, if_neg (fun hc => hc.2 htree), postorder, released_nil]
  · have htree : m.tree ≠ NULL := fun e =>
      hT ((rootPtr_eq_null hr.nodePtr).mp (hr.tree.symm.trans e))
    have hheight : T.height ≤ 2 * Nat.log 2 (S.length + 1) := hperm.length_eq ▸ hv.height_le_log
    rw [mRbtDeinit, if_pos ⟨rfl, htree⟩, hr.tree]
    exact freeNode_spec hr.links hr.nodup hr.nodePtr (fun p hp => hlive p (hperm.mem_iff.mp hp)) hT
      hheight

/-- A tree of two nodes. -/
theorem rbt_released_once_two : ∃ (m : MRBTree) (freed : List Ptr),
    RBRun intCmp m addrKey [16, 8] ∧
    mRbtDeinit true 2 ⟨m, fun _ => true, []⟩ =
      .ok ⟨m, fun p => !([16, 8] : List Ptr).contains p, freed⟩ ∧ freed.Perm [16, 8] := by
  obtain ⟨m, h⟩ : ∃ m, RBRun intCmp m addrKey [16, 8] :=
    ⟨_, .insert (n := 3) (.insert (n := 3) (.init ⟨NULL, fun _ => ⟨0, 0, 0⟩⟩ _)
      nodePtr_eight rfl (show mRbtInsert 3 _ NULL .tree 8 = .ok _ from rfl)) nodePtr_sixteen rfl
      (show mRbtInsert 3 _ 8 (.right 8) 16 = .ok _ from rfl)⟩
  obtain ⟨freed, e, hperm, -⟩ := rbt_released_once intCmp_strict h
    (fun p _ => (rfl : (fun _ : Ptr => true) p = true))
  exact ⟨m, freed, h, e, hperm⟩

end Ming.Analysis
