import Ming.Analysis.RBTreeRuns
import Ming.Model.RBTreeTraverse

/-!
# Traversal of a tree, also while it loses nodes

The neighbour of a node is the next one of the in-order sequence, read from either side: below
the node if it has a child there, else the lowest node above it that has it on the near side.
The safe loops keep the neighbour across the body. A removal takes a node out of the in-order
sequence and leaves the order of the others, so the saved neighbour is still the next one.
-/

set_option autoImplicit false

namespace Ming.Analysis

open Ming.Foundation Ming.Model Ming.Interface

variable {K : Type} {ops : MRBTreeOps K} {m m' : MRBTree} {k : RBPath Ptr} {t T : RBTree Ptr}
variable {d : Side} {p q : Ptr} {l done rest : List Ptr} {fuel : ℕ}

/-! ## Neighbours -/

/-- INTERNAL: the first node of a list that is not empty. -/
theorem headD_append_of_ne_nil (hl : l ≠ []) : (l ++ rest).headD NULL = l.headD NULL := by
  cases l with
  | nil => exact absurd rfl hl
  | cons a l => rfl

/-- INTERNAL: the descent ends at the first node on that side.
SOURCE: m_rbtree.h:341-342, 387-388 -/
theorem descend_spec {parent : Ptr} (hl : Links m parent t) (hp : ∀ p ∈ t.toList, NodePtr p)
    (ht : t ≠ .nil) (hf : t.height ≤ fuel) :
    mRbtDescend m d fuel (rootPtr t) = .ok ((d.order t.toList).headD NULL) := by
  induction fuel generalizing t parent with
  | zero =>
    cases t with
    | nil => exact absurd rfl ht
    | node c l p r => simp [RBTree.height] at hf
  | succ fuel ih =>
    obtain ⟨s, p, o, e⟩ := RBTree.exists_join d t ht
    rw [e] at hl hp hf ⊢
    obtain ⟨-, hchild, -, hs, -⟩ := links_join.mp hl
    have hps : ∀ q ∈ s.toList, NodePtr q := fun q hq =>
      hp q ((RBTree.mem_toList_join ..).mpr (Or.inr (Or.inl hq)))
    rw [rootPtr_join, mRbtDescend, hchild, RBTree.order_join]
    by_cases hnil : s = .nil
    · subst hnil
      rw [rootPtr_nil, if_neg (not_not.mpr rfl), RBTree.toList_nil, Side.order_nil]
      rfl
    · have hheight : s.height ≤ fuel := by
        have := RBTree.height_lt_join d t.rootColor s p o
        omega
      have hne : d.order s.toList ≠ [] := fun e =>
        absurd (rootPtr_mem hnil) (by rw [← (d.order_perm _).mem_iff, e]; exact List.not_mem_nil)
      rw [if_pos (fun e => hnil ((rootPtr_eq_null hps).mp e)), ih hs hps hnil hheight,
        headD_append_of_ne_nil hne]

/-- INTERNAL: the climb ends at the lowest node that has the hole on the near side.
SOURCE: m_rbtree.h:393-401 -/
theorem climb_spec (h : Focus m k t) (ht : t ≠ .nil) (hf : k.length < fuel) :
    mRbtClimb m d fuel (rootPtr t) (holeParent k) = .ok ((RBPath.beyond d k).headD NULL) := by
  induction k generalizing t fuel with
  | nil =>
    obtain ⟨n, rfl⟩ : ∃ n, fuel = n + 1 := ⟨fuel - 1, by omega⟩
    rw [mRbtClimb, holeParent_nil, if_pos rfl, RBPath.beyond_nil]
    rfl
  | cons f k ih =>
    obtain ⟨n, rfl⟩ : ∃ n, fuel = n + 1 := ⟨fuel - 1, by omega⟩
    obtain ⟨e, c, a, o⟩ := f
    have hchild := h.child_parent
    rw [mRbtClimb, holeParent_cons, if_neg h.elem_ne_null]
    rcases Side.eq_or_eq_flip d e with rfl | rfl
    · rw [if_pos hchild.1, RBPath.beyond_cons_same]
      rfl
    · have hother : m.child d a = rootPtr o := by
        have := hchild.2
        rwa [Side.flip_flip] at this
      have hup := h.up
      have hne : RBTree.join d.flip c t a o ≠ .nil := RBTree.join_ne_nil _ _ _ _ _
      have hpar := hup.parent hne
      rw [rootPtr_join] at hpar
      rw [if_neg (fun e => h.root_ne_other ht (e.symm.trans hother)), hpar,
        RBPath.beyond_cons_flip]
      have hk : k.length < n := by simpa using hf
      have hrec := ih hup hne hk
      rwa [rootPtr_join] at hrec

/-- INTERNAL: the neighbour of a node, below it or above it. -/
theorem neighbour_focus {c : Color} {s o : RBTree Ptr} (h : Focus m k (RBTree.join d c s p o))
    (ho : o.height ≤ fuel) (hk : k.length < fuel) : mRbtNeighbour m d fuel p =
      .ok ((d.order o.toList ++ RBPath.beyond d k).headD NULL) := by
  have hne : RBTree.join d c s p o ≠ .nil := RBTree.join_ne_nil _ _ _ _ _
  have hpo : ∀ q ∈ o.toList, NodePtr q := fun q hq =>
    h.nodePtr q (Or.inl ((RBTree.mem_toList_join ..).mpr (Or.inr (Or.inr hq))))
  have hpar := h.parent hne
  have hnull := h.ne_null hne
  obtain ⟨-, -, hchild, -, hlinks⟩ := links_join.mp h.links
  rw [rootPtr_join] at hpar hnull
  rw [mRbtNeighbour, if_neg hnull, hchild]
  by_cases hnil : o = .nil
  · subst hnil
    have hclimb := climb_spec (d := d) h hne hk
    rw [rootPtr_join] at hclimb
    rw [rootPtr_nil, if_neg (not_not.mpr rfl), hpar, hclimb, RBTree.toList_nil, Side.order_nil,
      List.nil_append]
  · have hord : d.order o.toList ≠ [] := fun e =>
      absurd (rootPtr_mem hnil) (by rw [← (d.order_perm _).mem_iff, e]; exact List.not_mem_nil)
    rw [if_pos (fun e => hnil ((rootPtr_eq_null hpo).mp e)), descend_spec hlinks hpo hnil ho,
      headD_append_of_ne_nil hord]

/-- INTERNAL: **the neighbour of a node** is the next one of the in-order sequence.
SOURCE: m_rbtree.h:376-436 -/
theorem neighbour_spec (h : Represents m T) (hT : d.order T.toList = l ++ p :: rest)
    (hf : T.height ≤ fuel) : mRbtNeighbour m d fuel p = .ok (rest.headD NULL) := by
  have hp : p ∈ T.toList := by
    rw [← (d.order_perm _).mem_iff, hT]
    simp
  have hnd : (l ++ p :: rest).Nodup := hT ▸ (d.order_perm _).nodup_iff.mpr h.nodup
  obtain ⟨k, c, s, o, rfl⟩ : ∃ k c s o, T = RBPath.fill k (RBTree.join d c s p o) := by
    obtain ⟨k, c, s, o, rfl⟩ := RBPath.exists_fill_of_mem hp
    cases d
    · exact ⟨k, c, s, o, rfl⟩
    · exact ⟨k, c, o, s, rfl⟩
  have hheight := RBPath.length_add_height_le k (RBTree.join d c s p o)
  have hjoin := RBTree.height_lt_join d.flip c o p s
  rw [RBTree.join_flip] at hjoin
  -- the two splits of the sequence at `p` are the same
  rw [RBPath.order_fill, RBTree.order_join, List.append_assoc, List.append_assoc,
    List.cons_append, ← List.append_assoc] at hT
  rw [← hT, List.nodup_append, List.nodup_cons] at hnd
  have hsplit := (List.append_cons_inj_of_notMem (fun hm => hnd.2.2 p hm p (by simp) rfl)
    hnd.2.1.1).mp hT
  rw [neighbour_focus (represents_fill.mp h) (by omega) (by omega), hsplit.2.2]

/-- INTERNAL: the outermost node of a tree.
SOURCE: m_rbtree.h:330-368 -/
theorem endNode_spec (h : Represents m T) (hf : T.height ≤ fuel) :
    mRbtEndNode m d fuel = .ok ((d.order T.toList).headD NULL) := by
  rw [mRbtEndNode, h.tree]
  by_cases hnil : T = .nil
  · subst hnil
    rw [rootPtr_nil, if_pos rfl, RBTree.toList_nil, Side.order_nil]
    rfl
  · rw [if_neg (fun e => hnil ((rootPtr_eq_null h.nodePtr).mp e)),
      descend_spec h.links h.nodePtr hnil hf]

/-! ## Loops that leave the tree alone -/

/-- Between two rounds of a loop that leaves the tree alone. -/
def ForeachInv (d : Side) (T : RBTree Ptr) (m : MRBTree) (done rest : List Ptr) (m' : MRBTree)
    (node : Ptr) : Prop :=
  m' = m ∧ node = rest.headD NULL ∧ done ++ rest = d.order T.toList

/-- INTERNAL: the loops with a body that does not touch the tree.
SOURCE: m_rbtree.h:76-77, 177-178 -/
theorem foreachFrom_spec (h : Represents m T) (hf : T.toList.length < fuel) :
    mRbtForeachFrom d fuel m (fun m _ => .ok m) = .ok (m, d.order T.toList) := by
  have hheight : T.height ≤ fuel := (RBTree.height_le_length T).trans hf.le
  have hmem : ∀ q ∈ d.order T.toList, q ≠ NULL := fun q hq =>
    (h.nodePtr q ((d.order_perm _).mem_iff.mp hq)).ne_null
  have hinit : ForeachInv d T m [] (d.order T.toList) m ((d.order T.toList).headD NULL) :=
    ⟨rfl, rfl, rfl⟩
  obtain ⟨m', node, rounds, e, hmap, hm, -⟩ := forLoop_visits
    (fun _ node => .ok (if node = NULL then none else some node)) (fun m _ => .ok m)
    (fun m node => mRbtNeighbour m d fuel node) (ForeachInv d T m) id
    (fun done m' node hinv => by rw [hinv.2.1]; rfl)
    (fun done p rest m' node hinv => by
      obtain ⟨rfl, hnode, hsplit⟩ := hinv
      obtain rfl : p = node := hnode.symm
      have hp : p ≠ NULL := hmem p (by rw [← hsplit]; simp)
      refine ⟨p, m', _, congrArg _ (if_neg hp), rfl, rfl,
        neighbour_spec h hsplit.symm hheight, rfl, rfl, ?_⟩
      rw [List.append_assoc]
      exact hsplit) hinit (n := fuel) (by rwa [(d.order_perm _).length_eq])
  obtain rfl : m' = m := hm
  rw [List.map_id] at hmap
  rw [mRbtForeachFrom, endNode_spec h hheight, Outcome.ok_bind, e, hmap]

/-! ## Loops whose body removes nodes -/

/-- A body that passes some nodes to `m_rbt_remove`. -/
def removing (fuel : ℕ) (rm : Ptr → List Ptr) (m : MRBTree) (node : Ptr) : Outcome MRBTree :=
  (rm node).foldlM (mRbtRemove fuel) m

/-- Every round of a loop that visits `order` removes nodes that were visited by then, and no
node is removed twice. -/
structure RemovesVisited (order : List Ptr) (rm : Ptr → List Ptr) : Prop where
  visited : ∀ l p r, order = l ++ p :: r → ∀ q ∈ rm p, q ∈ l ++ [p]
  once : (order.flatMap rm).Nodup

/-- INTERNAL: several removals in a row. -/
theorem removeAll_spec {ps : List Ptr} (h : Represents m T) (hv : T.Valid) (hnd : ps.Nodup)
    (hps : ∀ p ∈ ps, p ∈ T.toList) (hf : T.toList.length + 3 ≤ fuel) :
    ∃ m' T', ps.foldlM (mRbtRemove fuel) m = .ok m' ∧ Represents m' T' ∧ T'.Valid ∧
      T'.toList = T.toList.filter (· ∉ ps) := by
  induction ps generalizing m T with
  | nil => exact ⟨m, T, rfl, h, hv, by simp⟩
  | cons p ps ih =>
    obtain ⟨hp, hnd⟩ := List.nodup_cons.mp hnd
    obtain ⟨m₁, T₁, e₁, h₁, hv₁, hT₁⟩ := mRbtRemove_spec h hv (hps p (by simp)) hf
    have hsub : ∀ q ∈ ps, q ∈ T₁.toList := fun q hq => by
      rw [hT₁, h.nodup.mem_erase_iff]
      exact ⟨fun e => hp (e ▸ hq), hps q (by simp [hq])⟩
    have hlen : T₁.toList.length + 3 ≤ fuel := by
      have := hT₁ ▸ List.length_erase_le (a := p) (l := T.toList)
      omega
    obtain ⟨m₂, T₂, e₂, h₂, hv₂, hT₂⟩ := ih h₁ hv₁ hnd hsub hlen
    refine ⟨m₂, T₂, ?_, h₂, hv₂, ?_⟩
    · rw [List.foldlM_cons, e₁]
      exact e₂
    · rw [hT₂, hT₁, h.nodup.erase_eq_filter, List.filter_filter]
      refine List.filter_congr fun q _ => ?_
      simp [Bool.and_comm, bne, beq_eq_decide]

/-- INTERNAL: what has been removed was visited. -/
theorem RemovesVisited.mem_done {rm : Ptr → List Ptr} {order : List Ptr}
    (h : RemovesVisited order rm) (hsplit : done ++ rest = order)
    (hq : q ∈ done.flatMap rm) : q ∈ done := by
  obtain ⟨p, hp, hqp⟩ := List.mem_flatMap.mp hq
  obtain ⟨l, r, rfl⟩ := List.append_of_mem hp
  have hvis := h.visited l p (r ++ rest) (by rw [← hsplit]; simp) q hqp
  simp only [List.mem_append, List.mem_cons, List.not_mem_nil, or_false] at hvis ⊢
  tauto

/-- The tree between two rounds: the visited nodes that were not removed, then those to come,
the first of which the loop has saved. -/
def SafeInv (d : Side) (order : List Ptr) (rm : Ptr → List Ptr) (done rest : List Ptr)
    (m : MRBTree) (node : Ptr) : Prop :=
  done ++ rest = order ∧ node = rest.headD NULL ∧ ∃ T : RBTree Ptr, Represents m T ∧ T.Valid ∧
    d.order T.toList = (done ++ rest).filter (· ∉ done.flatMap rm)

/-- INTERNAL: a round of a safe loop: the neighbour is read, nodes are removed, and the saved
neighbour is the next node still.
SOURCE: m_rbtree.h:98-101, 199-202 -/
theorem SafeInv.round {rm : Ptr → List Ptr} {order : List Ptr} (hrm : RemovesVisited order rm)
    (hnd : order.Nodup) (hf : order.length + 3 ≤ fuel) {node : Ptr}
    (h : SafeInv d order rm done (p :: rest) m node) :
    node = p ∧ p ≠ NULL ∧ mRbtNeighbour m d fuel p = .ok (rest.headD NULL) ∧
      ∃ m', removing fuel rm m p = .ok m' ∧
        SafeInv d order rm (done ++ [p]) rest m' (rest.headD NULL) := by
  obtain ⟨hsplit, hnode, T, hT, hv, horder⟩ := h
  obtain rfl : p = node := hnode.symm
  rw [← hsplit] at hnd hf
  have hdisj : ∀ q ∈ p :: rest, q ∉ done.flatMap rm := fun q hq hm =>
    (List.nodup_append.mp hnd).2.2 q (hrm.mem_done hsplit hm) q hq rfl
  -- nothing of what is still to come has been removed
  have hcome : (p :: rest).filter (· ∉ done.flatMap rm) = p :: rest :=
    List.filter_eq_self.mpr fun q hq => by simpa using hdisj q hq
  have hlen : T.toList.length ≤ (done ++ p :: rest).length := by
    rw [← (d.order_perm _).length_eq, horder]
    exact List.length_filter_le ..
  have hmem : ∀ q, q ∈ T.toList ↔ q ∈ done ++ p :: rest ∧ q ∉ done.flatMap rm := fun q => by
    rw [← (d.order_perm _).mem_iff, horder, List.mem_filter, decide_eq_true_iff]
  have hpT : p ∈ T.toList := (hmem p).mpr ⟨by simp, hdisj p (by simp)⟩
  have honce := hrm.once
  rw [← hsplit, List.flatMap_append, List.flatMap_cons, List.nodup_append, List.nodup_append]
    at honce
  have hsub : ∀ q ∈ rm p, q ∈ T.toList := fun q hq => by
    have hvis := hrm.visited done p rest hsplit.symm q hq
    refine (hmem q).mpr ⟨?_, fun hm => honce.2.2 q hm q (by simp [hq]) rfl⟩
    simp only [List.mem_append, List.mem_cons, List.not_mem_nil, or_false] at hvis ⊢
    tauto
  have hfuel : T.toList.length + 3 ≤ fuel := by omega
  obtain ⟨m', T', e, hT', hv', hlist⟩ := removeAll_spec hT hv honce.2.1.1 hsub hfuel
  refine ⟨rfl, (hT.nodePtr p hpT).ne_null, ?_, m', e, ?_, rfl, T', hT', hv', ?_⟩
  · rw [List.filter_append, hcome] at horder
    exact neighbour_spec hT horder ((RBTree.height_le_length T).trans (by omega))
  · rw [List.append_assoc]
    exact hsplit
  · rw [hlist, Side.order_filter, horder, List.filter_filter, List.append_assoc]
    refine List.filter_congr fun q _ => ?_
    simp [and_comm]

/-- INTERNAL: the safe loops, from either side.
SOURCE: m_rbtree.h:98-101, 199-202 -/
theorem foreachSafeFrom_spec {rm : Ptr → List Ptr} (h : Represents m T) (hv : T.Valid)
    (hrm : RemovesVisited (d.order T.toList) rm) (hf : T.toList.length + 3 ≤ fuel) :
    ∃ m' T', mRbtForeachSafeFrom d fuel m (removing fuel rm) = .ok (m', d.order T.toList) ∧
      Represents m' T' ∧ T'.Valid ∧
      T'.toList = T.toList.filter (· ∉ T.toList.flatMap rm) := by
  have hperm := d.order_perm T.toList
  have hnd := hperm.nodup_iff.mpr h.nodup
  have hlen : (d.order T.toList).length + 3 ≤ fuel := by rwa [hperm.length_eq]
  have hinit : SafeInv d (d.order T.toList) rm [] (d.order T.toList) m
    ((d.order T.toList).headD NULL) := ⟨rfl, rfl, T, h, hv, by simp⟩
  obtain ⟨m', rounds, e, hmap, -, -, T', hT', hv', horder⟩ := forLoop_saved
    (fun m node => do
      let nnext ← mRbtNeighbour m d fuel node
      pure (if node = NULL then none else some (node, nnext)))
    (removing fuel rm)
    (fun done rest m => SafeInv d (d.order T.toList) rm done rest m (rest.headD NULL))
    (fun done m hinv => rfl)
    (fun done p rest m hinv => by
      obtain ⟨-, hne, hnext, hbody⟩ := hinv.round hrm hnd hlen
      refine ⟨?_, hbody⟩
      rw [hnext, Outcome.ok_bind, if_neg hne, Outcome.pure_eq_ok]) hinit
    (show (d.order T.toList).length < fuel by omega)
  refine ⟨m', T', ?_, hT', hv', ?_⟩
  · rw [mRbtForeachSafeFrom, endNode_spec h ((RBTree.height_le_length T).trans (by omega)),
      Outcome.ok_bind, e, Outcome.ok_bind, ← hmap]
    rfl
  · rw [List.append_nil, ← Side.order_filter] at horder
    rw [d.order_injective horder]
    refine List.filter_congr fun q _ => ?_
    simp only [List.mem_flatMap, hperm.mem_iff]

/-! ## Traversal -/

/-- INTERNAL: a node is followed by another one exactly when that one is preceded by it. -/
theorem next_iff_prev (h : Represents m T) (hf : T.height ≤ fuel) (hp : p ∈ T.toList)
    (hq : q ∈ T.toList) : mRbtNextNode m fuel p = .ok q ↔ mRbtPrevNode m fuel q = .ok p := by
  have hback : ∀ d p q, p ∈ T.toList → q ∈ T.toList → mRbtNeighbour m d fuel p = .ok q →
      mRbtNeighbour m d.flip fuel q = .ok p := by
    intro d p q hp hq e
    obtain ⟨l, rest, hl⟩ := List.append_of_mem ((d.order_perm _).mem_iff.mpr hp)
    rw [neighbour_spec h hl hf, Except.ok.injEq] at e
    cases rest with
    | nil => exact absurd e.symm (h.nodePtr q hq).ne_null
    | cons a rest =>
      obtain rfl : a = q := e
      have hflip : d.flip.order T.toList = rest.reverse ++ a :: (p :: l.reverse) := by
        rw [Side.order_flip, hl]
        simp
      exact neighbour_spec h hflip hf
  exact ⟨hback .left p q hp hq, hback .right q p hq hp⟩

/-- INTERNAL: the neighbour is missing at the end of the sequence and nowhere else. -/
theorem neighbour_null_iff (h : Represents m T) (hf : T.height ≤ fuel) (hp : p ∈ T.toList) :
    mRbtNeighbour m d fuel p = .ok NULL ↔ ∃ l, d.order T.toList = l ++ [p] := by
  obtain ⟨l, rest, hl⟩ := List.append_of_mem ((d.order_perm _).mem_iff.mpr hp)
  have hmem : ∀ q ∈ d.order T.toList, q ≠ NULL := fun q hq =>
    (h.nodePtr q ((d.order_perm _).mem_iff.mp hq)).ne_null
  constructor
  · intro e
    rw [neighbour_spec h hl hf, Except.ok.injEq] at e
    cases rest with
    | nil => exact ⟨l, hl⟩
    | cons a rest => exact absurd e (hmem a (by rw [hl]; simp))
  · rintro ⟨l', hl'⟩
    exact neighbour_spec h hl' hf

/-- **Tree traversal.** For every valid tree: (a) the loops over all nodes visit each of them
once in ascending key order, and in the reverse order; (b) next and previous node are inverse to
each other and missing exactly at the last and first node; (c) whichever visited nodes the body
passes to `m_rbt_remove`, the safe loops visit every node of the original tree once in the same
orders and leave a valid tree of exactly the nodes that were not removed.
SOURCE: m_rbtree.h:76-101, 177-202, 330-436, 760-843 -/
theorem rbt_traversal (h : Represents m T) (hv : T.Valid) (hs : KeySorted ops T.toList)
    (hf : T.toList.length + 3 ≤ fuel) :
    (∃ nodes, KeySorted ops nodes ∧ nodes.Nodup ∧ (∀ p, p ∈ nodes ↔ p ∈ T.toList) ∧
      mRbtForeach fuel m (fun m _ => .ok m) = .ok (m, nodes) ∧
      mRbtForeachR fuel m (fun m _ => .ok m) = .ok (m, nodes.reverse)) ∧
    (∀ p ∈ T.toList, (∀ q ∈ T.toList,
        mRbtNextNode m fuel p = .ok q ↔ mRbtPrevNode m fuel q = .ok p) ∧
      (mRbtNextNode m fuel p = .ok NULL ↔ ∃ l, T.toList = l ++ [p]) ∧
      (mRbtPrevNode m fuel p = .ok NULL ↔ ∃ l, T.toList = p :: l)) ∧
    (∀ rm, RemovesVisited T.toList rm → ∃ m' T',
      mRbtForeachSafe fuel m (removing fuel rm) = .ok (m', T.toList) ∧ Represents m' T' ∧
      T'.Valid ∧ T'.toList = T.toList.filter (· ∉ T.toList.flatMap rm)) ∧
    (∀ rm, RemovesVisited T.toList.reverse rm → ∃ m' T',
      mRbtForeachSafeR fuel m (removing fuel rm) = .ok (m', T.toList.reverse) ∧
      Represents m' T' ∧ T'.Valid ∧ T'.toList = T.toList.filter (· ∉ T.toList.flatMap rm)) := by
  have hlen : T.toList.length < fuel := by omega
  have hheight : T.height ≤ fuel := (RBTree.height_le_length T).trans hlen.le
  refine ⟨⟨T.toList, hs, h.nodup, fun p => Iff.rfl, foreachFrom_spec (d := .left) h hlen,
    foreachFrom_spec (d := .right) h hlen⟩, ?_, ?_, ?_⟩
  · intro p hp
    refine ⟨fun q hq => next_iff_prev h hheight hp hq,
      neighbour_null_iff (d := .left) h hheight hp, ?_⟩
    refine (neighbour_null_iff (d := .right) h hheight hp).trans ?_
    constructor
    · rintro ⟨l, hl⟩
      exact ⟨l.reverse, List.reverse_eq_append_iff.mp hl⟩
    · rintro ⟨l, hl⟩
      exact ⟨l.reverse, by rw [Side.order_right, hl, List.reverse_cons]⟩
  · exact fun rm hrm => foreachSafeFrom_spec (d := .left) h hv hrm hf
  · exact fun rm hrm => foreachSafeFrom_spec (d := .right) h hv hrm hf

/-- The nodes that a body removes: the root at its own round, together with the node before it, and
the last node. -/
def removedAt (p : Ptr) : List Ptr := if p = 16 then [16, 8] else if p = 48 then [48] else []

/-- A loop over four nodes whose body removes three of them. -/
theorem rbt_traversal_removed : ∃ m' T',
    mRbtForeachSafe 7 fourNodes (removing 7 removedAt) = .ok (m', [8, 16, 32, 48]) ∧
      Represents m' T' ∧ T'.toList = [32] := by
  have hrm : RemovesVisited fourTree.toList removedAt := by
    refine ⟨fun l p r e q hq => ?_, by decide⟩
    have e : [8, 16, 32, 48] = l ++ p :: r := e
    rw [removedAt] at hq
    split_ifs at hq with h₁ h₂
    · subst h₁
      -- 8 was visited first
      cases l with
      | nil => exact absurd (List.cons.inj e).1 (by decide)
      | cons a l =>
        obtain rfl := (List.cons.inj e).1
        have hcases : q = 16 ∨ q = 8 := by simpa using hq
        rcases hcases with rfl | rfl <;> simp
    · subst h₂
      exact List.mem_append_right l hq
    · cases hq
  obtain ⟨m', T', e, hT', -, hlist⟩ := (rbt_traversal fourNodes_represents fourTree_valid
    fourTree_sorted (show 4 + 3 ≤ 7 by decide)).2.2.1 _ hrm
  exact ⟨m', T', e, hT', hlist.trans (by decide)⟩

end Ming.Analysis
