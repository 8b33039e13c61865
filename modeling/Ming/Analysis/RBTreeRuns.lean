import Mathlib.Data.List.Nodup
import Ming.Analysis.RBTreeLookup
import Ming.Analysis.RBTreeInsert
import Ming.Analysis.RBTreeRemove

/-!
# The red-black tree over whole runs

A run starts at `m_rbt_init` and takes lookups followed by insertions, removals, and writes
of the program to anything that is not a node of the tree. Every state of a run represents
a valid, sorted tree; and whatever fuel a step used, it did what the specification of its
function says.
-/

set_option autoImplicit false

namespace Ming.Analysis

open Ming.Foundation Ming.Model Ming.Interface

variable {K : Type} {ops : MRBTreeOps K} {m m' : MRBTree} {S : List Ptr}

/-! ## More fuel -/

/-- INTERNAL: more fuel, in the loop that looks for a position. -/
theorem lookupInsertLoop_approx (key : K) (n : ℕ) (pn : RBPos) (node : Ptr) :
    Outcome.Approx (mRbtLookupInsertLoop m key ops n pn node)
      (mRbtLookupInsertLoop m key ops (n + 1) pn node) := by
  induction n generalizing pn node with
  | zero => exact Outcome.Approx.outOfFuel _
  | succ n ih =>
    rw [mRbtLookupInsertLoop, mRbtLookupInsertLoop]
    exact .ite (.refl _) (.ite (.refl _) (.ite (ih _ _) (ih _ _)))

/-- INTERNAL: more fuel, in the loop of an insertion. -/
theorem insertLoop_approx (n : ℕ) (m : MRBTree) (node : Ptr) :
    Outcome.Approx (mRbtInsertLoop n m node) (mRbtInsertLoop (n + 1) m node) := by
  induction n generalizing m node with
  | zero => exact Outcome.Approx.outOfFuel _
  | succ n ih =>
    rw [mRbtInsertLoop, mRbtInsertLoop]
    refine .ite (.refl _) (.ite (.refl _) (.ite (.refl _) (.ite ?_ (.refl _))))
    exact .bind (.refl _) fun _ => .bind (.refl _) fun _ => .bind (.refl _) fun _ => ih _ _

/-- INTERNAL: more fuel, in the loop of a removal. -/
theorem removeRebalance_approx (n : ℕ) (m : MRBTree) (node : Ptr) :
    Outcome.Approx (mRbtRemoveRebalance n m node) (mRbtRemoveRebalance (n + 1) m node) := by
  induction n generalizing m node with
  | zero => exact Outcome.Approx.outOfFuel _
  | succ n ih =>
    rw [mRbtRemoveRebalance, mRbtRemoveRebalance]
    refine .ite (.refl _) (.ite (.refl _) (.ite ?_ (.ite ?_ (.refl _))))
    · exact .bind (.refl _) fun _ => .bind (.refl _) fun _ => .bind (.refl _) fun _ => ih _ _
    · exact .bind (.refl _) fun _ => ih _ _

/-- INTERNAL: more fuel, in the loop to the largest node. -/
theorem maxLoop_approx (n : ℕ) (node : Ptr) :
    Outcome.Approx (mRbtMaxLoop m n node) (mRbtMaxLoop m (n + 1) node) := by
  induction n generalizing node with
  | zero => exact Outcome.Approx.outOfFuel _
  | succ n ih =>
    rw [mRbtMaxLoop, mRbtMaxLoop]
    exact .ite (ih _) (.refl _)

/-- INTERNAL: more fuel, in an insertion. -/
theorem insert_approx (n : ℕ) (parent : Ptr) (pos : RBPos) (node : Ptr) :
    Outcome.Approx (mRbtInsert n m parent pos node) (mRbtInsert (n + 1) m parent pos node) :=
  .ite (.refl _) (.bind (.refl _) fun _ => .bind (.refl _) fun _ => .bind (.refl _) fun _ =>
    .bind (.refl _) fun _ => insertLoop_approx _ _ _)

/-- INTERNAL: more fuel, in a removal. -/
theorem remove_approx (n : ℕ) (node : Ptr) :
    Outcome.Approx (mRbtRemove n m node) (mRbtRemove (n + 1) m node) := by
  refine .ite (.refl _) (.bind ?_ fun _ => .bind (.ite ?_ (.refl _)) fun _ => .refl _)
  · exact .ite (.bind (maxLoop_approx _ _) fun _ => .refl _) (.refl _)
  · exact removeRebalance_approx _ _ _

/-! ## The three operations on a valid tree -/

/-- A lookup result: the node with the key, or `NULL` when there is none. -/
def Finds (ops : MRBTreeOps K) (l : List Ptr) (key : K) (r : Outcome Ptr) : Prop :=
  (∀ p, p ≠ NULL → (r = .ok p ↔ p ∈ l ∧ ops.getKey p = key)) ∧
    (r = .ok NULL ↔ ∀ p ∈ l, ops.getKey p ≠ key)

/-- INTERNAL: in a sorted tree two nodes do not share a key. -/
theorem KeySorted.key_injective (hcmp : StrictOrder ops.cmp) {l : List Ptr}
    (h : KeySorted ops l) {p q : Ptr} (hp : p ∈ l) (hq : q ∈ l)
    (hk : ops.getKey p = ops.getKey q) : p = q := by
  have hkeys : (l.map ops.getKey).Nodup := by
    refine List.pairwise_map.mpr (List.Pairwise.imp (fun {a b} hab e => ?_) h)
    rw [e] at hab
    exact hcmp.irrefl _ hab
  exact List.inj_on_of_nodup_map hkeys hp hq hk

/-- INTERNAL: a returned lookup result is the one `Finds` asks for. -/
theorem finds_of_result (hcmp : StrictOrder ops.cmp) {l : List Ptr} (hs : KeySorted ops l)
    (hp : ∀ p ∈ l, NodePtr p) {key : K} {r : Outcome Ptr}
    (h : (∃ p ∈ l, ops.getKey p = key ∧ r = .ok p) ∨
      ((∀ p ∈ l, ops.getKey p ≠ key) ∧ r = .ok NULL)) : Finds ops l key r := by
  rcases h with ⟨p, hpl, rfl, rfl⟩ | ⟨hnone, rfl⟩
  · refine ⟨fun q _ => ⟨?_, fun ⟨hq, hk⟩ => ?_⟩, ⟨fun e => ?_, fun hnone => ?_⟩⟩
    · rintro ⟨⟩
      exact ⟨hpl, rfl⟩
    · rw [KeySorted.key_injective hcmp hs hq hpl hk]
    · exact absurd (Except.ok.inj e) (hp p hpl).ne_null
    · exact absurd rfl (hnone p hpl)
  · refine ⟨fun q hq => ⟨fun e => ?_, fun ⟨hql, hk⟩ => ?_⟩, fun _ => hnone, fun _ => rfl⟩
    · exact absurd (Except.ok.inj e).symm hq
    · exact absurd hk (hnone q hql)

/-- INTERNAL: both lookups on a valid, sorted tree find the node with the key.
SOURCE: m_rbtree.h:473-547 -/
theorem lookup_finds (hcmp : StrictOrder ops.cmp) {T : RBTree Ptr} (h : Represents m T)
    (hs : KeySorted ops T.toList) (key : K) {fuel : ℕ} (hf : T.toList.length < fuel) :
    Finds ops T.toList key (mRbtLookup m key ops fuel) ∧
      Finds ops T.toList key ((mRbtLookupInsert m key ops fuel).map InsertPos.node) := by
  have hheight : T.height < fuel := lt_of_le_of_lt (RBTree.height_le_length T) hf
  have hempty : SplitsAt ops key (RBPath.before ([] : RBPath Ptr)) (RBPath.after []) :=
    ⟨by simp [RBPath.before], by simp [RBPath.after]⟩
  refine ⟨finds_of_result hcmp hs h.nodePtr ?_, finds_of_result hcmp hs h.nodePtr ?_⟩
  · unfold mRbtLookup
    rw [h.tree]
    exact lookupLoop_spec hcmp h.links h.nodePtr hs hheight
  · have hfo : Focus m [] T := represents_fill.mp h
    rcases lookupInsertLoop_spec hcmp hfo hs hempty hheight with
      ⟨p, pos, hp, hk, e⟩ | ⟨k, hk, hsplit, e⟩
    · have e' : mRbtLookupInsert m key ops fuel = .ok ⟨p, p, pos⟩ := e
      exact Or.inl ⟨p, hp, hk, by rw [e']; rfl⟩
    · have e' : mRbtLookupInsert m key ops fuel = .ok ⟨NULL, holeParent k, holePos k⟩ := e
      refine Or.inr ⟨fun p hp => hsplit.key_ne hcmp ?_, by rw [e']; rfl⟩
      have hT : RBPath.fill k .nil = T := hk
      rw [← hT, RBPath.toList_fill] at hp
      simpa using hp

/-- INTERNAL: inserting a node whose key is absent at the returned position.
SOURCE: m_rbtree.h:511-547, 612-675 -/
theorem insert_absent (hcmp : StrictOrder ops.cmp) {T : RBTree Ptr} (h : Represents m T)
    (hv : T.Valid) (hs : KeySorted ops T.toList) {node : Ptr} (hn : NodePtr node)
    (habs : ∀ p ∈ T.toList, ops.getKey p ≠ ops.getKey node) {fuel : ℕ}
    (hf : T.toList.length < fuel) :
    ∃ parent pos m' T' l r,
      mRbtLookupInsert m (ops.getKey node) ops fuel = .ok ⟨NULL, parent, pos⟩ ∧
      mRbtInsert fuel m parent pos node = .ok m' ∧ Represents m' T' ∧ T'.Valid ∧
      T.toList = l ++ r ∧ SplitsAt ops (ops.getKey node) l r ∧ T'.toList = l ++ node :: r := by
  have hheight : T.height < fuel := lt_of_le_of_lt (RBTree.height_le_length T) hf
  have hempty : SplitsAt ops (ops.getKey node) (RBPath.before ([] : RBPath Ptr))
    (RBPath.after []) := ⟨by simp [RBPath.before], by simp [RBPath.after]⟩
  have hfo : Focus m [] T := represents_fill.mp h
  rcases lookupInsertLoop_spec hcmp hfo hs hempty hheight with
    ⟨p, pos, hp, hk, -⟩ | ⟨k, hk, hsplit, e⟩
  · exact absurd hk (habs p hp)
  · obtain rfl : RBPath.fill k .nil = T := hk
    have hfresh : node ∉ RBPath.elems k := fun hm =>
      habs node ((RBPath.mem_fill ..).mpr (Or.inr hm)) rfl
    have hlen : k.length < fuel := by
      have h1 := RBPath.length_le_elems k
      rw [(RBPath.perm_fill k _).length_eq, List.length_append] at hf
      omega
    obtain ⟨m', T', e', hT', hV', hL'⟩ := mRbtInsert_spec (represents_fill.mp h) hv hn hfresh hlen
    exact ⟨_, _, m', T', _, _, e, e', hT', hV', by simp [RBPath.toList_fill], hsplit, hL'⟩

/-- The comparison of integer keys. -/
def intCmp (a b : ℤ) : ℤ := a - b

/-- INTERNAL: the order of integers. -/
theorem intCmp_strict : StrictOrder intCmp :=
  ⟨fun a b => by unfold intCmp; omega, fun a b => by unfold intCmp; omega,
    fun a b c => by unfold intCmp; omega⟩

/-- Nodes that are their own keys. -/
def addrKey (p : Ptr) : ℤ := p.toNat

/-- The tree operations on integer keys. -/
def addrOps : MRBTreeOps ℤ := ⟨addrKey, intCmp⟩

/-- INTERNAL: an address of a node. -/
theorem nodePtr_eight : NodePtr 8 := ⟨by decide, by unfold Aligned; decide⟩

/-- INTERNAL: an address of a node. -/
theorem nodePtr_sixteen : NodePtr 16 := ⟨by decide, by unfold Aligned; decide⟩

/-- **The content of the tree.** For every valid tree with a strict total order: (a) both
lookups return the node with the key exactly when there is one; (b) a node whose key is
absent is inserted at its sorted place and nowhere else; (c) a removal deletes exactly the
node it is given from the in-order sequence.
SOURCE: m_rbtree.h:473-547, 612-675, 760-843 -/
theorem rbt_content (hcmp : StrictOrder ops.cmp) {T : RBTree Ptr} (h : Represents m T)
    (hv : T.Valid) (hs : KeySorted ops T.toList) {fuel : ℕ} (hf : T.toList.length + 3 ≤ fuel) :
    (∀ key, Finds ops T.toList key (mRbtLookup m key ops fuel) ∧
      Finds ops T.toList key ((mRbtLookupInsert m key ops fuel).map InsertPos.node)) ∧
    (∀ node, NodePtr node → (∀ p ∈ T.toList, ops.getKey p ≠ ops.getKey node) →
      ∃ parent pos m' T' l r,
        mRbtLookupInsert m (ops.getKey node) ops fuel = .ok ⟨NULL, parent, pos⟩ ∧
        mRbtInsert fuel m parent pos node = .ok m' ∧ Represents m' T' ∧ T'.Valid ∧
        T.toList = l ++ r ∧ SplitsAt ops (ops.getKey node) l r ∧ T'.toList = l ++ node :: r) ∧
    (∀ node ∈ T.toList, ∃ m' T', mRbtRemove fuel m node = .ok m' ∧ Represents m' T' ∧
      T'.Valid ∧ T'.toList = T.toList.erase node) :=
  ⟨fun key => lookup_finds hcmp h hs key (by omega),
    fun _ hn habs => insert_absent hcmp h hv hs hn habs (by omega),
    fun _ hn => mRbtRemove_spec h hv hn hf⟩

/-- Four nodes: 16 above 8 and 32, and 48 below 32. -/
def fourNodes : MRBTree :=
  ⟨16, fun p => if p = 16 then ⟨1, 8, 32⟩ else if p = 32 then ⟨17, 0, 48⟩
    else if p = 48 then ⟨32, 0, 0⟩ else ⟨17, 0, 0⟩⟩

/-- The tree that they form. -/
def fourTree : RBTree Ptr :=
  .node .black (.node .black .nil 8 .nil) 16 (.node .black .nil 32 (.node .red .nil 48 .nil))

/-- INTERNAL: the nodes form this tree. -/
theorem fourNodes_represents : Represents fourNodes fourTree := by
  refine ⟨rfl, ⟨rfl, rfl, rfl, ⟨rfl, rfl, rfl, trivial, trivial⟩, rfl, rfl, rfl, trivial, rfl,
    rfl, rfl, trivial, trivial⟩, by decide, fun p hp => ?_⟩
  have hcases : p = 8 ∨ p = 16 ∨ p = 32 ∨ p = 48 := by simpa [fourTree] using hp
  rcases hcases with rfl | rfl | rfl | rfl <;> exact ⟨by decide, by unfold Aligned; decide⟩

/-- INTERNAL: it is a red-black tree. -/
theorem fourTree_valid : fourTree.Valid :=
  ⟨rfl, by simp [fourTree, RBTree.NoRedRed], 2, 1, ⟨0, rfl, rfl, rfl⟩,
    ⟨0, rfl, ⟨0, rfl, rfl, rfl⟩, rfl⟩, rfl⟩

/-- INTERNAL: its nodes are sorted by their addresses. -/
theorem fourTree_sorted : KeySorted addrOps fourTree.toList := by
  have hsorted : fourTree.toList.Pairwise fun p q : Ptr => intCmp (addrKey p) (addrKey q) < 0 := by
    decide
  exact hsorted

/-- A lookup in a tree of four nodes, an insertion that rotates at 32, and a removal of the root,
which has two children and whose predecessor takes its place after a rotation. -/
theorem rbt_content_rotated :
    mRbtLookup fourNodes 32 addrOps 7 = .ok 32 ∧
    (∃ m' T', mRbtInsert 7 fourNodes 48 (.right 48) 56 = .ok m' ∧ (m'.node 16).right = 48 ∧
      Represents m' T' ∧ T'.toList.Perm [56, 8, 16, 32, 48]) ∧
    ∃ m' T', mRbtRemove 7 fourNodes 16 = .ok m' ∧ m'.tree = 32 ∧ Represents m' T' ∧
      T'.toList = [8, 32, 48] := by
  have hcmp : StrictOrder addrOps.cmp := intCmp_strict
  obtain ⟨hfind, hinsert, hremove⟩ := rbt_content hcmp fourNodes_represents fourTree_valid
    fourTree_sorted (show 4 + 3 ≤ 7 by decide)
  refine ⟨?_, ?_, ?_⟩
  · exact ((hfind 32).1.1 32 (by decide)).mpr ⟨by decide, by decide⟩
  · obtain ⟨parent, pos, m', T', l, r, el, e, hT', -, hsplit, -, hL⟩ :=
      hinsert 56 ⟨by decide, by unfold Aligned; decide⟩ (by simp [fourTree, addrOps, addrKey])
    have hplace : mRbtLookupInsert fourNodes (addrOps.getKey 56) addrOps 7 =
      .ok ⟨NULL, 48, .right 48⟩ := rfl
    obtain ⟨-, rfl, rfl⟩ := InsertPos.mk.inj (Except.ok.inj (hplace.symm.trans el))
    have hright : (mRbtInsert 7 fourNodes 48 (.right 48) 56).check
        (fun m => decide ((m.node 16).right = 48)) = true := by decide +kernel
    rw [e] at hright
    refine ⟨m', T', e, of_decide_eq_true hright, hT', ?_⟩
    have hlist : l ++ r = [8, 16, 32, 48] := hsplit.symm
    rw [hL, ← hlist]
    exact List.perm_middle
  · obtain ⟨m', T', e, hT', -, hL⟩ := hremove 16 (by decide)
    have hroot : (mRbtRemove 7 fourNodes 16).check (fun m => decide (m.tree = 32)) = true := by
      decide +kernel
    rw [e] at hroot
    exact ⟨m', T', e, of_decide_eq_true hroot, hT', hL⟩

/-! ## Runs -/

/-- The runs of a program that uses a tree: memory, keys of the node records, and the nodes
that are in the tree. -/
inductive RBRun (cmp : K → K → ℤ) : MRBTree → (Ptr → K) → List Ptr → Prop
  | init (m : MRBTree) (getKey : Ptr → K) : RBRun cmp (mRbtInit m) getKey []
  | insert {m m' : MRBTree} {getKey : Ptr → K} {S : List Ptr} {node parent : Ptr} {pos : RBPos}
      {n n' : ℕ} : RBRun cmp m getKey S → NodePtr node →
      mRbtLookupInsert m (getKey node) ⟨getKey, cmp⟩ n = .ok ⟨NULL, parent, pos⟩ →
      mRbtInsert n' m parent pos node = .ok m' → RBRun cmp m' getKey (node :: S)
  | remove {m m' : MRBTree} {getKey : Ptr → K} {S : List Ptr} {node : Ptr} {n : ℕ} :
      RBRun cmp m getKey S → node ∈ S → mRbtRemove n m node = .ok m' →
      RBRun cmp m' getKey (S.erase node)
  | other {m m' : MRBTree} {getKey getKey' : Ptr → K} {S : List Ptr} : RBRun cmp m getKey S →
      m'.tree = m.tree → (∀ p ∈ S, m'.node p = m.node p ∧ getKey' p = getKey p) →
      RBRun cmp m' getKey' S

/-- The invariant of a run: the memory holds a valid, sorted tree of exactly the nodes that
are in it. -/
def RBInv (ops : MRBTreeOps K) (m : MRBTree) (S : List Ptr) (T : RBTree Ptr) : Prop :=
  Represents m T ∧ T.Valid ∧ KeySorted ops T.toList ∧ T.toList.Perm S

/-- INTERNAL: writes outside the nodes of the tree keep the invariant. -/
theorem RBInv.other {ops' : MRBTreeOps K} {T : RBTree Ptr} (h : RBInv ops m S T)
    (hc : ops'.cmp = ops.cmp) (htree : m'.tree = m.tree)
    (hn : ∀ p ∈ S, m'.node p = m.node p ∧ ops'.getKey p = ops.getKey p) :
    RBInv ops' m' S T := by
  obtain ⟨hr, hv, hs, hp⟩ := h
  refine ⟨⟨htree.trans hr.tree, ?_, hr.nodup, hr.nodePtr⟩, hv, ?_, hp⟩
  · exact hr.links.congr fun p hpT => (hn p (hp.mem_iff.mp hpT)).1
  · exact hs.congr hc fun p hpT => (hn p (hp.mem_iff.mp hpT)).2

/-- INTERNAL: the lookup before an insertion returns. -/
theorem RBInv.lookupInsert_ok (hcmp : StrictOrder ops.cmp) {T : RBTree Ptr}
    (h : RBInv ops m S T) (key : K) :
    ∃ r, mRbtLookupInsert m key ops (S.length + 1) = .ok r := by
  obtain ⟨hr, -, hs, hp⟩ := h
  have hf : T.toList.length < S.length + 1 := by rw [hp.length_eq]; omega
  have hfind := (lookup_finds hcmp hr hs key hf).2.2
  cases e : mRbtLookupInsert m key ops (S.length + 1) with
  | ok r => exact ⟨r, rfl⟩
  | error f =>
    -- a fault would be neither the node with the key nor `NULL`
    rw [e] at hfind
    have hsome : ∃ p ∈ T.toList, ops.getKey p = key := by
      by_contra hnone
      push Not at hnone
      exact nomatch (show (Except.error f : Outcome Ptr) = .ok NULL from hfind.mpr hnone)
    obtain ⟨p, hpT, hk⟩ := hsome
    have hfound := ((lookup_finds hcmp hr hs key hf).2.1 p (hr.nodePtr p hpT).ne_null).mpr ⟨hpT, hk⟩
    rw [e] at hfound
    exact nomatch (show (Except.error f : Outcome Ptr) = .ok p from hfound)

/-- INTERNAL: an insertion at the position that the lookup returned, with fuel enough. -/
theorem RBInv.insert_spec (hcmp : StrictOrder ops.cmp) {T : RBTree Ptr} (h : RBInv ops m S T)
    {node parent : Ptr} {pos : RBPos} {n : ℕ} (hn : NodePtr node)
    (hl : mRbtLookupInsert m (ops.getKey node) ops n = .ok ⟨NULL, parent, pos⟩) {N : ℕ}
    (hnN : n ≤ N) (hlen : T.toList.length < N) :
    ∃ m' T', mRbtInsert N m parent pos node = .ok m' ∧ RBInv ops m' (node :: S) T' := by
  obtain ⟨hr, hv, hs, hp⟩ := h
  have hl' := (Outcome.Approx.of_succ (f := fun n => mRbtLookupInsert m (ops.getKey node) ops n)
    (fun n => lookupInsertLoop_approx _ n _ _) hnN).eq_ok hl
  have habs : ∀ p ∈ T.toList, ops.getKey p ≠ ops.getKey node := by
    refine (lookup_finds hcmp hr hs (ops.getKey node) hlen).2.2.mp ?_
    rw [hl']
    rfl
  obtain ⟨parent', pos', m', T', l, r, el, ei, hT', hV', hlr, hsplit, hL'⟩ :=
    insert_absent hcmp hr hv hs hn habs hlen
  rw [hl'] at el
  obtain ⟨-, rfl, rfl⟩ := InsertPos.mk.inj (Except.ok.inj el)
  rw [hlr] at hs hp
  refine ⟨m', T', ei, hT', hV', ?_, ?_⟩
  · rw [hL']
    exact hs.insert hcmp hsplit
  · rw [hL']
    exact List.perm_middle.trans (hp.cons node)

/-- INTERNAL: an insertion at the position that the lookup returned keeps the invariant. -/
theorem RBInv.insert (hcmp : StrictOrder ops.cmp) {T : RBTree Ptr} (h : RBInv ops m S T)
    {node parent : Ptr} {pos : RBPos} {n n' : ℕ} (hn : NodePtr node)
    (hl : mRbtLookupInsert m (ops.getKey node) ops n = .ok ⟨NULL, parent, pos⟩)
    (hi : mRbtInsert n' m parent pos node = .ok m') :
    ∃ T', RBInv ops m' (node :: S) T' := by
  -- enough fuel for both steps
  set N := max (max n n') (T.toList.length + 1) with hN
  obtain ⟨m₂, T', ei, hT'⟩ :=
    h.insert_spec hcmp hn hl (show n ≤ N by omega) (show T.toList.length < N by omega)
  have hi' := (Outcome.Approx.of_succ (f := fun n => mRbtInsert n m parent pos node)
    (fun n => insert_approx n _ _ _) (show n' ≤ N by omega)).eq_ok hi
  rw [hi'] at ei
  obtain rfl := Except.ok.inj ei
  exact ⟨T', hT'⟩

/-- INTERNAL: a removal of a node of the tree keeps the invariant. -/
theorem RBInv.remove {T : RBTree Ptr} (h : RBInv ops m S T) {node : Ptr} {n : ℕ}
    (hn : node ∈ S) (hrm : mRbtRemove n m node = .ok m') :
    ∃ T', RBInv ops m' (S.erase node) T' := by
  obtain ⟨hr, hv, hs, hp⟩ := h
  have hrm' := (Outcome.Approx.of_succ (f := fun n => mRbtRemove n m node)
    (fun n => remove_approx n _) (le_max_left n (T.toList.length + 3))).eq_ok hrm
  obtain ⟨m₂, T', e, hT', hV', hL'⟩ :=
    mRbtRemove_spec hr hv (hp.mem_iff.mpr hn) (le_max_right n (T.toList.length + 3))
  rw [hrm'] at e
  obtain rfl := Except.ok.inj e
  refine ⟨T', hT', hV', ?_, ?_⟩
  · rw [hL']
    exact hs.sublist List.erase_sublist
  · rw [hL']
    exact hp.erase node

/-- INTERNAL: every state of a run has the invariant. -/
theorem rbRun_inv {cmp : K → K → ℤ} (hcmp : StrictOrder cmp) {getKey : Ptr → K}
    (h : RBRun cmp m getKey S) : ∃ T, RBInv ⟨getKey, cmp⟩ m S T := by
  induction h with
  | init m getKey =>
    exact ⟨.nil, ⟨rfl, trivial, by simp, by simp⟩, RBTree.valid_nil, List.Pairwise.nil, .refl _⟩
  | insert _ hn hl hi ih =>
    obtain ⟨T, hT⟩ := ih
    exact hT.insert hcmp hn hl hi
  | remove _ hn hrm ih =>
    obtain ⟨T, hT⟩ := ih
    exact hT.remove hn hrm
  | other _ htree hn ih =>
    obtain ⟨T, hT⟩ := ih
    exact ⟨T, hT.other rfl htree hn⟩

/-- **The red-black invariant over whole runs.** Every tree a run reaches has a black root,
no red node with a red child, and equally many black nodes on every path down; each parent
pointer is the inverse of the child link that leads to its node, the height is
logarithmic, and every further operation returns.
SOURCE: m_rbtree.h:550-843 -/
theorem rbt_run_balanced {cmp : K → K → ℤ} (hcmp : StrictOrder cmp) {getKey : Ptr → K}
    (h : RBRun cmp m getKey S) :
    (∃ T : RBTree Ptr, Represents m T ∧ T.toList.Perm S ∧ T.rootColor = .black ∧ T.NoRedRed ∧
      (∃ b, T.BlackHeight b) ∧ T.height ≤ 2 * Nat.log 2 (S.length + 1)) ∧
    (m.tree ≠ NULL → mRbtParent m m.tree = NULL) ∧
    (∀ p ∈ S, ∀ d, m.child d p ≠ NULL → mRbtParent m (m.child d p) = p) ∧
    (∀ key, ∃ r, mRbtLookupInsert m key ⟨getKey, cmp⟩ (S.length + 1) = .ok r) ∧
    (∀ node n parent pos, NodePtr node →
      mRbtLookupInsert m (getKey node) ⟨getKey, cmp⟩ n = .ok ⟨NULL, parent, pos⟩ →
      ∃ n' m', mRbtInsert n' m parent pos node = .ok m') ∧
    (∀ node ∈ S, ∃ m', mRbtRemove (S.length + 3) m node = .ok m') := by
  obtain ⟨T, hinv⟩ := rbRun_inv hcmp h
  obtain ⟨hr, hv, -, hp⟩ := id hinv
  have hlen := hp.length_eq
  refine ⟨⟨T, hr, hp, hv.rootBlack, hv.noRedRed, hv.balanced, ?_⟩, hr.parent_root, ?_, ?_, ?_, ?_⟩
  · rw [← hlen]
    exact hv.height_le_log
  · exact fun p hpS d => hr.parent_child (hp.mem_iff.mpr hpS) d
  · exact fun key => hinv.lookupInsert_ok hcmp key
  · intro node n parent pos hn hl
    obtain ⟨m₂, -, e, -⟩ := hinv.insert_spec hcmp hn hl (le_max_left n (T.toList.length + 1))
      (lt_of_lt_of_le (Nat.lt_succ_self _) (le_max_right n _))
    exact ⟨_, m₂, e⟩
  · intro node hn
    obtain ⟨m₂, -, e, -⟩ := mRbtRemove_spec hr hv (hp.mem_iff.mpr hn) (by rw [hlen])
    exact ⟨m₂, e⟩

/-- A run that inserts two nodes. -/
theorem rbt_run_balanced_two :
    ∃ m : MRBTree, RBRun intCmp m addrKey [16, 8] ∧
      ∃ T, Represents m T ∧ T.NoRedRed ∧ T.height ≤ 2 * Nat.log 2 3 := by
  obtain ⟨m, h⟩ : ∃ m, RBRun intCmp m addrKey [16, 8] :=
    ⟨_, .insert (n := 3) (.insert (n := 3) (.init ⟨NULL, fun _ => ⟨0, 0, 0⟩⟩ _)
      nodePtr_eight rfl (show mRbtInsert 3 _ NULL .tree 8 = .ok _ from rfl)) nodePtr_sixteen rfl
      (show mRbtInsert 3 _ 8 (.right 8) 16 = .ok _ from rfl)⟩
  obtain ⟨⟨T, hr, -, -, hc, -, hh⟩, -⟩ := rbt_run_balanced intCmp_strict h
  exact ⟨m, h, T, hr, hc, hh⟩

end Ming.Analysis
