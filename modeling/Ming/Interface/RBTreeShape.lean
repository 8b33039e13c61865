import Ming.Model.RBTree

/-!
# What the memory of a red-black tree represents

`Represents m t` relates the words in memory to an abstract tree of node addresses: every
record holds its parent and colour packed in `pcolor` and the roots of its two subtrees,
the parent of the root is `NULL`, and no address occurs twice. The same relation is given
for a path around a hole, and every primitive store of the model gets one lemma that says
what it does to the represented tree and which records it leaves alone.
-/

set_option autoImplicit false

namespace Ming.Interface

open Ming.Foundation Ming.Model

/-! ## The packed word -/

/-- The colour bit of a node record. -/
def colorBit : Color → UIntPtr
  | .red => M_RB_RED
  | .black => M_RB_BLACK

/-- INTERNAL: the bit of a red node. -/
@[simp] theorem colorBit_red : colorBit .red = 0 := rfl

/-- INTERNAL: the bit of a black node. -/
@[simp] theorem colorBit_black : colorBit .black = 1 := rfl

/-- INTERNAL: the bit that is set is that of a black node. -/
@[simp] theorem colorBit_eq_black (c : Color) : colorBit c = 1 ↔ c = .black := by
  cases c <;> simp

/-- INTERNAL: the bit that is clear is that of a red node. -/
@[simp] theorem colorBit_eq_red (c : Color) : colorBit c = 0 ↔ c = .red := by
  cases c <;> simp

/-- An address whose lowest bit is free for the colour. -/
def Aligned (p : Ptr) : Prop := p &&& M_RB_FL_BLACK = 0

/-- The address of a node record: not `NULL`, and aligned. -/
structure NodePtr (p : Ptr) : Prop where
  ne_null : p ≠ NULL
  aligned : Aligned p

/-- INTERNAL: the null address is aligned. -/
theorem aligned_null : Aligned NULL := by unfold Aligned; decide

/-- INTERNAL: the lowest bit of an aligned address is clear. -/
theorem Aligned.getLsbD_zero {p : Ptr} (h : Aligned p) : p.getLsbD 0 = false := by
  have := congrArg (fun w => BitVec.getLsbD w 0) h
  simpa using this

/-- INTERNAL: the parent is read back from the packed word. -/
theorem packed_parent {p : Ptr} (h : Aligned p) (c : Color) :
    (p ||| colorBit c) &&& ~~~M_RB_FL_BLACK = p := by
  have h0 := h.getLsbD_zero
  ext i hi
  simp only [BitVec.ofNat_eq_ofNat, BitVec.getElem_and, BitVec.getElem_or, BitVec.getElem_not,
    BitVec.getElem_one]
  rcases i with _ | i
  · simpa using h0.symm
  · cases c <;> simp [BitVec.getElem_one]

/-- INTERNAL: the colour is read back from the packed word. -/
theorem packed_color {p : Ptr} (h : Aligned p) (c : Color) :
    (p ||| colorBit c) &&& M_RB_FL_BLACK = colorBit c := by
  have h0 := h.getLsbD_zero
  ext i hi
  rcases i with _ | i
  · cases c <;> simp_all
  · cases c <;> simp [BitVec.getElem_one]

/-- INTERNAL: setting the colour bit. -/
theorem packed_or_black (p : Ptr) (c : Color) :
    (p ||| colorBit c) ||| M_RB_FL_BLACK = p ||| colorBit .black := by
  ext i hi
  rcases i with _ | i
  · cases c <;> simp
  · cases c <;> simp [BitVec.getElem_one]

/-- INTERNAL: a packed word is made red.
SOURCE: m_rbtree.h:289-296 -/
theorem packed_and_red {p : Ptr} (h : Aligned p) (c : Color) :
    (p ||| colorBit c) &&& ~~~M_RB_FL_BLACK = p ||| colorBit .red := by
  rw [packed_parent h]
  simp

/-- INTERNAL: a packed word gets another parent.
SOURCE: m_rbtree.h:298-303 -/
theorem packed_set_parent {p : Ptr} (h : Aligned p) (c : Color) (q : Ptr) :
    ((p ||| colorBit c) &&& M_RB_FL_BLACK) ||| q = q ||| colorBit c := by
  rw [packed_color h, BitVec.or_comm]

/-! ## Stores -/

section Stores

variable {m : MRBTree} {p q : Ptr}

/-- The memory after a store into the record of `p`. -/
def put (m : MRBTree) (p : Ptr) (f : MRBNode → MRBNode) : MRBTree :=
  { m with node := Function.update m.node p (f (m.node p)) }

/-- INTERNAL: a store into a node that is not null. -/
theorem store_eq_put (hp : p ≠ NULL) (f : MRBNode → MRBNode) :
    m.store p f = .ok (put m p f) := if_neg hp

/-- INTERNAL: a store into a node keeps the root pointer. -/
@[simp] theorem put_tree (f : MRBNode → MRBNode) : (put m p f).tree = m.tree := rfl

/-- INTERNAL: the node that was stored into. -/
@[simp] theorem put_node_self (f : MRBNode → MRBNode) :
    (put m p f).node p = f (m.node p) := by simp [put]

/-- INTERNAL: the other nodes after a store. -/
theorem put_node_of_ne (h : q ≠ p) (f : MRBNode → MRBNode) :
    (put m p f).node q = m.node q := by simp [put, h]

/-- INTERNAL: equal nodes have equal children. -/
theorem child_congr {m' : MRBTree} (h : m'.node p = m.node p) (d : Side) :
    m'.child d p = m.child d p := by cases d <;> simp [MRBTree.child, h]

/-- INTERNAL: storing one child: the other child, the packed word and every other record
stay. -/
theorem setChild_ok (hp : p ≠ NULL) (d : Side) (v : Ptr) :
    ∃ m', m.setChild d p v = .ok m' ∧ m'.tree = m.tree ∧ m'.child d p = v ∧
      m'.child d.flip p = m.child d.flip p ∧ (m'.node p).pcolor = (m.node p).pcolor ∧
      ∀ q, q ≠ p → m'.node q = m.node q := by
  refine ⟨_, store_eq_put hp _, rfl, ?_, ?_, ?_, fun q hq => put_node_of_ne hq _⟩
  all_goals cases d <;> simp [MRBTree.child, Side.flip]

/-- INTERNAL: storing the packed word: the children and every other record stay. -/
theorem storePcolor_ok (hp : p ≠ NULL) (g : UIntPtr → UIntPtr) :
    ∃ m', m.store p (fun n => { n with pcolor := g n.pcolor }) = .ok m' ∧ m'.tree = m.tree ∧
      (∀ d, m'.child d p = m.child d p) ∧ (m'.node p).pcolor = g (m.node p).pcolor ∧
      ∀ q, q ≠ p → m'.node q = m.node q := by
  refine ⟨_, store_eq_put hp _, rfl, ?_, ?_, fun q hq => put_node_of_ne hq _⟩
  · intro d
    cases d <;> simp [MRBTree.child]
  · simp

end Stores

/-! ## Links of a subtree -/

/-- The address of the root of a tree; an empty tree is `NULL`. -/
def rootPtr : RBTree Ptr → Ptr
  | .nil => NULL
  | .node _ _ p _ => p

/-- INTERNAL: the pointer to an empty tree. -/
@[simp] theorem rootPtr_nil : rootPtr .nil = NULL := rfl

/-- INTERNAL: the pointer to a node. -/
@[simp] theorem rootPtr_node (c : Color) (l : RBTree Ptr) (p : Ptr) (r : RBTree Ptr) :
    rootPtr (.node c l p r) = p := rfl

/-- INTERNAL: the pointer to a joined tree. -/
@[simp] theorem rootPtr_join (d : Side) (c : Color) (s : RBTree Ptr) (p : Ptr)
    (t : RBTree Ptr) : rootPtr (RBTree.join d c s p t) = p := by cases d <;> rfl

/-- INTERNAL: the root is a node of its tree. -/
theorem rootPtr_mem {t : RBTree Ptr} (ht : t ≠ .nil) : rootPtr t ∈ t.toList := by
  cases t with
  | nil => exact absurd rfl ht
  | node => simp [rootPtr]

/-- INTERNAL: among addresses of nodes, a `NULL` root means an empty tree. -/
theorem rootPtr_eq_null {t : RBTree Ptr} (ht : ∀ p ∈ t.toList, NodePtr p) :
    rootPtr t = NULL ↔ t = .nil := by
  constructor
  · intro h
    by_contra hne
    exact (ht _ (rootPtr_mem hne)).ne_null h
  · rintro rfl
    rfl

/-- The records of a subtree below `parent`: packed word and both child pointers. -/
def Links (m : MRBTree) : Ptr → RBTree Ptr → Prop
  | _, .nil => True
  | parent, .node c l p r =>
    (m.node p).pcolor = parent ||| colorBit c ∧ (m.node p).left = rootPtr l ∧
      (m.node p).right = rootPtr r ∧ Links m p l ∧ Links m p r

/-- INTERNAL: the links of a join, by side. -/
theorem links_join {m : MRBTree} {parent : Ptr} {d : Side} {c : Color} {s t : RBTree Ptr}
    {p : Ptr} :
    Links m parent (RBTree.join d c s p t) ↔
      (m.node p).pcolor = parent ||| colorBit c ∧ m.child d p = rootPtr s ∧
        m.child d.flip p = rootPtr t ∧ Links m p s ∧ Links m p t := by
  cases d
  · rfl
  · simp only [RBTree.join, Links, MRBTree.child, Side.flip]
    tauto

/-- INTERNAL: links only look at the records of the tree's own nodes. -/
theorem Links.congr {m m' : MRBTree} {parent : Ptr} {t : RBTree Ptr}
    (h : ∀ p ∈ t.toList, m'.node p = m.node p) (ht : Links m parent t) :
    Links m' parent t := by
  induction t generalizing parent with
  | nil => trivial
  | node c l p r ihl ihr =>
    obtain ⟨h1, h2, h3, h4, h5⟩ := ht
    have hp := h p (by simp)
    exact ⟨by rw [hp, h1], by rw [hp, h2], by rw [hp, h3],
      ihl (fun q hq => h q (by simp [hq])) h4, ihr (fun q hq => h q (by simp [hq])) h5⟩

/-- INTERNAL: hanging a represented subtree below a new parent. -/
theorem Links.reparent {m m' : MRBTree} {parent parent' : Ptr} {t : RBTree Ptr}
    (hnd : t.toList.Nodup) (h : ∀ p ∈ t.toList, p ≠ rootPtr t → m'.node p = m.node p)
    (hc : t ≠ .nil → ∀ d, m'.child d (rootPtr t) = m.child d (rootPtr t))
    (hp : t ≠ .nil → (m'.node (rootPtr t)).pcolor = parent' ||| colorBit t.rootColor)
    (ht : Links m parent t) : Links m' parent' t := by
  cases t with
  | nil => trivial
  | node c l p r =>
    obtain ⟨-, h2, h3, h4, h5⟩ := ht
    have hcl := hc nofun .left
    have hcr := hc nofun .right
    simp only [RBTree.toList_node, List.nodup_append, List.nodup_cons, List.mem_cons] at hnd
    refine ⟨hp nofun, hcl.trans h2, hcr.trans h3, h4.congr fun q hq => ?_, h5.congr fun q hq => ?_⟩
    · exact h q (by simp [hq]) (hnd.2.2 q hq p (Or.inl rfl))
    · exact h q (by simp [hq]) (fun e => hnd.2.1.1 (by rw [← show q = p from e]; exact hq))

/-! ## Links along a path -/

/-- The parent pointer of a tree that fills the hole. -/
def holeParent : RBPath Ptr → Ptr
  | [] => NULL
  | f :: _ => f.elem

/-- INTERNAL: the root has no parent. -/
@[simp] theorem holeParent_nil : holeParent [] = NULL := rfl

/-- INTERNAL: the parent of a hole. -/
@[simp] theorem holeParent_cons (f : Frame Ptr) (k : RBPath Ptr) :
    holeParent (f :: k) = f.elem := rfl

/-- The records of a path, when `h` is the address that hangs in the hole. -/
def PathLinks (m : MRBTree) : RBPath Ptr → Ptr → Prop
  | [], h => m.tree = h
  | f :: k, h =>
    (m.node f.elem).pcolor = holeParent k ||| colorBit f.color ∧ m.child f.side f.elem = h ∧
      m.child f.side.flip f.elem = rootPtr f.other ∧ Links m f.elem f.other ∧
      PathLinks m k f.elem

/-- INTERNAL: a path only looks at `*tree` and the records of its own nodes. -/
theorem PathLinks.congr {m m' : MRBTree} {k : RBPath Ptr} {h : Ptr} (ht : m'.tree = m.tree)
    (hn : ∀ p ∈ RBPath.elems k, m'.node p = m.node p) (hk : PathLinks m k h) :
    PathLinks m' k h := by
  induction k generalizing h with
  | nil => exact ht.trans hk
  | cons f k ih =>
    obtain ⟨h1, h2, h3, h4, h5⟩ := hk
    have hf := hn f.elem (by simp [RBPath.elems])
    refine ⟨by rw [hf, h1], (child_congr hf _).trans h2, (child_congr hf _).trans h3,
      h4.congr fun q hq => hn q (by simp [RBPath.elems, hq]),
      ih (fun q hq => hn q (by simp [RBPath.elems, hq])) h5⟩

/-! ## Positions -/

/-- The place of the child on one side. -/
def sidePos : Side → Ptr → RBPos
  | .left, p => .left p
  | .right, p => .right p

/-- INTERNAL: the child pointer of a side is loaded. -/
@[simp] theorem load_sidePos (m : MRBTree) (d : Side) (p : Ptr) :
    m.load (sidePos d p) = m.child d p := by cases d <;> rfl

/-- INTERNAL: the child pointer of a side is stored. -/
@[simp] theorem storePos_sidePos (m : MRBTree) (d : Side) (p v : Ptr) :
    m.storePos (sidePos d p) v = m.setChild d p v := by cases d <;> rfl

/-- The place in memory that holds the pointer to the tree in the hole. -/
def holePos : RBPath Ptr → RBPos
  | [] => .tree
  | f :: _ => sidePos f.side f.elem

/-! ## Segments of a path -/

/-- The parent of what hangs below a segment, when `parent` is above it. -/
def segParent (parent : Ptr) : RBPath Ptr → Ptr
  | [] => parent
  | f :: _ => f.elem

/-- The address a segment starts with, when `h` hangs below it. -/
def segRoot : RBPath Ptr → Ptr → Ptr
  | [], h => h
  | f :: k, _ => segRoot k f.elem

/-- The records of a segment of a path that hangs below `parent` and holds `h`. -/
def SegLinks (m : MRBTree) (parent : Ptr) : RBPath Ptr → Ptr → Prop
  | [], _ => True
  | f :: k, h =>
    (m.node f.elem).pcolor = segParent parent k ||| colorBit f.color ∧
      m.child f.side f.elem = h ∧ m.child f.side.flip f.elem = rootPtr f.other ∧
      Links m f.elem f.other ∧ SegLinks m parent k f.elem

/-- INTERNAL: the root pointer of a filled tree. -/
theorem rootPtr_fill (k : RBPath Ptr) (t : RBTree Ptr) :
    rootPtr (RBPath.fill k t) = segRoot k (rootPtr t) := by
  induction k generalizing t with
  | nil => rfl
  | cons f k ih => simp [segRoot, ih]

/-- INTERNAL: a path splits into its lower segment and the path above it. -/
theorem pathLinks_append {m : MRBTree} {k k' : RBPath Ptr} {h : Ptr} :
    PathLinks m (k ++ k') h ↔
      SegLinks m (holeParent k') k h ∧ PathLinks m k' (segRoot k h) := by
  induction k generalizing h with
  | nil => simp [SegLinks, segRoot]
  | cons f k ih =>
    have hp : holeParent (k ++ k') = segParent (holeParent k') k := by cases k <;> rfl
    simp only [List.cons_append, PathLinks, SegLinks, segRoot, ih, hp]
    tauto

/-- INTERNAL: a segment only looks at the records of its own nodes. -/
theorem SegLinks.congr {m m' : MRBTree} {parent : Ptr} {k : RBPath Ptr} {h : Ptr}
    (hn : ∀ p ∈ RBPath.elems k, m'.node p = m.node p) (hk : SegLinks m parent k h) :
    SegLinks m' parent k h := by
  induction k generalizing h with
  | nil => trivial
  | cons f k ih =>
    obtain ⟨h1, h2, h3, h4, h5⟩ := hk
    have hf := hn f.elem (by simp [RBPath.elems])
    refine ⟨by rw [hf, h1], (child_congr hf _).trans h2, (child_congr hf _).trans h3,
      h4.congr fun q hq => hn q (by simp [RBPath.elems, hq]),
      ih (fun q hq => hn q (by simp [RBPath.elems, hq])) h5⟩

/-- INTERNAL: the start of a segment that is not empty is one of its nodes. -/
theorem segRoot_mem (f : Frame Ptr) (k : RBPath Ptr) (h : Ptr) :
    segRoot (f :: k) h ∈ RBPath.elems (f :: k) := by
  induction k generalizing f h with
  | nil => simp [segRoot, RBPath.elems]
  | cons g k ih =>
    have := ih g f.elem
    simp only [segRoot, RBPath.elems, List.mem_append, List.mem_cons] at this ⊢
    tauto

/-- INTERNAL: hanging a segment below a new parent only changes the packed word of the node
it starts with. -/
theorem SegLinks.reparent {m m' : MRBTree} {parent parent' : Ptr} {k : RBPath Ptr} {h : Ptr}
    (hnd : (RBPath.elems k).Nodup)
    (hn : ∀ p ∈ RBPath.elems k, p ≠ segRoot k h → m'.node p = m.node p)
    (hc : k ≠ [] → ∀ d, m'.child d (segRoot k h) = m.child d (segRoot k h))
    (hp : ∀ c, k ≠ [] → (m.node (segRoot k h)).pcolor = parent ||| colorBit c →
      (m'.node (segRoot k h)).pcolor = parent' ||| colorBit c)
    (hk : SegLinks m parent k h) : SegLinks m' parent' k h := by
  induction k generalizing h with
  | nil => trivial
  | cons f k ih =>
    obtain ⟨h1, h2, h3, h4, h5⟩ := hk
    have hnd' := hnd
    simp only [RBPath.elems, List.cons_append, List.nodup_cons, List.mem_append, not_or,
      List.nodup_append] at hnd'
    obtain ⟨⟨hfo, hfk⟩, -, hndk, hok⟩ := hnd'
    cases k with
    | nil =>
      have hroot : segRoot [f] h = f.elem := rfl
      rw [hroot] at hc hp
      refine ⟨hp _ (by simp) h1, (hc (by simp) _).trans h2, (hc (by simp) _).trans h3, ?_, trivial⟩
      refine h4.congr fun q hq => hn q (by simp [RBPath.elems, hq]) ?_
      rw [hroot]
      rintro rfl
      exact hfo hq
    | cons g k =>
      have hroot : segRoot (f :: g :: k) h = segRoot (g :: k) f.elem := rfl
      have hmem := segRoot_mem g k f.elem
      have hf : m'.node f.elem = m.node f.elem := by
        refine hn f.elem (by simp [RBPath.elems]) ?_
        rw [hroot]
        intro e
        exact hfk (by rw [e]; exact hmem)
      refine ⟨by rw [hf, h1]; rfl, (child_congr hf _).trans h2, (child_congr hf _).trans h3, ?_, ?_⟩
      · refine h4.congr fun q hq => hn q (by simp [RBPath.elems, hq]) ?_
        rw [hroot]
        exact hok q hq _ hmem
      · exact ih hndk (fun q hq hne => hn q (List.mem_append_right _ hq) hne)
          (fun _ => hc (by simp)) (fun c _ => hp c (by simp)) h5

/-! ## The represented tree, seen from a hole -/

/-- `m` holds the tree `t`: the root cell, every record, no address twice. -/
structure Represents (m : MRBTree) (t : RBTree Ptr) : Prop where
  tree : m.tree = rootPtr t
  links : Links m NULL t
  nodup : t.toList.Nodup
  nodePtr : ∀ p ∈ t.toList, NodePtr p

/-- `m` holds `RBPath.fill k t`, split at the hole of `k`. -/
structure Focus (m : MRBTree) (k : RBPath Ptr) (t : RBTree Ptr) : Prop where
  links : Links m (holeParent k) t
  path : PathLinks m k (rootPtr t)
  nodup : (t.toList ++ RBPath.elems k).Nodup
  nodePtr : ∀ p, p ∈ t.toList ∨ p ∈ RBPath.elems k → NodePtr p

/-- INTERNAL: the links of a filled tree are those of the subtree and of the path. -/
theorem links_fill {m : MRBTree} {k : RBPath Ptr} {t : RBTree Ptr} :
    (m.tree = rootPtr (RBPath.fill k t) ∧ Links m NULL (RBPath.fill k t)) ↔
      Links m (holeParent k) t ∧ PathLinks m k (rootPtr t) := by
  induction k generalizing t with
  | nil => simp [PathLinks, and_comm]
  | cons f k ih =>
    rw [RBPath.fill_cons, ih, links_join, rootPtr_join]
    simp only [holeParent_cons, PathLinks]
    tauto

/-- INTERNAL: the two views of one memory. -/
theorem represents_fill {m : MRBTree} {k : RBPath Ptr} {t : RBTree Ptr} :
    Represents m (RBPath.fill k t) ↔ Focus m k t := by
  constructor
  · rintro ⟨h1, h2, h3, h4⟩
    obtain ⟨h5, h6⟩ := links_fill.mp ⟨h1, h2⟩
    exact ⟨h5, h6, (RBPath.nodup_fill k t).mp h3,
      fun p hp => h4 p ((RBPath.mem_fill k t p).mpr hp)⟩
  · rintro ⟨h1, h2, h3, h4⟩
    obtain ⟨h5, h6⟩ := links_fill.mpr ⟨h1, h2⟩
    exact ⟨h5, h6, (RBPath.nodup_fill k t).mpr h3,
      fun p hp => h4 p ((RBPath.mem_fill k t p).mp hp)⟩

namespace Focus

variable {m : MRBTree} {k : RBPath Ptr} {t : RBTree Ptr}

/-- INTERNAL: a longer path around a smaller subtree. -/
theorem append_iff (kin : RBPath Ptr) : Focus m (kin ++ k) t ↔ Focus m k (RBPath.fill kin t) := by
  rw [← represents_fill, ← represents_fill, RBPath.fill_append]

/-- INTERNAL: the same tree, seen from the parent. -/
theorem up {f : Frame Ptr} (h : Focus m (f :: k) t) :
    Focus m k (RBTree.join f.side f.color t f.elem f.other) := by
  have hr : Represents m (RBPath.fill (f :: k) t) := represents_fill.mpr h
  rw [RBPath.fill_cons] at hr
  exact represents_fill.mp hr

/-- INTERNAL: moving the focus down into one child. -/
theorem down {f : Frame Ptr} (h : Focus m k (RBTree.join f.side f.color t f.elem f.other)) :
    Focus m (f :: k) t := by
  have hr : Represents m (RBPath.fill k (RBTree.join f.side f.color t f.elem f.other)) :=
    represents_fill.mpr h
  rw [← RBPath.fill_cons] at hr
  exact represents_fill.mp hr

/-- INTERNAL: the parent of the subtree is aligned. -/
theorem aligned_holeParent (h : Focus m k t) : Aligned (holeParent k) := by
  cases k with
  | nil => exact aligned_null
  | cons f k => exact (h.nodePtr _ (Or.inr (by simp [RBPath.elems]))).aligned

/-- INTERNAL: reading the parent of the focused node. -/
theorem parent (h : Focus m k t) (ht : t ≠ .nil) :
    mRbtParent m (rootPtr t) = holeParent k := by
  cases t with
  | nil => exact absurd rfl ht
  | node c l p r =>
    have := h.links.1
    simp only [mRbtParent, rootPtr, this]
    exact packed_parent h.aligned_holeParent c

/-- INTERNAL: reading the colour of the focused tree, empty or not. -/
theorem color (h : Focus m k t) : mRbtColor m (rootPtr t) = colorBit t.rootColor := by
  cases t with
  | nil => simp [mRbtColor]
  | node c l p r =>
    have hp : p ≠ NULL := (h.nodePtr p (Or.inl (by simp))).ne_null
    simp only [mRbtColor, rootPtr, hp, ne_eq, not_false_eq_true, if_true, h.links.1]
    exact packed_color h.aligned_holeParent c

/-- INTERNAL: the root of a subtree is not null. -/
theorem ne_null (h : Focus m k t) (ht : t ≠ .nil) : rootPtr t ≠ NULL :=
  (h.nodePtr _ (Or.inl (rootPtr_mem ht))).ne_null

/-- INTERNAL: the color of the parent. -/
theorem color_parent {f : Frame Ptr} (h : Focus m (f :: k) t) :
    mRbtColor m f.elem = colorBit f.color := by
  simpa using h.up.color

/-- INTERNAL: the parent is not null. -/
theorem elem_ne_null {f : Frame Ptr} (h : Focus m (f :: k) t) : f.elem ≠ NULL :=
  (h.nodePtr _ (Or.inr (by simp [RBPath.elems]))).ne_null

/-- INTERNAL: the two children of the parent. -/
theorem child_parent {f : Frame Ptr} (h : Focus m (f :: k) t) :
    m.child f.side f.elem = rootPtr t ∧ m.child f.side.flip f.elem = rootPtr f.other :=
  ⟨h.path.2.1, h.path.2.2.1⟩

/-- INTERNAL: a focused node is not the root of the subtree beside it. -/
theorem root_ne_other {f : Frame Ptr} (h : Focus m (f :: k) t) (ht : t ≠ .nil) :
    rootPtr t ≠ rootPtr f.other := by
  intro e
  by_cases ho : f.other = .nil
  · exact h.ne_null ht (by rw [e, ho]; rfl)
  · have hnd := h.nodup
    rw [List.nodup_append] at hnd
    exact hnd.2.2 _ (rootPtr_mem ht) _ (by simp [RBPath.elems, rootPtr_mem ho]) e

/-- INTERNAL: the side of the focused node, as the code tests it. -/
theorem left_eq_iff {f : Frame Ptr} (h : Focus m (f :: k) t) (ht : t ≠ .nil) :
    rootPtr t = (m.node f.elem).left ↔ f.side = .left := by
  obtain ⟨h1, h2⟩ := h.child_parent
  have hne := h.root_ne_other ht
  cases hs : f.side with
  | left =>
    rw [hs] at h1
    simpa [MRBTree.child] using h1.symm
  | right =>
    rw [hs] at h2
    have h2' : (m.node f.elem).left = rootPtr f.other := h2
    simpa [h2'] using hne

/-- INTERNAL: the subtree hangs on the right. -/
theorem right_eq_iff {f : Frame Ptr} (h : Focus m (f :: k) t) (ht : t ≠ .nil) :
    rootPtr t = (m.node f.elem).right ↔ f.side = .right := by
  obtain ⟨h1, h2⟩ := h.child_parent
  have hne := h.root_ne_other ht
  cases hs : f.side with
  | right =>
    rw [hs] at h1
    simpa [MRBTree.child] using h1.symm
  | left =>
    rw [hs] at h2
    have h2' : (m.node f.elem).right = rootPtr f.other := h2
    simpa [h2'] using hne

/-- INTERNAL: the side of the other subtree, as the code tests it. -/
theorem other_right_iff {f : Frame Ptr} (h : Focus m (f :: k) t) (ht : t ≠ .nil) :
    rootPtr f.other = (m.node f.elem).right ↔ f.side = .left := by
  obtain ⟨h1, h2⟩ := h.child_parent
  have hne := h.root_ne_other ht
  cases hs : f.side with
  | left =>
    rw [hs] at h2
    simpa [MRBTree.child, Side.flip] using h2.symm
  | right =>
    rw [hs] at h1
    have h1' : (m.node f.elem).right = rootPtr t := h1
    simpa [h1'] using hne.symm

/-- INTERNAL: the sibling hangs on the left. -/
theorem other_left_iff {f : Frame Ptr} (h : Focus m (f :: k) t) (ht : t ≠ .nil) :
    rootPtr f.other = (m.node f.elem).left ↔ f.side = .right := by
  obtain ⟨h1, h2⟩ := h.child_parent
  have hne := h.root_ne_other ht
  cases hs : f.side with
  | right =>
    rw [hs] at h2
    simpa [MRBTree.child, Side.flip] using h2.symm
  | left =>
    rw [hs] at h1
    have h1' : (m.node f.elem).left = rootPtr t := h1
    simpa [h1'] using hne.symm

/-- INTERNAL: the same tree, seen from the sibling. -/
theorem across {f : Frame Ptr} (h : Focus m (f :: k) t) :
    Focus m (⟨f.side.flip, f.color, f.elem, t⟩ :: k) f.other := by
  have hu := h.up
  rw [← RBTree.join_flip] at hu
  exact hu.down (f := ⟨f.side.flip, f.color, f.elem, t⟩)

/-- INTERNAL: reading the sibling of the focused node. -/
theorem sibling {f : Frame Ptr} (h : Focus m (f :: k) t) (ht : t ≠ .nil) :
    mRbtSibling m (rootPtr t) = rootPtr f.other := by
  have hl := h.left_eq_iff ht
  obtain ⟨-, h2⟩ := h.child_parent
  have hp : mRbtParent m (rootPtr t) = f.elem := h.parent ht
  unfold mRbtSibling
  rw [hp]
  dsimp only
  split_ifs with e
  · rw [hl.mp e.symm] at h2
    exact h2
  · rw [show f.side = .right from (Side.eq_or_eq_flip .left f.side).resolve_left
      (fun hs => e (hl.mpr hs).symm)] at h2
    exact h2

/-- INTERNAL: the pointer to the subtree is loaded. -/
theorem load (h : Focus m k t) : m.load (holePos k) = rootPtr t := by
  cases k with
  | nil => exact h.path
  | cons f k => exact (load_sidePos m f.side f.elem).trans h.path.2.1

end Focus

/-- INTERNAL: the parent pointer of a child leads back to the node above it. -/
theorem Represents.parent_child {m : MRBTree} {t : RBTree Ptr} (h : Represents m t) {p : Ptr}
    (hp : p ∈ t.toList) (d : Side) (hc : m.child d p ≠ NULL) :
    mRbtParent m (m.child d p) = p := by
  obtain ⟨k, c, l, r, rfl⟩ := RBPath.exists_fill_of_mem hp
  obtain ⟨near, a, far, e⟩ := RBTree.exists_join d (.node c l p r) nofun
  obtain rfl : p = a := by simpa using congrArg rootPtr e
  have hfo := represents_fill.mp h
  rw [e] at hfo
  have hdown := hfo.down (f := ⟨d, _, p, far⟩)
  have hchild : m.child d p = rootPtr near := hdown.child_parent.1
  rw [hchild] at hc ⊢
  refine hdown.parent ?_
  rintro rfl
  exact hc rfl

/-- INTERNAL: the parent pointer of the root is `NULL`. -/
theorem Represents.parent_root {m : MRBTree} {t : RBTree Ptr} (h : Represents m t)
    (hr : m.tree ≠ NULL) : mRbtParent m m.tree = NULL := by
  have hfo : Focus m [] t := represents_fill.mp h
  rw [h.tree] at hr ⊢
  refine hfo.parent ?_
  rintro rfl
  exact hr rfl

end Ming.Interface
