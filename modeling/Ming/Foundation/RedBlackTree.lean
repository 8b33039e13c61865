import Mathlib.Data.Nat.Log
import Mathlib.Data.List.Basic
import Mathlib.Tactic.Linarith
import Mathlib.Tactic.Ring

/-!
# Red-black trees with a hole

Coloured binary trees over an arbitrary element type, the paths that lead to a position
inside them, and the two halves of the red-black invariant stated for trees and for
paths, so that a rebalancing step can be reasoned about at the place where it happens.
-/

set_option autoImplicit false

namespace Ming.Foundation

/-- One of the two children of a node. -/
inductive Side where
  | left
  | right
  deriving DecidableEq, Repr

/-- The other side. -/
def Side.flip : Side → Side
  | .left => .right
  | .right => .left

/-- INTERNAL: the other side of the other side. -/
@[simp] theorem Side.flip_flip (d : Side) : d.flip.flip = d := by cases d <;> rfl

/-- INTERNAL: the sides differ. -/
@[simp] theorem Side.flip_ne (d : Side) : d.flip ≠ d := by cases d <;> decide

/-- INTERNAL: the sides differ. -/
@[simp] theorem Side.ne_flip (d : Side) : d ≠ d.flip := by cases d <;> decide

/-- INTERNAL: there are two sides. -/
theorem Side.eq_or_eq_flip (d e : Side) : e = d ∨ e = d.flip := by
  cases d <;> cases e <;> simp [Side.flip]

/-- The colour of a node. -/
inductive Color where
  | red
  | black
  deriving DecidableEq, Repr

/-- A coloured binary tree. -/
inductive RBTree (α : Type) where
  | nil
  | node (color : Color) (l : RBTree α) (elem : α) (r : RBTree α)

namespace RBTree

variable {α : Type}

/-- The in-order sequence of the elements. -/
def toList : RBTree α → List α
  | nil => []
  | node _ l a r => l.toList ++ a :: r.toList

/-- The number of nodes on a longest path to an empty position. -/
def height : RBTree α → ℕ
  | nil => 0
  | node _ l _ r => max l.height r.height + 1

/-- The colour of the root; an empty position counts as black. -/
def rootColor : RBTree α → Color
  | nil => .black
  | node c _ _ _ => c

/-- A node given by the side its first subtree hangs on. -/
def join (d : Side) (c : Color) (near : RBTree α) (a : α) (far : RBTree α) : RBTree α :=
  match d with
  | .left => node c near a far
  | .right => node c far a near

/-- INTERNAL: an empty tree counts as black. -/
@[simp] theorem rootColor_nil : (nil : RBTree α).rootColor = .black := rfl

/-- INTERNAL: the color of a joined tree. -/
@[simp] theorem rootColor_join (d : Side) (c : Color) (s : RBTree α) (a : α) (t : RBTree α) :
    (join d c s a t).rootColor = c := by cases d <;> rfl

/-- INTERNAL: an empty tree has no elements. -/
@[simp] theorem toList_nil : (nil : RBTree α).toList = [] := rfl

/-- INTERNAL: the elements of a node in order. -/
@[simp] theorem toList_node (c : Color) (l : RBTree α) (a : α) (r : RBTree α) :
    (node c l a r).toList = l.toList ++ a :: r.toList := rfl

/-- INTERNAL: a mirrored tree has its subtrees exchanged. -/
theorem join_flip (d : Side) (c : Color) (s : RBTree α) (a : α) (t : RBTree α) :
    join d.flip c s a t = join d c t a s := by cases d <;> rfl

/-- The tree with a black root. -/
def blacken : RBTree α → RBTree α
  | nil => nil
  | node _ l a r => node .black l a r

/-- INTERNAL: an empty tree stays. -/
@[simp] theorem blacken_nil : (nil : RBTree α).blacken = nil := rfl

/-- INTERNAL: a color change keeps the elements. -/
@[simp] theorem toList_blacken (t : RBTree α) : t.blacken.toList = t.toList := by
  cases t <;> rfl

/-- INTERNAL: every non-empty tree is a join on either side. -/
theorem exists_join (d : Side) (t : RBTree α) (ht : t ≠ nil) :
    ∃ near a far, t = join d t.rootColor near a far := by
  cases t with
  | nil => exact absurd rfl ht
  | node c l a r =>
    cases d with
    | left => exact ⟨l, a, r, rfl⟩
    | right => exact ⟨r, a, l, rfl⟩

/-- INTERNAL: a red root is a node. -/
theorem ne_nil_of_rootColor_red {t : RBTree α} (h : t.rootColor = .red) : t ≠ nil := by
  rintro rfl
  simp at h

/-- INTERNAL: a tree with a red root, seen from a side. -/
theorem exists_join_of_red (d : Side) {t : RBTree α} (h : t.rootColor = .red) :
    ∃ near a far, t = join d .red near a far := by
  rw [← h]
  exact exists_join d t (ne_nil_of_rootColor_red h)

/-- INTERNAL: the elements of a join. -/
theorem mem_toList_join (d : Side) (c : Color) (s : RBTree α) (a : α) (t : RBTree α) (x : α) :
    x ∈ (join d c s a t).toList ↔ x = a ∨ x ∈ s.toList ∨ x ∈ t.toList := by
  cases d
  · simp only [join, toList_node, List.mem_append, List.mem_cons]
    tauto
  · simp only [join, toList_node, List.mem_append, List.mem_cons]
    tauto

/-- INTERNAL: the elements of a joined tree. -/
theorem perm_join (d : Side) (c : Color) (s : RBTree α) (a : α) (t : RBTree α) :
    (join d c s a t).toList.Perm (a :: (s.toList ++ t.toList)) := by
  cases d
  · exact List.perm_middle
  · exact List.perm_middle.trans (List.Perm.cons a List.perm_append_comm)

/-! ## The two halves of the invariant -/

/-- What a node adds to the black height. -/
def blackWeight : Color → ℕ
  | .red => 0
  | .black => 1

/-- INTERNAL: a red node adds nothing to the black height. -/
@[simp] theorem blackWeight_red : blackWeight .red = 0 := rfl

/-- INTERNAL: a black node adds one to the black height. -/
@[simp] theorem blackWeight_black : blackWeight .black = 1 := rfl

/-- Every path from the root to an empty position has `h` black nodes. -/
def BlackHeight : RBTree α → ℕ → Prop
  | nil, h => h = 0
  | node c l _ r, h => ∃ k, BlackHeight l k ∧ BlackHeight r k ∧ h = k + blackWeight c

/-- No red node has a red child. -/
def NoRedRed : RBTree α → Prop
  | nil => True
  | node c l _ r =>
    (c = .red → l.rootColor = .black ∧ r.rootColor = .black) ∧ NoRedRed l ∧ NoRedRed r

/-- INTERNAL: the black height of an empty tree. -/
@[simp] theorem blackHeight_nil (h : ℕ) : BlackHeight (nil : RBTree α) h ↔ h = 0 :=
  Iff.rfl

/-- INTERNAL: an empty tree has no red child of a red node. -/
@[simp] theorem noRedRed_nil : NoRedRed (nil : RBTree α) := trivial

/-- INTERNAL: the black height of a join. -/
theorem blackHeight_join (d : Side) (c : Color) (s : RBTree α) (a : α)
    (t : RBTree α) (h : ℕ) :
    BlackHeight (join d c s a t) h ↔
      ∃ k, BlackHeight s k ∧ BlackHeight t k ∧ h = k + blackWeight c := by
  cases d
  · rfl
  · constructor
    · rintro ⟨k, ht, hs, rfl⟩; exact ⟨k, hs, ht, rfl⟩
    · rintro ⟨k, hs, ht, rfl⟩; exact ⟨k, ht, hs, rfl⟩

/-- INTERNAL: the colour condition of a join. -/
theorem noRedRed_join (d : Side) (c : Color) (s : RBTree α) (a : α) (t : RBTree α) :
    NoRedRed (join d c s a t) ↔
      (c = .red → s.rootColor = .black ∧ t.rootColor = .black) ∧ NoRedRed s ∧ NoRedRed t := by
  cases d
  · rfl
  · simp only [join, NoRedRed]
    tauto

/-- INTERNAL: a tree with a black node is not empty. -/
theorem BlackHeight.ne_nil {t : RBTree α} {h : ℕ}
    (ht : BlackHeight t (h + 1)) : t ≠ nil := by
  rintro rfl
  simp at ht

/-! ## Height bounds -/

/-- INTERNAL: a black root needs black height one. -/
theorem BlackHeight.eq_nil {t : RBTree α} (ht : BlackHeight t 0) (hc : t.rootColor = .black) :
    t = nil := by
  cases t with
  | nil => rfl
  | node c l a r =>
    obtain rfl : c = .black := hc
    obtain ⟨k, -, -, e⟩ := ht
    simp at e

/-- INTERNAL: a tree is no higher than it has nodes. -/
theorem height_le_length (t : RBTree α) : t.height ≤ t.toList.length := by
  induction t with
  | nil => simp [height]
  | node c l a r ihl ihr =>
    simp only [height, toList_node, List.length_append, List.length_cons]
    omega

/-- INTERNAL: a joined tree has a node. -/
theorem join_ne_nil (d : Side) (c : Color) (s : RBTree α) (a : α) (t : RBTree α) :
    join d c s a t ≠ nil := by
  cases d <;> simp [join]

/-- INTERNAL: a subtree is lower than its tree. -/
theorem height_lt_join (d : Side) (c : Color) (s : RBTree α) (a : α) (t : RBTree α) :
    s.height < (join d c s a t).height := by
  cases d <;> simp only [join, height] <;> omega

/-- INTERNAL: a tree of black height `h` has at least `2 ^ h - 1` nodes. -/
theorem two_pow_le_length {t : RBTree α} {h : ℕ} (ht : BlackHeight t h) :
    2 ^ h ≤ t.toList.length + 1 := by
  induction t generalizing h with
  | nil => simp_all
  | node c l a r ihl ihr =>
    obtain ⟨k, hl, hr, rfl⟩ := ht
    have h1 := ihl hl
    have h2 := ihr hr
    simp only [toList_node, List.length_append, List.length_cons]
    cases c
    · simp only [blackWeight_red, Nat.add_zero]
      omega
    · simp only [blackWeight_black, pow_succ]
      omega

/-- INTERNAL: without red-red edges a tree is at most twice as high as its black height,
plus one for a red root. -/
theorem height_le {t : RBTree α} {h : ℕ} (ht : BlackHeight t h)
    (hc : NoRedRed t) : t.height ≤ 2 * h + (if t.rootColor = .red then 1 else 0) := by
  induction t generalizing h with
  | nil => simp [height]
  | node c l a r ihl ihr =>
    obtain ⟨k, hl, hr, rfl⟩ := ht
    obtain ⟨hrr, hcl, hcr⟩ := hc
    have h1 := ihl hl hcl
    have h2 := ihr hr hcr
    simp only [height, rootColor]
    cases c with
    | red =>
      obtain ⟨e1, e2⟩ := hrr rfl
      simp only [e1, e2, reduceCtorEq, if_false, if_true, blackWeight_red] at h1 h2 ⊢
      omega
    | black =>
      simp only [reduceCtorEq, if_false, blackWeight_black]
      split_ifs at h1 h2 <;> omega

/-- The red-black invariant of a whole tree. -/
structure Valid (t : RBTree α) : Prop where
  rootBlack : t.rootColor = .black
  noRedRed : NoRedRed t
  balanced : ∃ h, BlackHeight t h

/-- INTERNAL: a red-black tree of `n` nodes is at most `2 * log2 (n + 1)` high. -/
theorem Valid.height_le_log {t : RBTree α} (ht : t.Valid) :
    t.height ≤ 2 * Nat.log 2 (t.toList.length + 1) := by
  obtain ⟨h, hb⟩ := ht.balanced
  have h1 := height_le hb ht.noRedRed
  rw [ht.rootBlack] at h1
  have h2 : h ≤ Nat.log 2 (t.toList.length + 1) :=
    Nat.le_log_of_pow_le Nat.one_lt_two (two_pow_le_length hb)
  simp only [reduceCtorEq, if_false] at h1
  omega

/-- INTERNAL: an empty tree is valid. -/
theorem valid_nil : Valid (nil : RBTree α) := ⟨rfl, trivial, 0, rfl⟩

end RBTree

/-! ## Paths to a hole -/

/-- One step of a path: a node without the subtree on `side`. -/
structure Frame (α : Type) where
  side : Side
  color : Color
  elem : α
  other : RBTree α

/-- The frames from a hole up to the root. -/
abbrev RBPath (α : Type) := List (Frame α)

namespace RBPath

open Ming.Foundation.RBTree

variable {α : Type}

/-- The tree obtained by putting `t` into the hole. -/
def fill : RBPath α → RBTree α → RBTree α
  | [], t => t
  | f :: k, t => fill k (join f.side f.color t f.elem f.other)

/-- The elements before the hole. -/
def before : RBPath α → List α
  | [] => []
  | f :: k => before k ++ (match f.side with
    | .left => []
    | .right => f.other.toList ++ [f.elem])

/-- The elements after the hole. -/
def after : RBPath α → List α
  | [] => []
  | f :: k => (match f.side with
    | .left => f.elem :: f.other.toList
    | .right => []) ++ after k

/-- All elements of a path. -/
def elems : RBPath α → List α
  | [] => []
  | f :: k => f.elem :: f.other.toList ++ elems k

/-- The outermost frame, the one of the root, is black. -/
def RootBlack : RBPath α → Prop
  | [] => True
  | [f] => f.color = .black
  | _ :: g :: k => RootBlack (g :: k)

/-- Around the hole every path down has as many black nodes as with a hole of height `h`. -/
def BlackHeight : RBPath α → ℕ → ℕ → Prop
  | [], h, H => h = H
  | f :: k, h, H =>
    RBTree.BlackHeight f.other h ∧ BlackHeight k (h + blackWeight f.color) H

/-- No red-red edge on the path, when the hole is filled by a tree with root colour `c`. -/
def NoRedRed : RBPath α → Color → Prop
  | [], _ => True
  | f :: k, c => (f.color = .red → c = .black ∧ f.other.rootColor = .black) ∧
      RBTree.NoRedRed f.other ∧ NoRedRed k f.color

/-- INTERNAL: a tree at the root is the whole tree. -/
@[simp] theorem fill_nil (t : RBTree α) : fill [] t = t := rfl

/-- INTERNAL: a tree in a hole, one level up. -/
@[simp] theorem fill_cons (f : Frame α) (k : RBPath α) (t : RBTree α) :
    fill (f :: k) t = fill k (join f.side f.color t f.elem f.other) := rfl

/-- INTERNAL: a hole below another hole. -/
theorem fill_append (k k' : RBPath α) (t : RBTree α) :
    fill (k ++ k') t = fill k' (fill k t) := by
  induction k generalizing t with
  | nil => rfl
  | cons f k ih => exact ih _

/-- INTERNAL: the in-order sequence splits at the hole. -/
theorem toList_fill (k : RBPath α) (t : RBTree α) :
    (fill k t).toList = before k ++ t.toList ++ after k := by
  induction k generalizing t with
  | nil => simp [before, after]
  | cons f k ih =>
    rw [fill_cons, ih]
    cases hs : f.side <;> simp [before, after, hs, join]

/-- INTERNAL: what precedes a hole below another hole. -/
theorem before_append (k k' : RBPath α) : before (k ++ k') = before k' ++ before k := by
  induction k with
  | nil => simp [before]
  | cons f k ih => simp [before, ih]

/-- INTERNAL: what follows a hole below another hole. -/
theorem after_append (k k' : RBPath α) : after (k ++ k') = after k ++ after k' := by
  induction k with
  | nil => simp [after]
  | cons f k ih => simp [after, ih]

/-- INTERNAL: the elements of a filled path. -/
theorem perm_fill (k : RBPath α) (t : RBTree α) :
    (fill k t).toList.Perm (t.toList ++ elems k) := by
  induction k generalizing t with
  | nil => simp [elems]
  | cons f k ih =>
    refine (ih _).trans ?_
    simp only [elems]
    rw [← List.append_assoc]
    refine List.Perm.append_right _ ?_
    cases f.side
    · simp [join]
    · simp only [join, toList_node]
      have hswap : (f.other.toList ++ f.elem :: t.toList).Perm
          (f.elem :: t.toList ++ f.other.toList) := List.perm_append_comm
      refine hswap.trans ?_
      simpa using List.perm_middle.symm

/-- INTERNAL: the elements around a hole below another hole. -/
theorem elems_append (k k' : RBPath α) : elems (k ++ k') = elems k ++ elems k' := by
  induction k with
  | nil => rfl
  | cons f k ih => simp [elems, ih]

/-- INTERNAL: an element is in the hole or around it. -/
theorem mem_fill (k : RBPath α) (t : RBTree α) (x : α) :
    x ∈ (fill k t).toList ↔ x ∈ t.toList ∨ x ∈ elems k := by
  rw [(perm_fill k t).mem_iff, List.mem_append]

/-- INTERNAL: no element is twice in the tree. -/
theorem nodup_fill (k : RBPath α) (t : RBTree α) :
    (fill k t).toList.Nodup ↔ (t.toList ++ elems k).Nodup :=
  (perm_fill k t).nodup_iff

/-- INTERNAL: every element is the root of a subtree. -/
theorem exists_fill_of_mem {t : RBTree α} {a : α} (h : a ∈ t.toList) :
    ∃ k c l r, t = fill k (node c l a r) := by
  induction t with
  | nil => simp at h
  | node c l b r ihl ihr =>
    rw [toList_node, List.mem_append, List.mem_cons] at h
    rcases h with h | rfl | h
    · obtain ⟨k, c', l', r', rfl⟩ := ihl h
      exact ⟨k ++ [⟨.left, c, b, r⟩], c', l', r', by rw [fill_append]; rfl⟩
    · exact ⟨[], c, l, r, rfl⟩
    · obtain ⟨k, c', l', r', rfl⟩ := ihr h
      exact ⟨k ++ [⟨.right, c, b, l⟩], c', l', r', by rw [fill_append]; rfl⟩

/-- INTERNAL: nothing comes after a hole on the far right. -/
theorem after_eq_nil {k : RBPath α} (h : ∀ f ∈ k, f.side = .right) : after k = [] := by
  induction k with
  | nil => rfl
  | cons f k ih =>
    simp only [after, h f (by simp), List.nil_append]
    exact ih fun g hg => h g (by simp [hg])

/-- INTERNAL: the element right after a hole is the lowest node that has the hole on its
left. -/
theorem exists_of_after_eq_cons {k : RBPath α} {a : α} {rest : List α}
    (h : after k = a :: rest) :
    ∃ k₁ c r k₂, k = k₁ ++ ⟨.left, c, a, r⟩ :: k₂ ∧ (∀ f ∈ k₁, f.side = .right) := by
  induction k with
  | nil => simp [after] at h
  | cons f k ih =>
    obtain ⟨d, c, b, o⟩ := f
    cases d with
    | left =>
      simp only [after, List.cons_append, List.cons.injEq] at h
      obtain ⟨rfl, -⟩ := h
      exact ⟨[], c, o, k, rfl, by simp⟩
    | right =>
      obtain ⟨k₁, c', r, k₂, rfl, hk⟩ := ih (by simpa [after] using h)
      refine ⟨⟨.right, c, b, o⟩ :: k₁, c', r, k₂, rfl, fun f hf => ?_⟩
      rcases List.mem_cons.mp hf with rfl | hf
      · rfl
      · exact hk f hf

/-- INTERNAL: filling a path with a balanced tree of the right height. -/
theorem blackHeight_fill (k : RBPath α) (t : RBTree α) (H : ℕ) :
    RBTree.BlackHeight (fill k t) H ↔
      ∃ h, RBTree.BlackHeight t h ∧ BlackHeight k h H := by
  induction k generalizing t with
  | nil => simp [BlackHeight]
  | cons f k ih =>
    rw [fill_cons, ih]
    constructor
    · rintro ⟨h, ht, hk⟩
      obtain ⟨j, h1, h2, rfl⟩ := (blackHeight_join ..).mp ht
      exact ⟨j, h1, h2, hk⟩
    · rintro ⟨j, h1, h2, hk⟩
      exact ⟨_, (blackHeight_join ..).mpr ⟨j, h1, h2, rfl⟩, hk⟩

/-- INTERNAL: filling a path that tolerates the root colour of the tree. -/
theorem noRedRed_fill (k : RBPath α) (t : RBTree α) :
    RBTree.NoRedRed (fill k t) ↔ RBTree.NoRedRed t ∧ NoRedRed k t.rootColor := by
  induction k generalizing t with
  | nil => simp [NoRedRed]
  | cons f k ih =>
    rw [fill_cons, ih, noRedRed_join, rootColor_join]
    simp only [NoRedRed]
    tauto

/-- INTERNAL: a black tree fits where any tree does. -/
theorem NoRedRed.black {k : RBPath α} {c : Color} (h : NoRedRed k c) : NoRedRed k .black := by
  cases k with
  | nil => trivial
  | cons f k => exact ⟨fun hf => ⟨rfl, (h.1 hf).2⟩, h.2⟩

/-- INTERNAL: the color of the root, in a frame of the same color. -/
theorem RootBlack.congr {f g : Frame α} {k : RBPath α} (hfg : g.color = f.color)
    (h : RootBlack (f :: k)) : RootBlack (g :: k) := by
  cases k with
  | nil => exact hfg.trans h
  | cons => exact h

/-- INTERNAL: the root colour of a filled path does not depend on the hole. -/
theorem rootColor_fill_cons (f : Frame α) (k : RBPath α) (t : RBTree α) :
    (fill (f :: k) t).rootColor = .black ↔ RootBlack (f :: k) := by
  induction k generalizing f t with
  | nil => simp [RootBlack]
  | cons g k ih =>
    rw [fill_cons, ih g]
    rfl

/-- INTERNAL: a path has no more frames than elements. -/
theorem length_le_elems (k : RBPath α) : k.length ≤ (elems k).length := by
  induction k with
  | nil => simp
  | cons f k ih =>
    simp only [elems, List.length_append, List.length_cons]
    omega

/-- INTERNAL: what hangs in the hole of a path is that much lower than the tree. -/
theorem length_add_height_le (k : RBPath α) (t : RBTree α) :
    k.length + t.height ≤ (fill k t).height := by
  induction k generalizing t with
  | nil => simp
  | cons f k ih =>
    have hjoin := RBTree.height_lt_join f.side f.color t f.elem f.other
    have hup := ih (RBTree.join f.side f.color t f.elem f.other)
    rw [fill_cons, List.length_cons]
    omega

/-- INTERNAL: a valid tree around a hole. -/
theorem valid_fill (k : RBPath α) (t : RBTree α) :
    (fill k t).Valid ↔ (k = [] → t.rootColor = .black) ∧ RootBlack k ∧ t.NoRedRed ∧
      NoRedRed k t.rootColor ∧ ∃ h H, t.BlackHeight h ∧ BlackHeight k h H := by
  constructor
  · rintro ⟨hr, hn, H, hb⟩
    obtain ⟨hnt, hnk⟩ := (noRedRed_fill k t).mp hn
    obtain ⟨h, hht, hhk⟩ := (blackHeight_fill k t H).mp hb
    refine ⟨?_, ?_, hnt, hnk, h, H, hht, hhk⟩
    · rintro rfl
      exact hr
    · cases k with
      | nil => trivial
      | cons f k => exact (rootColor_fill_cons f k t).mp hr
  · rintro ⟨hr, hb, hnt, hnk, h, H, hht, hhk⟩
    refine ⟨?_, (noRedRed_fill k t).mpr ⟨hnt, hnk⟩, H, (blackHeight_fill k t H).mpr ⟨h, hht, hhk⟩⟩
    cases k with
    | nil => exact hr rfl
    | cons f k => exact (rootColor_fill_cons f k t).mpr hb

/-- INTERNAL: a hole may be filled by any tree of the same colour and black height. -/
theorem valid_fill_congr {k : RBPath α} {t t' : RBTree α} (hc : t'.rootColor = t.rootColor)
    (hn : t.NoRedRed → t'.NoRedRed) (hb : ∀ h, t.BlackHeight h → t'.BlackHeight h)
    (hv : (fill k t).Valid) : (fill k t').Valid := by
  obtain ⟨hr, hrb, hnt, hnk, h, H, hht, hhk⟩ := (valid_fill k t).mp hv
  refine (valid_fill k t').mpr ⟨?_, hrb, hn hnt, ?_, h, H, hb h hht, hhk⟩
  · rwa [hc]
  · rwa [hc]

end RBPath

/-! ## Reading from one side -/

section Reading

variable {α : Type}

/-- A sequence as it is read from one side. -/
def Side.order (d : Side) (l : List α) : List α :=
  match d with
  | .left => l
  | .right => l.reverse

/-- INTERNAL: from the left the order is that of the list. -/
@[simp] theorem Side.order_left (l : List α) : Side.left.order l = l := rfl

/-- INTERNAL: from the right the order is reversed. -/
@[simp] theorem Side.order_right (l : List α) : Side.right.order l = l.reverse := rfl

/-- INTERNAL: no elements in any order. -/
@[simp] theorem Side.order_nil (d : Side) : d.order ([] : List α) = [] := by cases d <;> rfl

/-- INTERNAL: an order has the same elements. -/
theorem Side.order_perm (d : Side) (l : List α) : (d.order l).Perm l := by
  cases d
  · exact List.Perm.refl l
  · exact List.reverse_perm l

/-- INTERNAL: filtering keeps the order. -/
theorem Side.order_filter (d : Side) (p : α → Bool) (l : List α) :
    d.order (l.filter p) = (d.order l).filter p := by
  cases d
  · rfl
  · exact List.filter_reverse.symm

/-- INTERNAL: from the other side the order is reversed. -/
theorem Side.order_flip (d : Side) (l : List α) : d.flip.order l = (d.order l).reverse := by
  cases d
  · rfl
  · exact (List.reverse_reverse l).symm

/-- INTERNAL: a list is known from its order. -/
theorem Side.order_injective (d : Side) {l l' : List α} (h : d.order l = d.order l') : l = l' := by
  cases d
  · exact h
  · exact List.reverse_injective h

/-- INTERNAL: the order of a joined tree. -/
theorem RBTree.order_join (d : Side) (c : Color) (s : RBTree α) (a : α) (t : RBTree α) :
    d.order (join d c s a t).toList = d.order s.toList ++ a :: d.order t.toList := by
  cases d
  · rfl
  · simp [join]

namespace RBPath

/-- What comes before the hole, read from one side. -/
def passed (d : Side) (k : RBPath α) : List α :=
  match d with
  | .left => before k
  | .right => (after k).reverse

/-- What comes after the hole, read from one side. -/
def beyond (d : Side) (k : RBPath α) : List α :=
  match d with
  | .left => after k
  | .right => (before k).reverse

/-- INTERNAL: nothing lies beyond the whole tree. -/
@[simp] theorem beyond_nil (d : Side) : beyond d ([] : RBPath α) = [] := by cases d <;> rfl

/-- INTERNAL: what lies beyond a hole on the side that is walked from. -/
theorem beyond_cons_same (d : Side) (c : Color) (a : α) (o : RBTree α) (k : RBPath α) :
    beyond d (⟨d, c, a, o⟩ :: k) = a :: (d.order o.toList ++ beyond d k) := by
  cases d
  · rfl
  · simp [beyond, before]

/-- INTERNAL: what lies beyond a hole on the other side. -/
theorem beyond_cons_flip (d : Side) (c : Color) (a : α) (o : RBTree α) (k : RBPath α) :
    beyond d (⟨d.flip, c, a, o⟩ :: k) = beyond d k := by
  cases d
  · rfl
  · simp [beyond, before, Side.flip]

/-- INTERNAL: the order of a filled tree. -/
theorem order_fill (d : Side) (k : RBPath α) (t : RBTree α) :
    d.order (fill k t).toList = passed d k ++ d.order t.toList ++ beyond d k := by
  rw [toList_fill]
  cases d
  · rfl
  · simp [passed, beyond]

end RBPath

end Reading

end Ming.Foundation
