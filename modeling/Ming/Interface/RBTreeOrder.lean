import Ming.Interface.RBTreeShape

/-!
# Keys in order

What the documentation of m_rbtree.h asks of `cmp`, and what it then means that the nodes
of a tree are sorted and that a key belongs between two parts of them.
-/

set_option autoImplicit false

namespace Ming.Interface

open Ming.Foundation Ming.Model

section Order

variable {K : Type}

/-- A comparison function that is a strict total order. -/
structure StrictOrder (cmp : K → K → ℤ) : Prop where
  eq_zero_iff : ∀ a b, cmp a b = 0 ↔ a = b
  neg_iff_pos : ∀ a b, cmp a b < 0 ↔ 0 < cmp b a
  trans : ∀ a b c, cmp a b < 0 → cmp b c < 0 → cmp a c < 0

/-- INTERNAL: no key is less than itself. -/
theorem StrictOrder.irrefl {cmp : K → K → ℤ} (h : StrictOrder cmp) (a : K) : ¬ cmp a a < 0 := by
  have := (h.eq_zero_iff a a).mpr rfl
  omega

/-- The keys of a sequence of nodes increase. -/
def KeySorted (ops : MRBTreeOps K) (l : List Ptr) : Prop :=
  l.Pairwise fun p q => ops.cmp (ops.getKey p) (ops.getKey q) < 0

/-- `key` lies after the nodes of `l` and before those of `r`. -/
structure SplitsAt (ops : MRBTreeOps K) (key : K) (l r : List Ptr) : Prop where
  before : ∀ p ∈ l, ops.cmp (ops.getKey p) key < 0
  after : ∀ p ∈ r, ops.cmp key (ops.getKey p) < 0

variable {ops : MRBTreeOps K} {key : K} {l r : List Ptr}

/-- INTERNAL: a key between two parts is in neither. -/
theorem SplitsAt.key_ne (hcmp : StrictOrder ops.cmp) (h : SplitsAt ops key l r) {p : Ptr}
    (hp : p ∈ l ∨ p ∈ r) : ops.getKey p ≠ key := by
  rintro rfl
  rcases hp with hp | hp
  · exact hcmp.irrefl _ (h.before p hp)
  · exact hcmp.irrefl _ (h.after p hp)

/-- INTERNAL: a node put at the place of its key keeps the sequence sorted. -/
theorem KeySorted.insert (hcmp : StrictOrder ops.cmp) (h : KeySorted ops (l ++ r)) {p : Ptr}
    (hs : SplitsAt ops (ops.getKey p) l r) : KeySorted ops (l ++ p :: r) := by
  obtain ⟨hl, hr, hlr⟩ := List.pairwise_append.mp h
  refine List.pairwise_append.mpr ⟨hl, List.pairwise_cons.mpr ⟨hs.after, hr⟩, ?_⟩
  intro a ha b hb
  rcases List.mem_cons.mp hb with rfl | hb
  · exact hs.before a ha
  · exact hcmp.trans _ _ _ (hs.before a ha) (hs.after b hb)

/-- INTERNAL: operations that agree on the nodes sort them alike. -/
theorem KeySorted.congr {ops' : MRBTreeOps K} (hc : ops'.cmp = ops.cmp)
    (hk : ∀ p ∈ l, ops'.getKey p = ops.getKey p) (h : KeySorted ops l) : KeySorted ops' l := by
  refine List.Pairwise.imp_of_mem (fun {p q} hp hq hpq => ?_) h
  rw [hc, hk p hp, hk q hq]
  exact hpq

/-- INTERNAL: a sorted list is split by the key of a node. -/
theorem KeySorted.split {p : Ptr} (h : KeySorted ops (l ++ p :: r)) :
    SplitsAt ops (ops.getKey p) l r := by
  obtain ⟨-, hr, hlr⟩ := List.pairwise_append.mp h
  exact ⟨fun q hq => hlr q hq p (by simp), (List.pairwise_cons.mp hr).1⟩

end Order

end Ming.Interface
