import Mathlib.Data.List.Chain
import Mathlib.Data.List.Nodup

/-!
# Rings of doubly linked nodes

A ring is a head and a list of further nodes. The walk from the head through the list and back
to the head is linked in both directions, so the empty ring, the first node and the last one are
no special cases: every node stands between two others of the walk. Insertion and removal change
the links at one place of the walk and keep the two parts on its sides.
-/

set_option autoImplicit false

namespace Ming.Foundation

variable {α : Type} {next prev next' prev' : α → α} {head x : α} {l l₁ l₂ : List α}

/-- Two nodes that are linked both ways. -/
def Linked (next prev : α → α) (a b : α) : Prop := next a = b ∧ prev b = a

/-- The head and the nodes of the list are linked in a circle. -/
structure Ring (next prev : α → α) (head : α) (l : List α) : Prop where
  linked : (head :: l ++ [head]).IsChain (Linked next prev)
  nodup : (head :: l).Nodup

/-- The last node of a part that begins at the head. -/
def lastOf (head : α) (l : List α) : α := l.getLast?.getD head

/-- The first node of a part that ends at the head. -/
def firstOf (head : α) (l : List α) : α := l.headD head

/-- INTERNAL: the first node of an empty part is the head. -/
@[simp] theorem firstOf_nil : firstOf head [] = head := rfl

/-- INTERNAL: the first node of a part. -/
@[simp] theorem firstOf_cons : firstOf head (x :: l) = x := rfl

/-- INTERNAL: the last node of an empty part is the head. -/
@[simp] theorem lastOf_nil : lastOf head [] = head := rfl

/-- INTERNAL: the last node of a part. -/
@[simp] theorem lastOf_concat : lastOf head (l ++ [x]) = x := by simp [lastOf]

/-- INTERNAL: the first node is the head or in the part. -/
theorem firstOf_mem (head : α) (l : List α) : firstOf head l ∈ head :: l := by
  cases l with
  | nil => simp
  | cons a l => simp

/-- INTERNAL: the last node is the head or in the part. -/
theorem lastOf_mem (head : α) (l : List α) : lastOf head l ∈ head :: l := by
  rcases List.eq_nil_or_concat l with rfl | ⟨l, a, rfl⟩
  · simp
  · simp

/-- INTERNAL: the first node of a later part is on the ring. -/
theorem firstOf_mem_append (head : α) (l₁ l₂ : List α) :
    firstOf head l₂ ∈ head :: (l₁ ++ l₂) := by
  have h := firstOf_mem head l₂
  rw [List.mem_cons] at h ⊢
  exact h.imp_right (List.mem_append_right l₁)

/-- INTERNAL: the last node of an earlier part is on the ring. -/
theorem lastOf_mem_append (head : α) (l₁ l₂ : List α) :
    lastOf head l₁ ∈ head :: (l₁ ++ l₂) := List.mem_append_left l₂ (lastOf_mem head l₁)

/-- INTERNAL: the first node of the part walked backwards. -/
theorem firstOf_reverse (head : α) (l : List α) : firstOf head l.reverse = lastOf head l := by
  simp [firstOf, lastOf, List.headD_eq_head?_getD]

/-- INTERNAL: the last node, as a list function says it. -/
theorem getLast?_part (head : α) (l : List α) :
    (head :: l).getLast? = some (lastOf head l) := List.getLast?_cons

/-- INTERNAL: the first node, as a list function says it. -/
theorem head?_part (head : α) (l : List α) : (l ++ [head]).head? = some (firstOf head l) := by
  cases l with
  | nil => rfl
  | cons a l => rfl

/-- INTERNAL: a walk without repetitions looks at the next links of all nodes but the last, and
at the previous links of all but the first. -/
theorem linked_congr {w : List α} (hnd : w.Nodup) (h : w.IsChain (Linked next prev))
    (hn : ∀ y ∈ w, w.getLast? ≠ some y → next' y = next y)
    (hp : ∀ y ∈ w, w.head? ≠ some y → prev' y = prev y) : w.IsChain (Linked next' prev') := by
  rw [List.isChain_iff_forall_rel_of_append_cons_cons] at h ⊢
  rintro a b u v rfl
  have hab := h rfl
  rw [List.nodup_append] at hnd
  obtain ⟨-, hnd, hdisj⟩ := hnd
  have hlast : (u ++ a :: b :: v).getLast? ≠ some a := by
    intro e
    have hmem : a ∈ b :: v := by
      rw [List.getLast?_append_of_ne_nil _ (by simp), List.getLast?_cons_cons] at e
      exact List.mem_of_getLast? e
    exact (List.nodup_cons.mp hnd).1 hmem
  have hfirst : (u ++ a :: b :: v).head? ≠ some b := by
    cases u with
    | nil =>
      intro e
      rw [List.nil_append, List.head?_cons, Option.some.injEq] at e
      exact (List.nodup_cons.mp hnd).1 (e ▸ List.mem_cons_self)
    | cons c u =>
      intro e
      rw [List.cons_append, List.head?_cons, Option.some.injEq] at e
      exact hdisj c (by simp) b (by simp) e
  exact ⟨(hn a (by simp) hlast).trans hab.1, (hp b (by simp) hfirst).trans hab.2⟩

/-- INTERNAL: a ring in two parts and the links between them. -/
theorem ring_append : Ring next prev head (l₁ ++ l₂) ↔
    (head :: l₁).IsChain (Linked next prev) ∧ (l₂ ++ [head]).IsChain (Linked next prev) ∧
      Linked next prev (lastOf head l₁) (firstOf head l₂) ∧ (head :: (l₁ ++ l₂)).Nodup := by
  have hwalk : head :: (l₁ ++ l₂) ++ [head] = (head :: l₁) ++ (l₂ ++ [head]) := by simp
  constructor
  · rintro ⟨hlinked, hnd⟩
    rw [hwalk, List.isChain_append, getLast?_part, head?_part] at hlinked
    obtain ⟨h₁, h₂, hmid⟩ := hlinked
    exact ⟨h₁, h₂, hmid _ rfl _ rfl, hnd⟩
  · rintro ⟨h₁, h₂, hmid, hnd⟩
    refine ⟨?_, hnd⟩
    rw [hwalk, List.isChain_append, getLast?_part, head?_part]
    refine ⟨h₁, h₂, ?_⟩
    rintro a ⟨⟩ b ⟨⟩
    exact hmid

/-- INTERNAL: a part that begins with a node. -/
theorem linked_cons : (x :: l ++ [head]).IsChain (Linked next prev) ↔
    Linked next prev x (firstOf head l) ∧ (l ++ [head]).IsChain (Linked next prev) := by
  cases l with
  | nil => simp
  | cons a l => simp

/-- INTERNAL: when the links are changed at the ends that face each other only, the two parts
stay linked. -/
theorem linked_sides (hnd : (head :: (l₁ ++ l₂)).Nodup)
    (hn : ∀ y ∈ head :: (l₁ ++ l₂), y ≠ lastOf head l₁ → next' y = next y)
    (hp : ∀ y ∈ head :: (l₁ ++ l₂), y ≠ firstOf head l₂ → prev' y = prev y)
    (h₁ : (head :: l₁).IsChain (Linked next prev))
    (h₂ : (l₂ ++ [head]).IsChain (Linked next prev)) :
    (head :: l₁).IsChain (Linked next' prev') ∧
      (l₂ ++ [head]).IsChain (Linked next' prev') := by
  have hnd' : (l₂ ++ [head]).Nodup := by
    rw [List.nodup_append_comm]
    exact hnd.sublist ((List.sublist_append_right l₁ l₂).cons_cons head)
  rw [← List.cons_append, List.nodup_append] at hnd
  obtain ⟨hnd₁, -, hdisj⟩ := hnd
  constructor
  · apply linked_congr hnd₁ h₁
    · intro y hy hlast
      rw [getLast?_part] at hlast
      exact hn y (List.mem_append_left _ hy) fun e => hlast (congrArg some e.symm)
    · intro y hy hhead
      have hne : y ≠ head := fun e => hhead (congrArg some e.symm)
      apply hp y (List.mem_append_left _ hy)
      intro e
      rcases List.mem_cons.mp (e ▸ firstOf_mem head l₂) with h | h
      · exact hne h
      · exact hdisj y hy y h rfl
  · apply linked_congr hnd' h₂
    · intro y hy hlast
      rw [List.getLast?_concat] at hlast
      have hy₂ : y ∈ l₂ := by
        rcases List.mem_append.mp hy with h | h
        · exact h
        · exact absurd (congrArg some (List.mem_singleton.mp h).symm) hlast
      apply hn y (by simp [hy₂])
      intro e
      exact hdisj y (e ▸ lastOf_mem head l₁) y hy₂ rfl
    · intro y hy hfirst
      rw [head?_part] at hfirst
      apply hp y _ fun e => hfirst (congrArg some e.symm)
      simp only [List.mem_append, List.mem_cons] at hy ⊢
      tauto

namespace Ring

/-- INTERNAL: a head that is linked to itself. -/
theorem nil (hn : next head = head) (hp : prev head = head) : Ring next prev head [] :=
  ⟨List.isChain_cons_cons.mpr ⟨⟨hn, hp⟩, List.isChain_singleton _⟩, List.nodup_singleton _⟩

/-- INTERNAL: the ring the other way round. -/
theorem symm (h : Ring next prev head l) : Ring prev next head l.reverse := by
  constructor
  · have hwalk : head :: l.reverse ++ [head] = (head :: l ++ [head]).reverse := by simp
    rw [hwalk, List.isChain_reverse]
    exact h.linked.imp fun a b hab => And.symm hab
  · simpa using h.nodup

/-- INTERNAL: what follows the head. -/
theorem next_head (h : Ring next prev head l) : next head = firstOf head l := by
  rw [← List.nil_append l, ring_append] at h
  exact h.2.2.1.1

/-- INTERNAL: what precedes the head. -/
theorem prev_head (h : Ring next prev head l) : prev head = lastOf head l := by
  rw [h.symm.next_head, firstOf_reverse]

/-- INTERNAL: what follows a node. -/
theorem next_eq (h : Ring next prev head (l₁ ++ x :: l₂)) : next x = firstOf head l₂ :=
  (linked_cons.mp (ring_append.mp h).2.1).1.1

/-- INTERNAL: what precedes a node. -/
theorem prev_eq (h : Ring next prev head (l₁ ++ x :: l₂)) : prev x = lastOf head l₁ :=
  (ring_append.mp h).2.2.1.2

/-- INTERNAL: no node of the ring is its head. -/
theorem ne_head (h : Ring next prev head l) {y : α} (hy : y ∈ l) : y ≠ head := by
  rintro rfl
  exact (List.nodup_cons.mp h.nodup).1 hy

/-- INTERNAL: only the empty ring leads from its head to its head. -/
theorem next_head_iff (h : Ring next prev head l) : next head = head ↔ l = [] := by
  rw [h.next_head]
  cases l with
  | nil => simp
  | cons a l => simpa using h.ne_head List.mem_cons_self

/-- INTERNAL: links that agree on the ring make the same ring. -/
theorem congr (h : Ring next prev head l) (hn : ∀ y ∈ head :: l, next' y = next y)
    (hp : ∀ y ∈ head :: l, prev' y = prev y) : Ring next' prev' head l := by
  have hmem : ∀ y ∈ head :: l ++ [head], y ∈ head :: l := by
    intro y hy
    rcases List.mem_append.mp hy with h | h
    · exact h
    · rw [List.mem_singleton.mp h]
      exact List.mem_cons_self
  refine ⟨h.linked.imp_of_mem_imp fun a b ha hb hab => ?_, h.nodup⟩
  exact ⟨(hn a (hmem a ha)).trans hab.1, (hp b (hmem b hb)).trans hab.2⟩

/-- INTERNAL: a new node between two parts, linked both ways to its neighbours. -/
theorem insert (h : Ring next prev head (l₁ ++ l₂)) (hx : x ∉ head :: (l₁ ++ l₂))
    (hlast : Linked next' prev' (lastOf head l₁) x)
    (hfirst : Linked next' prev' x (firstOf head l₂))
    (hn : ∀ y ∈ head :: (l₁ ++ l₂), y ≠ lastOf head l₁ → next' y = next y)
    (hp : ∀ y ∈ head :: (l₁ ++ l₂), y ≠ firstOf head l₂ → prev' y = prev y) :
    Ring next' prev' head (l₁ ++ x :: l₂) := by
  obtain ⟨h₁, h₂, -, hnd⟩ := ring_append.mp h
  obtain ⟨h₁', h₂'⟩ := linked_sides hnd hn hp h₁ h₂
  refine ring_append.mpr ⟨h₁', linked_cons.mpr ⟨hfirst, h₂'⟩, hlast, ?_⟩
  rw [← List.cons_append, List.nodup_middle]
  exact List.nodup_cons.mpr ⟨hx, hnd⟩

/-- INTERNAL: a node whose neighbours are linked to each other. -/
theorem unlink (h : Ring next prev head (l₁ ++ x :: l₂))
    (hmid : Linked next' prev' (lastOf head l₁) (firstOf head l₂))
    (hn : ∀ y ∈ head :: (l₁ ++ l₂), y ≠ lastOf head l₁ → next' y = next y)
    (hp : ∀ y ∈ head :: (l₁ ++ l₂), y ≠ firstOf head l₂ → prev' y = prev y) :
    Ring next' prev' head (l₁ ++ l₂) := by
  obtain ⟨h₁, h₂, -, hnd⟩ := ring_append.mp h
  rw [← List.cons_append, List.nodup_middle] at hnd
  have hnd := (List.nodup_cons.mp hnd).2
  obtain ⟨h₁', h₂'⟩ := linked_sides hnd hn hp h₁ (linked_cons.mp h₂).2
  exact ring_append.mpr ⟨h₁', h₂', hmid, hnd⟩

end Ring

end Ming.Foundation
