import Mathlib.Data.List.Basic
import Mathlib.Data.List.Nodup
import Mathlib.Data.Finset.Card

/-!
# Counting the flagged members of a list

The members of a list without repetitions carry a flag each. The number of members whose flag
is set follows a flag that is raised or lowered, a member that is appended and a member that
is removed.
-/

set_option autoImplicit false

namespace Ming.Foundation

variable {α : Type} {p q : α → Bool} {l : List α} {a : α}

/-- INTERNAL: tests that agree on the list count the same. -/
theorem countP_agree (h : ∀ b ∈ l, p b = q b) : l.countP p = l.countP q := by
  apply List.countP_congr
  intro b hb
  rw [h b hb]

/-- INTERNAL: raising the flag of one member. -/
theorem countP_raise (hl : l.Nodup) (ha : a ∈ l) (hp : p a = false) (hq : q a = true)
    (h : ∀ b, b ≠ a → p b = q b) : l.countP q = l.countP p + 1 := by
  obtain ⟨l₁, l₂, rfl⟩ := List.append_of_mem ha
  rw [List.nodup_append] at hl
  obtain ⟨-, hl₂, hne⟩ := hl
  have h₁ : l₁.countP p = l₁.countP q := by
    apply countP_agree
    intro b hb
    exact h b (hne b hb a (List.mem_cons_self ..))
  have h₂ : l₂.countP p = l₂.countP q := by
    apply countP_agree
    intro b hb
    apply h
    rintro rfl
    exact (List.nodup_cons.mp hl₂).1 hb
  simp only [List.countP_append, List.countP_cons, hp, hq, h₁, h₂, if_true,
    Bool.false_eq_true, if_false]
  omega

/-- INTERNAL: an element that passes is counted. -/
theorem countP_pos (ha : a ∈ l) (hp : p a = true) : 0 < l.countP p :=
  List.countP_pos_iff.mpr ⟨a, ha, hp⟩

variable [DecidableEq α]

/-- INTERNAL: the count before an element is erased. -/
theorem countP_erase (ha : a ∈ l) :
    l.countP p = (l.erase a).countP p + if p a then 1 else 0 := by
  rw [(List.perm_cons_erase ha).countP_eq p, List.countP_cons]

/-- INTERNAL: the length before an element is erased. -/
theorem length_erase_add_one (ha : a ∈ l) : l.length = (l.erase a).length + 1 := by
  rw [(List.perm_cons_erase ha).length_eq, List.length_cons]


end Ming.Foundation
