import Mathlib.Algebra.Ring.Nat
import Mathlib.Order.Basic
import Mathlib.Order.Nat
import Mathlib.Tactic.SplitIfs

/-!
# Outcomes of a modelled C function

A C function either returns or goes wrong: an assertion fails, a NULL or unmapped
address is dereferenced, an index leaves its buffer, a division by zero is evaluated.
Loops are unfolded along a fuel argument, and a run that exhausts it is kept apart
from the other faults, so that "returns" and "terminates" are separate statements.
-/

set_option autoImplicit false

namespace Ming.Foundation

/-- The ways in which a modelled C function does not return. -/
inductive Fault where
  | assertFailed
  | nullDeref
  | outOfBounds
  | unmapped
  | divByZero
  | outOfFuel
  deriving DecidableEq, Repr

/-- A modelled C function: a value, or the fault that stopped it. -/
abbrev Outcome (α : Type) := Except Fault α

namespace Outcome

variable {α β : Type}

/-- INTERNAL: going on from a result. -/
@[simp] theorem ok_bind (a : α) (f : α → Outcome β) :
    ((Except.ok a : Outcome α) >>= f) = f a := rfl

/-- INTERNAL: a fault ends the computation. -/
@[simp] theorem error_bind (e : Fault) (f : α → Outcome β) :
    ((Except.error e : Outcome α) >>= f) = Except.error e := rfl

/-- INTERNAL: a returned value is a result. -/
@[simp] theorem pure_eq_ok (a : α) : (pure a : Outcome α) = Except.ok a := rfl

/-- INTERNAL: a sequence returns exactly when its first part returns and the rest returns
on that value. -/
theorem bind_eq_ok {x : Outcome α} {f : α → Outcome β} {b : β} :
    (x >>= f) = Except.ok b ↔ ∃ a, x = Except.ok a ∧ f a = Except.ok b := by
  cases x with
  | error e => simp
  | ok a => simp

/-- Whether a computation returns a value with the given property. -/
def check (P : α → Bool) : Outcome α → Bool
  | .error _ => false
  | .ok a => P a

/-- INTERNAL: what a check that passes says. -/
theorem exists_of_check {P : α → Bool} {x : Outcome α} (h : x.check P = true) :
    ∃ a, x = .ok a ∧ P a = true := by
  cases x with
  | error e => exact absurd h Bool.false_ne_true
  | ok a => exact ⟨a, rfl, h⟩

/-! ## More fuel -/

/-- `x` is `y`, unless it ran out of fuel. -/
def Approx (x y : Outcome α) : Prop := x = .error .outOfFuel ∨ x = y

/-- INTERNAL: an outcome approximates itself. -/
theorem Approx.refl (x : Outcome α) : Approx x x := Or.inr rfl

/-- INTERNAL: running out of fuel approximates everything. -/
theorem Approx.outOfFuel (y : Outcome α) : Approx (.error .outOfFuel) y := Or.inl rfl

/-- INTERNAL: a result stays with more fuel. -/
theorem Approx.eq_ok {x y : Outcome α} {a : α} (h : Approx x y) (hx : x = .ok a) :
    y = .ok a := by
  rcases h with h | h
  · simp [hx] at h
  · exact h.symm.trans hx

/-- INTERNAL: sequencing respects more fuel in both parts. -/
theorem Approx.bind {x y : Outcome α} {f g : α → Outcome β} (h : Approx x y)
    (hf : ∀ a, Approx (f a) (g a)) : Approx (x >>= f) (y >>= g) := by
  rcases h with rfl | rfl
  · exact Or.inl rfl
  · cases x with
    | error e => exact Approx.refl _
    | ok a => exact hf a

/-- INTERNAL: a branch respects more fuel. -/
theorem Approx.ite {p : Prop} [Decidable p] {x y x' y' : Outcome α} (h : Approx x y)
    (h' : Approx x' y') : Approx (if p then x else x') (if p then y else y') := by
  split_ifs
  · exact h
  · exact h'

/-- INTERNAL: a loop over a list respects more fuel. -/
theorem Approx.foldlM {f g : β → α → Outcome β} (h : ∀ b a, Approx (f b a) (g b a))
    (l : List α) (b : β) : Approx (l.foldlM f b) (l.foldlM g b) := by
  induction l generalizing b with
  | nil => exact Approx.refl _
  | cons a l ih => exact Approx.bind (h b a) fun b' => ih b'

/-- INTERNAL: two loops over a list agree as long as an invariant holds. -/
theorem foldlM_eq_of_inv {f g : β → α → Outcome β} {l : List α} {b : β} (Inv : β → Prop)
    (h : Inv b) (hstep : ∀ b, ∀ a ∈ l, Inv b → f b a = g b a ∧ ∀ b', g b a = .ok b' → Inv b') :
    l.foldlM f b = l.foldlM g b := by
  induction l generalizing b with
  | nil => rfl
  | cons a l ih =>
    obtain ⟨e, hinv⟩ := hstep b a List.mem_cons_self h
    rw [List.foldlM_cons, List.foldlM_cons, e]
    cases hg : g b a with
    | error e => rfl
    | ok b' => exact ih (hinv b' hg) fun b a ha => hstep b a (List.mem_cons_of_mem _ ha)

/-- INTERNAL: a loop over a list goes where its rounds go. -/
theorem foldlM_trans {R : β → β → Prop} (hrefl : ∀ b, R b b)
    (htrans : ∀ {b₁ b₂ b₃}, R b₁ b₂ → R b₂ b₃ → R b₁ b₃) {f : β → α → Outcome β}
    (h : ∀ {b a b'}, f b a = .ok b' → R b b') {l : List α} {b b' : β}
    (e : l.foldlM f b = .ok b') : R b b' := by
  induction l generalizing b with
  | nil => exact Except.ok.inj e ▸ hrefl b
  | cons a l ih =>
    rw [List.foldlM_cons] at e
    obtain ⟨b₁, e₁, e₂⟩ := bind_eq_ok.mp e
    exact htrans (h e₁) (ih e₂)

/-- INTERNAL: a function that returns with enough fuel never goes wrong with less. -/
theorem Approx.ne_error {x y : Outcome α} {a : α} {e : Fault} (h : Approx x y) (hy : y = .ok a)
    (he : e ≠ .outOfFuel) : x ≠ .error e := by
  rintro rfl
  rcases h with h | h
  · exact he (Except.error.inj h)
  · exact nomatch h.trans hy

/-- INTERNAL: one unit more at a time is enough. -/
theorem Approx.of_succ {f : ℕ → Outcome α} (h : ∀ n, Approx (f n) (f (n + 1))) {n k : ℕ}
    (hnk : n ≤ k) : Approx (f n) (f k) := by
  induction k, hnk using Nat.le_induction with
  | base => exact Approx.refl _
  | succ k _ ih =>
    rcases ih with ih | ih
    · exact Or.inl ih
    · rcases h k with hk | hk
      · exact Or.inl (ih.trans hk)
      · exact Or.inr (ih.trans hk)

/-- The loop `f` returns `a` after at most `n` rounds, and does nothing wrong before. -/
def EndsWithin (n : ℕ) (f : ℕ → Outcome α) (a : α) : Prop :=
  (∀ k, n ≤ k → f k = .ok a) ∧ ∀ k e, f k = .error e → e = .outOfFuel

/-- INTERNAL: a loop that returns once returns in the same way with more fuel. -/
theorem EndsWithin.of_ok {f : ℕ → Outcome α} (h : ∀ n, Approx (f n) (f (n + 1))) {n : ℕ} {a : α}
    (hn : f n = .ok a) : EndsWithin n f a := by
  refine ⟨fun k hk => (Approx.of_succ h hk).eq_ok hn, fun k e hk => ?_⟩
  by_contra he
  rcases Nat.le_total n k with hnk | hkn
  · rw [(Approx.of_succ h hnk).eq_ok hn] at hk
    cases hk
  · exact (Approx.of_succ h hkn).ne_error hn he hk

end Outcome

end Ming.Foundation
