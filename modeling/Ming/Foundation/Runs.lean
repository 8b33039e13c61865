import Mathlib.Data.List.Basic
import Mathlib.Data.List.TakeDrop

/-!
# Runs of a labelled transition relation

A run is a list of labels with the states between them. An invariant that may mention the
labels so far is proved of a whole run from its first state and one step. When every step
that meets a condition keeps the invariant, and every step that does not meet it destroys a
property that the invariant implies, then the property holds in all states of a run exactly
when all its steps meet the condition.
-/

set_option autoImplicit false

namespace Ming.Foundation

variable {σ ι : Type}

/-- The states `s 0, s 1, …` of a run with the given labels. -/
structure Run (init : σ → Prop) (step : σ → ι → σ → Prop) (labels : List ι) (s : ℕ → σ) :
    Prop where
  init : init (s 0)
  step : ∀ (i : ℕ) (h : i < labels.length), step (s i) labels[i] (s (i + 1))

variable {init : σ → Prop} {step : σ → ι → σ → Prop} {labels : List ι} {s : ℕ → σ}

/-- INTERNAL: a run without steps. -/
theorem Run.nil {s₀ : σ} (h : init s₀) : Run init step [] fun _ => s₀ :=
  ⟨h, fun _ hi => absurd hi (Nat.not_lt_zero _)⟩

/-- INTERNAL: a run with one more step. -/
theorem Run.snoc (h : Run init step labels s) {a : ι} {s' : σ} (hs : step (s labels.length) a s') :
    Run init step (labels ++ [a]) fun i => if i ≤ labels.length then s i else s' := by
  refine ⟨by rw [if_pos (Nat.zero_le _)]; exact h.init, fun i hi => ?_⟩
  rw [List.length_append, List.length_singleton] at hi
  rw [if_pos (Nat.le_of_lt_succ hi)]
  rcases Nat.lt_or_eq_of_le (Nat.le_of_lt_succ hi) with hlt | rfl
  · rw [if_pos (Nat.succ_le_of_lt hlt), List.getElem_append_left hlt]
    exact h.step i hlt
  · rw [if_neg (Nat.not_succ_le_self _), List.getElem_append_right (Nat.le_refl _)]
    simpa using hs

/-- INTERNAL: a run with one more step at its beginning. -/
theorem Run.cons {a : ι} {s₀ s₁ : σ} {l : List ι} {r : ℕ → σ} (h0 : init s₀) (hs : step s₀ a s₁)
    (h : Run (fun x => x = s₁) step l r) :
    Run init step (a :: l) fun i => if i = 0 then s₀ else r (i - 1) := by
  refine ⟨by rw [if_pos rfl]; exact h0, fun i hi => ?_⟩
  cases i with
  | zero =>
    have hr := h.init
    simpa [hr] using hs
  | succ i => simpa using h.step i (Nat.lt_of_succ_lt_succ hi)

/-- INTERNAL: as long as the steps meet the condition, the invariant holds. -/
theorem Run.inv_of (Inv : List ι → σ → Prop) (C : List ι → σ → ι → Prop)
    (h0 : ∀ s, init s → Inv [] s)
    (hC : ∀ l s a s', Inv l s → step s a s' → C l s a → Inv (l ++ [a]) s')
    (h : Run init step labels s) (n : ℕ) (hn : n ≤ labels.length)
    (hall : ∀ i (hi : i < labels.length), i < n → C (labels.take i) (s i) labels[i]) :
    Inv (labels.take n) (s n) := by
  induction n with
  | zero => exact h0 _ h.init
  | succ n ih =>
    have hlt : n < labels.length := by omega
    rw [List.take_succ_eq_append_getElem hlt]
    exact hC _ _ _ _ (ih (by omega) fun i hi hin => hall i hi (by omega)) (h.step n hlt)
      (hall n hlt (by omega))

/-- INTERNAL: an invariant that every step keeps. -/
theorem Run.inv (Inv : List ι → σ → Prop) (h0 : ∀ s, init s → Inv [] s)
    (hstep : ∀ l s a s', Inv l s → step s a s' → Inv (l ++ [a]) s')
    (h : Run init step labels s) (n : ℕ) (hn : n ≤ labels.length) :
    Inv (labels.take n) (s n) :=
  h.inv_of Inv (fun _ _ _ => True) h0 (fun l s a s' hi hs _ => hstep l s a s' hi hs) n hn
    fun _ _ _ => trivial

/-- INTERNAL: the property holds in all states exactly when all steps meet the condition. -/
theorem Run.forall_iff (Inv : List ι → σ → Prop) {P : List ι → σ → Prop}
    {C : List ι → σ → ι → Prop}
    (h0 : ∀ s, init s → Inv [] s) (hP : ∀ l s, Inv l s → P l s)
    (hC : ∀ l s a s', Inv l s → step s a s' → C l s a → Inv (l ++ [a]) s')
    (hN : ∀ l s a s', Inv l s → step s a s' → ¬ C l s a → ¬ P (l ++ [a]) s')
    (h : Run init step labels s) :
    (∀ n, n ≤ labels.length → P (labels.take n) (s n)) ↔
      ∀ i (hi : i < labels.length), C (labels.take i) (s i) labels[i] := by
  constructor
  · intro hall i
    induction i using Nat.strongRecOn with
    | ind i ih =>
      intro hi
      by_contra hbad
      have hinv := h.inv_of Inv C h0 hC i (Nat.le_of_lt hi) fun j hj hji => ih j hji hj
      refine hN _ _ _ _ hinv (h.step i hi) hbad ?_
      rw [← List.take_succ_eq_append_getElem hi]
      exact hall (i + 1) hi
  · intro hall n hn
    exact hP _ _ (h.inv_of Inv C h0 hC n hn fun i hi _ => hall i hi)

end Ming.Foundation
