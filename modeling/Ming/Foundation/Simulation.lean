import Mathlib.Data.List.Induction
import Ming.Foundation.Outcome
import Ming.Foundation.Runs

/-!
# Simulation

Two programs are related step by step: both return and the results are related, or neither
returns. The rule for sequencing carries the relation through a program, and the rule for runs
carries it from one step to all states of a run.
-/

set_option autoImplicit false

namespace Ming.Foundation

section Outcomes

variable {α β γ δ : Type} {R : α → β → Prop} {S : γ → δ → Prop}

/-- Both return, with related values, or neither returns. -/
inductive Outcome.Rel (R : α → β → Prop) : Outcome α → Outcome β → Prop where
  | ok {a b} (h : R a b) : Outcome.Rel R (.ok a) (.ok b)
  | error (e e' : Fault) : Outcome.Rel R (.error e) (.error e')

namespace Outcome

variable {x : Outcome α} {y : Outcome β} {a : α} {b : β}

/-- INTERNAL: a result on the left has one on the right. -/
theorem Rel.eq_ok_left (h : Rel R x y) (hx : x = .ok a) : ∃ b, y = .ok b ∧ R a b := by
  subst hx
  cases h with
  | ok h => exact ⟨_, rfl, h⟩

/-- INTERNAL: a result on the right has one on the left. -/
theorem Rel.eq_ok_right (h : Rel R x y) (hy : y = .ok b) : ∃ a, x = .ok a ∧ R a b := by
  subst hy
  cases h with
  | ok h => exact ⟨_, rfl, h⟩

/-- INTERNAL: related programs in sequence. What follows may rely on the results that were
returned. -/
theorem Rel.bind {f : α → Outcome γ} {g : β → Outcome δ} (h : Rel R x y)
    (hfg : ∀ a b, R a b → x = .ok a → y = .ok b → Rel S (f a) (g b)) :
    Rel S (x >>= f) (y >>= g) := by
  cases h with
  | error e e' => exact Rel.error e e'
  | ok h => exact hfg _ _ h rfl rfl

/-- INTERNAL: a weaker relation of the results. -/
theorem Rel.mono {R' : α → β → Prop} (h : Rel R x y)
    (hR : ∀ a b, R a b → x = .ok a → y = .ok b → R' a b) : Rel R' x y := by
  cases h with
  | error e e' => exact Rel.error e e'
  | ok h => exact Rel.ok (hR _ _ h rfl rfl)

/-- INTERNAL: two programs that begin in the same way. -/
theorem Rel.bind_same {f : α → Outcome γ} {g : α → Outcome δ}
    (hfg : ∀ a, x = .ok a → Rel S (f a) (g a)) : Rel S (x >>= f) (x >>= g) := by
  cases x with
  | error e => exact Rel.error e e
  | ok a => exact hfg a rfl

/-- INTERNAL: two computations that do not return. -/
theorem Rel.of_not_ok (hx : ∀ a, x ≠ .ok a) (hy : ∀ b, y ≠ .ok b) : Rel R x y := by
  cases x with
  | ok a => exact absurd rfl (hx a)
  | error e =>
    cases y with
    | ok b => exact absurd rfl (hy b)
    | error e' => exact Rel.error e e'

/-- INTERNAL: two branches on the same condition. -/
theorem Rel.ite {p : Prop} [Decidable p] {x' : Outcome α} {y' : Outcome β} (h : p → Rel R x y)
    (h' : ¬ p → Rel R x' y') : Rel R (if p then x else x') (if p then y else y') := by
  split_ifs with hp
  · exact h hp
  · exact h' hp

/-! ## Loops with enough rounds -/

variable {f : ℕ → Outcome α}

/-- `f n` is the first program with its loops unfolded `n` times. With enough rounds both
programs return, with related values, or neither returns. -/
inductive RelFrom (R : α → β → Prop) (f : ℕ → Outcome α) (y : Outcome β) : Prop where
  | ok {v w} (rounds : ℕ) (hx : ∀ n ≥ rounds, f n = .ok v) (hy : y = .ok w) (h : R v w)
  | error (rounds : ℕ) (hx : ∀ n ≥ rounds, ∀ v, f n ≠ .ok v) (hy : ∀ w, y ≠ .ok w)

/-- INTERNAL: computations without fuel. -/
theorem Rel.from (h : Rel R x y) : RelFrom R (fun _ => x) y := by
  cases h with
  | ok h => exact RelFrom.ok 0 (fun _ _ => rfl) rfl h
  | error e e' => exact RelFrom.error 0 (fun _ _ _ => nofun) fun _ => nofun

/-- INTERNAL: a result on the right has one on the left, with enough fuel. -/
theorem RelFrom.eq_ok_right (h : RelFrom R f y) (hy : y = .ok b) :
    ∃ a rounds, (∀ n ≥ rounds, f n = .ok a) ∧ R a b := by
  cases h with
  | ok rounds hx hy' h =>
    obtain rfl := Except.ok.inj (hy'.symm.trans hy)
    exact ⟨_, rounds, hx, h⟩
  | error rounds hx hy' => exact absurd hy (hy' b)

/-- INTERNAL: a result with enough fuel has one on the right. -/
theorem RelFrom.eq_ok_left {rounds : ℕ} (h : RelFrom R f y) (hf : ∀ n ≥ rounds, f n = .ok a) :
    ∃ b, y = .ok b ∧ R a b := by
  cases h with
  | ok rounds' hx hy h =>
    have he := (hf _ (le_max_left rounds rounds')).symm.trans (hx _ (le_max_right _ _))
    obtain rfl := Except.ok.inj he
    exact ⟨_, hy, h⟩
  | error rounds' hx hy =>
    exact absurd (hf _ (le_max_left rounds rounds')) (hx _ (le_max_right _ _) a)

/-- INTERNAL: a weaker relation of the results. -/
theorem RelFrom.mono {R' : α → β → Prop} (h : RelFrom R f y)
    (hR : ∀ a b, R a b → y = .ok b → R' a b) : RelFrom R' f y := by
  cases h with
  | ok rounds hx hy h => exact RelFrom.ok rounds hx hy (hR _ _ h hy)
  | error rounds hx hy => exact RelFrom.error rounds hx hy

/-- INTERNAL: related programs in sequence, each with enough rounds. -/
theorem RelFrom.bind {g : ℕ → α → Outcome γ} {k : β → Outcome δ} (h : RelFrom R f y)
    (hgk : ∀ a b, R a b → y = .ok b → RelFrom S (fun n => g n a) (k b)) :
    RelFrom S (fun n => f n >>= g n) (y >>= k) := by
  cases h with
  | @ok a b rounds hx hy h =>
    subst hy
    rcases hgk a b h rfl with ⟨rounds', hx', hy', h'⟩ | ⟨rounds', hx', hy'⟩
    · refine RelFrom.ok (max rounds rounds') (fun n hn => ?_) hy' h'
      rw [hx n (le_trans (le_max_left _ _) hn)]
      exact hx' n (le_trans (le_max_right _ _) hn)
    · refine RelFrom.error (max rounds rounds') (fun n hn c => ?_) hy'
      rw [hx n (le_trans (le_max_left _ _) hn)]
      exact hx' n (le_trans (le_max_right _ _) hn) c
  | error rounds hx hy =>
    refine RelFrom.error rounds (fun n hn c e => ?_) fun d e => ?_
    · obtain ⟨a, ha, -⟩ := bind_eq_ok.mp e
      exact hx n hn a ha
    · obtain ⟨b, hb, -⟩ := bind_eq_ok.mp e
      exact hy b hb

end Outcome

end Outcomes

section Runs

variable {σ τ ι : Type} {init : σ → Prop} {step : σ → ι → σ → Prop}
variable {labels : List ι} {s : ℕ → σ}

/-- INTERNAL: a run without its last step. -/
theorem Run.dropLast {a : ι} (h : Run init step (labels ++ [a]) s) :
    Run init step labels s ∧ step (s labels.length) a (s (labels.length + 1)) := by
  refine ⟨⟨h.init, fun i hi => ?_⟩, ?_⟩
  · have hs := h.step i (by rw [List.length_append]; omega)
    rwa [List.getElem_append_left hi] at hs
  · have hs := h.step labels.length (by simp)
    rwa [List.getElem_append_right (Nat.le_refl _), List.getElem_singleton] at hs

/-- INTERNAL: **forward simulation of a run.** Every run has a run of the other system beside
it, with the same labels and related states. -/
theorem Run.simulate (init' : τ → Prop) (step' : τ → ι → τ → Prop) (R : σ → τ → Prop)
    (h0 : ∀ s, init s → ∃ t, init' t ∧ R s t)
    (hstep : ∀ s t a s', R s t → step s a s' → ∃ t', step' t a t' ∧ R s' t')
    (h : Run init step labels s) :
    ∃ t, Run init' step' labels t ∧ ∀ n ≤ labels.length, R (s n) (t n) := by
  induction labels using List.reverseRecOn with
  | nil =>
    obtain ⟨t, ht, hR⟩ := h0 _ h.init
    refine ⟨fun _ => t, Run.nil ht, fun n hn => ?_⟩
    rwa [Nat.le_zero.mp hn]
  | append_singleton labels a ih =>
    obtain ⟨hrun, hlast⟩ := h.dropLast
    obtain ⟨t, ht, hR⟩ := ih hrun
    obtain ⟨t', ht', hR'⟩ := hstep _ _ _ _ (hR _ le_rfl) hlast
    refine ⟨_, ht.snoc ht', fun n hn => ?_⟩
    by_cases hle : n ≤ labels.length
    · rw [if_pos hle]
      exact hR n hle
    · have hn' : n = labels.length + 1 := by
        rw [List.length_append, List.length_singleton] at hn
        omega
      rw [if_neg hle, hn']
      exact hR'

end Runs

end Ming.Foundation
