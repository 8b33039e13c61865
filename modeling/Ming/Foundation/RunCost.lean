import Mathlib.Algebra.BigOperators.Group.List.Basic
import Mathlib.Algebra.Ring.Nat
import Ming.Foundation.Runs

/-!
# The cost of a run

Every step has a cost that depends on its label and on the state before it, and every label has
a budget. When a potential of the states makes up for the difference in each step, the cost of
a whole run is at most its budget.
-/

set_option autoImplicit false

namespace Ming.Foundation

variable {σ ι : Type}

/-- The cost of the steps with the given labels. -/
def runCost (cost : σ → ι → ℕ) (s : ℕ → σ) (labels : List ι) : ℕ :=
  (labels.zipIdx.map fun a => cost (s a.2) a.1).sum

variable {init : σ → Prop} {step : σ → ι → σ → Prop} {labels : List ι} {s : ℕ → σ}
variable {cost : σ → ι → ℕ} {budget : ι → ℕ}

/-- INTERNAL: the cost of a run with one more step. -/
theorem runCost_append (a : ι) : runCost cost s (labels ++ [a]) =
    runCost cost s labels + cost (s labels.length) a := by
  rw [runCost, runCost, List.zipIdx_append, List.map_append, List.sum_append, Nat.zero_add]
  simp

/-- INTERNAL: **a potential pays for the expensive steps**. -/
theorem Run.cost_le (h : Run init step labels s) (Inv : σ → Prop) (potential : σ → ℕ)
    (h0 : ∀ s, init s → Inv s) (hzero : ∀ s, init s → potential s = 0)
    (hinv : ∀ s a s', Inv s → step s a s' → Inv s')
    (hcost : ∀ s a s', Inv s → step s a s' →
      cost s a + potential s' ≤ budget a + potential s)
    (n : ℕ) (hn : n ≤ labels.length) :
    runCost cost s (labels.take n) + potential (s n) ≤ ((labels.take n).map budget).sum := by
  induction n with
  | zero => simp [runCost, hzero _ h.init]
  | succ n ih =>
    have hlt : n < labels.length := hn
    have hle : n ≤ labels.length := Nat.le_of_lt hlt
    have hlen : (labels.take n).length = n := List.length_take_of_le hle
    have hi : Inv (s n) := h.inv (fun _ s => Inv s) h0 (fun _ _ _ _ => hinv _ _ _) n hle
    have hstep := hcost _ _ _ hi (h.step n hlt)
    have hbefore := ih hle
    rw [List.take_succ_eq_append_getElem hlt, runCost_append, hlen, List.map_append,
      List.sum_append, List.map_singleton, List.sum_singleton]
    omega

end Ming.Foundation
