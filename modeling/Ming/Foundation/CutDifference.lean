import Mathlib.Algebra.Ring.Nat
import Mathlib.Data.BitVec
import Mathlib.Data.Set.Function

/-!
# Cut differences of words

The difference of two words, cut to its low `n` bits and read as a signed number. On keys whose
low words lie in one window of half the range it is the difference of two places in the window;
outside such a window it wraps around.
-/

set_option autoImplicit false

namespace Ming.Foundation

variable {w n : ℕ} {a b : BitVec w} {c : BitVec n}

/-- The low `n` bits of the difference of two words, as a signed number. -/
def cutDiff (n : ℕ) (a b : BitVec w) : ℤ := ((a - b).setWidth n).toInt

/-- How far the low word of `a` lies above `c`. -/
def offset (c : BitVec n) (a : BitVec w) : ℕ := (a.setWidth n - c).toNat

/-- The words whose low word lies in the half of the range that starts at `c`. -/
def InWindow (c : BitVec n) (a : BitVec w) : Prop := 2 * offset c a < 2 ^ n

/-- Words with different low words, which all lie in one half of the range. -/
def HalfWindow (n : ℕ) (U : Set (BitVec w)) : Prop :=
  Set.InjOn (BitVec.setWidth n) U ∧ ∃ c : BitVec n, ∀ a ∈ U, InWindow c a

/-- INTERNAL: cutting commutes with a difference. -/
theorem setWidth_sub (h : n ≤ w) (a b : BitVec w) :
    (a - b).setWidth n = a.setWidth n - b.setWidth n := by
  rw [BitVec.sub_eq_add_neg, BitVec.setWidth_add _ _ h, BitVec.setWidth_neg_of_le h,
    ← BitVec.sub_eq_add_neg]

/-- INTERNAL: the offset tells the cut words apart. -/
theorem offset_injective {a b : BitVec w} (h : offset c a = offset c b) :
    a.setWidth n = b.setWidth n :=
  sub_left_injective (BitVec.eq_of_toNat_eq h)

/-- INTERNAL: the difference is zero exactly when the cut words are equal. -/
theorem cutDiff_eq_zero (h : n ≤ w) : cutDiff n a b = 0 ↔ a.setWidth n = b.setWidth n := by
  unfold cutDiff
  rw [setWidth_sub h, ← sub_eq_zero (a := a.setWidth n), ← BitVec.toInt_zero (w := n)]
  exact BitVec.toInt_inj

/-- INTERNAL: in a window the cut difference is the difference of the offsets. -/
theorem cutDiff_eq_offset (h : n ≤ w) (ha : InWindow c a) (hb : InWindow c b) :
    cutDiff n a b = (offset c a : ℤ) - offset c b := by
  have hsub : a.setWidth n - b.setWidth n = (a.setWidth n - c) - (b.setWidth n - c) :=
    (sub_sub_sub_cancel_right _ _ c).symm
  unfold cutDiff
  rw [setWidth_sub h, hsub, BitVec.toInt_sub, BitVec.toInt_eq_toNat_of_lt ha,
    BitVec.toInt_eq_toNat_of_lt hb]
  unfold InWindow at ha hb
  apply Int.bmod_eq_of_le_mul_two
  · change -((2 ^ n : ℕ) : ℤ) ≤ ((offset c a : ℤ) - offset c b) * 2
    omega
  · change ((offset c a : ℤ) - offset c b) * 2 < ((2 ^ n : ℕ) : ℤ)
    omega

/-- INTERNAL: a difference that is not negative lies in the window. -/
theorem inWindow_of_cutDiff (h : n ≤ w) (hab : 0 ≤ cutDiff n a b) : InWindow (b.setWidth n) a := by
  unfold cutDiff at hab
  rw [setWidth_sub h] at hab
  exact BitVec.toInt_pos_iff.mp hab

end Ming.Foundation
