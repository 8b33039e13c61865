import Mathlib.Algebra.Order.Ring.Int
import Mathlib.Algebra.Ring.Nat
import Mathlib.Data.Nat.ModEq

/-!
# Rounding up to a power of two

The next multiple of an alignment, once for naturals and once as a machine word computes it: an
addition that may wrap, and the low bits cleared.
-/

set_option autoImplicit false

namespace Ming.Foundation

variable {w n m a k : ℕ}

/-! ## Naturals -/

/-- The least multiple of `a` that is not below `n`. -/
def roundUp (n a : ℕ) : ℕ := (n + (a - 1)) / a * a

/-- INTERNAL: what is rounded up is a multiple. -/
theorem dvd_roundUp (n a : ℕ) : a ∣ roundUp n a := Nat.dvd_mul_left a _

/-- INTERNAL: rounding up makes nothing smaller. -/
theorem le_roundUp (ha : 0 < a) : n ≤ roundUp n a := by
  have hdiv := Nat.div_add_mod' (n + (a - 1)) a
  have hmod := Nat.mod_lt (n + (a - 1)) ha
  rw [roundUp]
  omega

/-- INTERNAL: rounding up adds less than the alignment. -/
theorem roundUp_lt (ha : 0 < a) : roundUp n a < n + a := by
  have hle := Nat.div_mul_le_self (n + (a - 1)) a
  rw [roundUp]
  omega

/-- INTERNAL: it is the least one. -/
theorem roundUp_le (hm : a ∣ m) (h : n ≤ m) : roundUp n a ≤ m := by
  obtain ⟨q, rfl⟩ := hm
  rcases Nat.eq_zero_or_pos a with rfl | ha
  · simp [roundUp]
  · have hlt : (n + (a - 1)) / a < q + 1 := by
      rw [Nat.div_lt_iff_lt_mul ha, Nat.succ_mul, Nat.mul_comm q a]
      omega
    rw [roundUp, Nat.mul_comm a q]
    exact Nat.mul_le_mul_right a (Nat.le_of_lt_succ hlt)

/-- INTERNAL: a multiple stays. -/
theorem roundUp_of_dvd (h : a ∣ n) : roundUp n a = n := by
  rcases Nat.eq_zero_or_pos a with rfl | ha
  · rw [Nat.eq_zero_of_zero_dvd h]
    rfl
  · exact Nat.le_antisymm (roundUp_le h le_rfl) (le_roundUp ha)

/-- INTERNAL: a multiple may be added before or after the rounding. -/
theorem roundUp_add (h : a ∣ m) : roundUp (n + m) a = roundUp n a + m := by
  obtain ⟨q, rfl⟩ := h
  rcases Nat.eq_zero_or_pos a with rfl | ha
  · simp [roundUp]
  · have hsum : n + a * q + (a - 1) = n + (a - 1) + a * q := by omega
    rw [roundUp, roundUp, hsum, Nat.add_mul_div_left _ _ ha, Nat.add_mul, Nat.mul_comm q a]

/-! ## Machine words -/

/-- `(n + a - 1) & ~(a - 1)` -/
def alignUp (n a : BitVec w) : BitVec w := (n + a - 1) &&& ~~~(a - 1)

/-- INTERNAL: the low bits cleared. -/
theorem toNat_clear_low (x : BitVec w) (k : ℕ) :
    (x &&& ~~~(BitVec.ofNat w (2 ^ k - 1))).toNat = x.toNat / 2 ^ k * 2 ^ k := by
  have hshift : x &&& ~~~(BitVec.ofNat w (2 ^ k - 1)) = (x >>> k) <<< k := by
    apply BitVec.eq_of_getLsbD_eq
    intro i hi
    rw [BitVec.getLsbD_and, BitVec.getLsbD_not, BitVec.getLsbD_ofNat,
      Nat.testBit_two_pow_sub_one, BitVec.getLsbD_shiftLeft, BitVec.getLsbD_ushiftRight]
    by_cases hik : i < k
    · simp [hik, hi]
    · simp [hik, hi, Nat.add_sub_cancel' (Nat.not_lt.mp hik)]
  have hlt : x.toNat / 2 ^ k * 2 ^ k < 2 ^ w :=
    lt_of_le_of_lt (Nat.div_mul_le_self _ _) x.isLt
  rw [hshift, BitVec.toNat_shiftLeft, BitVec.toNat_ushiftRight, Nat.shiftLeft_eq,
    Nat.shiftRight_eq_div_pow, Nat.mod_eq_of_lt hlt]

/-- INTERNAL: the mask of an alignment. -/
theorem ofNat_two_pow_sub_one (k : ℕ) :
    BitVec.ofNat w (2 ^ k) - 1 = BitVec.ofNat w (2 ^ k - 1) := by
  rw [BitVec.sub_eq_iff_eq_add, show (1 : BitVec w) = BitVec.ofNat w 1 from rfl,
    ← BitVec.ofNat_add, Nat.sub_add_cancel (Nat.two_pow_pos k)]

/-- INTERNAL: the bits of a word whose low bits are cleared. -/
theorem getLsbD_clear_low (x : BitVec w) (k i : ℕ) :
    (x &&& ~~~(BitVec.ofNat w (2 ^ k) - 1)).getLsbD i = (x.getLsbD i && decide (k ≤ i)) := by
  rw [ofNat_two_pow_sub_one, BitVec.getLsbD_and, BitVec.getLsbD_not, BitVec.getLsbD_ofNat,
    Nat.testBit_two_pow_sub_one]
  by_cases hi : i < w
  · by_cases hik : i < k
    · simp [hi, hik]
    · simp [hi, hik, Nat.not_lt.mp hik]
  · simp [hi, BitVec.getLsbD_of_ge x i (Nat.not_lt.mp hi)]

/-- INTERNAL: what a machine word computes, also when the addition wraps. -/
theorem toNat_alignUp (x : BitVec w) (k : ℕ) : (alignUp x (BitVec.ofNat w (2 ^ k))).toNat =
    (x.toNat + (2 ^ k - 1)) % 2 ^ w / 2 ^ k * 2 ^ k := by
  have hone := ofNat_two_pow_sub_one (w := w) k
  have hadd : x + BitVec.ofNat w (2 ^ k) - 1 = x + BitVec.ofNat w (2 ^ k - 1) := by
    rw [← hone, BitVec.sub_eq_add_neg, BitVec.sub_eq_add_neg, BitVec.add_assoc]
  rw [alignUp, hadd, hone, toNat_clear_low, BitVec.toNat_add, BitVec.toNat_ofNat,
    Nat.add_mod_mod]

/-- INTERNAL: without a wrap it is the rounding of naturals. -/
theorem toNat_alignUp_of_lt {x : BitVec w} (h : x.toNat + (2 ^ k - 1) < 2 ^ w) :
    (alignUp x (BitVec.ofNat w (2 ^ k))).toNat = roundUp x.toNat (2 ^ k) := by
  rw [toNat_alignUp, Nat.mod_eq_of_lt h, roundUp]

end Ming.Foundation
