import Mathlib.Data.BitVec
import Mathlib.Data.Nat.Bitwise

/-!
# Fields packed into a machine word

A word of `w` bits holds fields of `k` bits each, field `i` at the bits from `k * i` on.
A field is read by a shift and a mask, and written by clearing its bits and or-ing the
new ones in. The word is zero exactly when all its fields are.
-/

set_option autoImplicit false

namespace Ming.Foundation

variable {w k : ℕ}

/-- The mask of the lowest field. -/
def fieldMask (w k : ℕ) : BitVec w := BitVec.ofNat w (2 ^ k - 1)

/-- Field `i` of a word. -/
def getField (k : ℕ) (x : BitVec w) (i : ℕ) : BitVec w := (x >>> (k * i)) &&& fieldMask w k

/-- The word with field `i` overwritten. -/
def setField (k : ℕ) (x : BitVec w) (i : ℕ) (v : BitVec w) : BitVec w :=
  (x &&& ~~~(fieldMask w k <<< (k * i))) ||| (v <<< (k * i))

/-- INTERNAL: the bits of a mask. -/
theorem getLsbD_fieldMask (w k j : ℕ) :
    (fieldMask w k).getLsbD j = (decide (j < w) && decide (j < k)) := by
  simp [fieldMask, BitVec.getLsbD_ofNat, Nat.testBit_two_pow_sub_one]

/-- INTERNAL: the bits of a field. -/
theorem getLsbD_getField (x : BitVec w) (i j : ℕ) :
    (getField k x i).getLsbD j = (decide (j < w) && decide (j < k) && x.getLsbD (k * i + j)) := by
  rw [getField, BitVec.getLsbD_and, getLsbD_fieldMask, BitVec.getLsbD_ushiftRight, Bool.and_comm]

/-- INTERNAL: the bits of a word after one field was written. -/
theorem getLsbD_setField (x v : BitVec w) (i j : ℕ) :
    (setField k x i v).getLsbD j =
      (decide (j < w) && (if k * i ≤ j ∧ j < k * i + k then v.getLsbD (j - k * i)
        else x.getLsbD j || (decide (k * i ≤ j) && v.getLsbD (j - k * i)))) := by
  rw [setField, BitVec.getLsbD_or, BitVec.getLsbD_and, BitVec.getLsbD_not,
    BitVec.getLsbD_shiftLeft, BitVec.getLsbD_shiftLeft, getLsbD_fieldMask]
  by_cases hj : j < w
  · by_cases hlo : k * i ≤ j
    · have h1 : ¬ j < k * i := by omega
      have h2 : j - k * i < w := by omega
      by_cases hhi : j < k * i + k
      · have h3 : j - k * i < k := by omega
        simp [hj, hlo, hhi, h1, h2, h3]
      · have h3 : ¬ j - k * i < k := by omega
        simp [hj, hlo, hhi, h1, h2, h3]
    · have h1 : j < k * i := by omega
      simp [hj, hlo, h1]
  · simp [hj]

/-- INTERNAL: a value that fits has no higher bits. -/
theorem getLsbD_of_fits {v : BitVec w} (hv : v &&& fieldMask w k = v) {j : ℕ} (hj : k ≤ j) :
    v.getLsbD j = false := by
  rw [← hv, BitVec.getLsbD_and, getLsbD_fieldMask, decide_eq_false (by omega : ¬ j < k)]
  simp

/-- INTERNAL: a field that was written reads back. -/
theorem getField_setField_same {x v : BitVec w} {i : ℕ} (hi : k * i + k ≤ w)
    (hv : v &&& fieldMask w k = v) : getField k (setField k x i v) i = v := by
  refine BitVec.eq_of_getLsbD_eq fun j hj => ?_
  rw [getLsbD_getField, getLsbD_setField]
  by_cases hjk : j < k
  · have h1 : k * i + j < w := by omega
    simp [hj, hjk, h1]
  · simp [hjk, getLsbD_of_fits hv (Nat.le_of_not_lt hjk)]

/-- INTERNAL: writing one field leaves the others. -/
theorem getField_setField_ne {x v : BitVec w} {i j : ℕ} (hj : k * j + k ≤ w)
    (hv : v &&& fieldMask w k = v) (hij : i ≠ j) :
    getField k (setField k x i v) j = getField k x j := by
  refine BitVec.eq_of_getLsbD_eq fun b hb => ?_
  rw [getLsbD_getField, getLsbD_getField, getLsbD_setField]
  by_cases hbk : b < k
  · have h1 : k * j + b < w := by omega
    rcases Nat.lt_or_gt_of_ne hij with h | h
    · -- the written field lies below, so the or-ed value has no bit left here
      have hstep : k * i + k ≤ k * j := by
        rw [← Nat.mul_succ]
        exact Nat.mul_le_mul_left k h
      have h2 : ¬ k * j + b < k * i + k := by omega
      rw [if_neg (fun h => h2 h.2), getLsbD_of_fits hv (by omega : k ≤ k * j + b - k * i)]
      simp [hb, h1]
    · have hstep : k * j + k ≤ k * i := by
        rw [← Nat.mul_succ]
        exact Nat.mul_le_mul_left k h
      have h2 : ¬ k * i ≤ k * j + b := by omega
      simp [hb, h1, h2]
  · simp [hbk]

/-- INTERNAL: a field fits. -/
theorem getField_fits (x : BitVec w) (i : ℕ) :
    getField k x i &&& fieldMask w k = getField k x i := by
  rw [getField, BitVec.and_assoc, BitVec.and_self]

/-- INTERNAL: writing a field back changes nothing. -/
theorem setField_getField (x : BitVec w) (i : ℕ) : setField k x i (getField k x i) = x := by
  refine BitVec.eq_of_getLsbD_eq fun j hj => ?_
  rw [getLsbD_setField, getLsbD_getField]
  by_cases hlo : k * i ≤ j
  · rw [Nat.add_sub_cancel' hlo]
    have h2 : j - k * i < w := by omega
    by_cases hhi : j < k * i + k
    · have h3 : j - k * i < k := by omega
      simp [hj, hlo, hhi, h2, h3]
    · simp [hj, hhi]
  · simp [hj, hlo]

/-- INTERNAL: the fields of an empty word. -/
@[simp] theorem getField_zero (k i : ℕ) : getField k (0 : BitVec w) i = 0 := by
  simp [getField]

/-- INTERNAL: the fields of a shifted word. -/
theorem getField_shiftRight (x : BitVec w) (i j : ℕ) :
    getField k (x >>> (k * i)) j = getField k x (i + j) := by
  rw [getField, getField, ← BitVec.shiftRight_add, Nat.mul_add]

end Ming.Foundation
