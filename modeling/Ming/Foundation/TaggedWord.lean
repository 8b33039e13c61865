import Mathlib.Algebra.Order.Ring.Int
import Mathlib.Algebra.Ring.Nat

/-!
# Words with a tag in masked bits

A word whose masked bits are clear carries a tag in them: the tag is read through the mask and
the word through its complement. Words with different tags differ, and a word that is shifted
to the left leaves its low bits to the tag.
-/

set_option autoImplicit false

namespace Ming.Foundation

variable {w : ℕ} {p q t u m : BitVec w}

/-- INTERNAL: the tag of a tagged word. -/
theorem tag_or (hp : p &&& m = 0) (ht : t &&& m = t) : (p ||| t) &&& m = t := by
  rw [BitVec.and_or_distrib_right, hp, ht]
  exact BitVec.zero_or

/-- INTERNAL: a word without the masked bits is not changed by clearing them. -/
theorem and_not_of_clear (hp : p &&& m = 0) : p &&& ~~~m = p := by
  have h : p &&& (m ||| ~~~m) = p := by
    rw [BitVec.or_not_self]
    exact BitVec.and_allOnes
  rw [BitVec.and_or_distrib_left, hp] at h
  exact (BitVec.zero_or).symm.trans h

/-- INTERNAL: the payload of a tagged word. -/
theorem payload_or (hp : p &&& m = 0) (ht : t &&& m = t) : (p ||| t) &&& ~~~m = p := by
  have htag : t &&& ~~~m = 0 := by
    rw [← ht, BitVec.and_assoc, BitVec.and_not_self]
    exact BitVec.and_zero
  rw [BitVec.and_or_distrib_right, and_not_of_clear hp, htag]
  exact BitVec.or_zero

/-- INTERNAL: words with different tags differ. -/
theorem ne_of_tag_ne (h : p &&& m ≠ q &&& m) : p ≠ q := by
  rintro rfl
  exact h rfl

/-- INTERNAL: a shift to the left clears the low bits. -/
theorem shiftLeft_and_low {n : ℕ} : (p <<< n) &&& BitVec.ofNat w (2 ^ n - 1) = 0 := by
  apply BitVec.eq_of_getLsbD_eq
  intro i hi
  rw [BitVec.getLsbD_and, BitVec.getLsbD_shiftLeft, BitVec.getLsbD_ofNat,
    Nat.testBit_two_pow_sub_one]
  by_cases hin : i < n
  · simp [hin]
  · simp [hin]

/-- INTERNAL: a shifted word with a tag in the free bits, as a number. -/
theorem toNat_shiftLeft_or {n : ℕ} (ht : t &&& BitVec.ofNat w (2 ^ n - 1) = t) :
    (p <<< n ||| t).toNat = p.toNat * 2 ^ n % 2 ^ w + t.toNat := by
  have h : p <<< n &&& t = 0 := by
    rw [← ht, BitVec.and_comm t, ← BitVec.and_assoc, shiftLeft_and_low]
    exact BitVec.zero_and
  rw [← BitVec.add_eq_or_of_and_eq_zero _ _ h, BitVec.toNat_add_of_and_eq_zero h,
    BitVec.toNat_shiftLeft, Nat.shiftLeft_eq]

end Ming.Foundation
