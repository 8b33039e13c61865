import Mathlib.Algebra.Order.Field.Rat
import Mathlib.Tactic.FieldSimp
import Mathlib.Tactic.NormNum
import Mathlib.Tactic.Ring

/-!
# Double precision words and integers

The value of a finite binary64 word is a rational number. An integer that fits the significand
has an exact encoding. A conversion of a word to an integer truncates; out of the range of the
target it has no result.
-/

set_option autoImplicit false

namespace Ming.Foundation.Binary64

/-- The fraction field. -/
def fraction (d : BitVec 64) : ℕ := d.toNat % 2 ^ 52

/-- The biased exponent field. -/
def exponent (d : BitVec 64) : ℕ := d.toNat / 2 ^ 52 % 2 ^ 11

/-- The sign bit. -/
def sign (d : BitVec 64) : Bool := 2 ^ 63 ≤ d.toNat

/-- The word is neither an infinity nor a NaN. -/
def IsFinite (d : BitVec 64) : Prop := exponent d ≠ 2047

/-- The exponent field decides whether a number is finite. -/
instance (d : BitVec 64) : Decidable (IsFinite d) := inferInstanceAs (Decidable (_ ≠ _))

/-- The absolute value of a finite word. -/
def magnitude (d : BitVec 64) : ℚ :=
  if exponent d = 0 then fraction d * (2 : ℚ) ^ (-1074 : ℤ)
  else (2 ^ 52 + fraction d : ℕ) * (2 : ℚ) ^ ((exponent d : ℤ) - 1075)

/-- The value of a finite word. -/
def value (d : BitVec 64) : ℚ := if sign d then -magnitude d else magnitude d

/-- The `==` of two doubles: a NaN equals nothing, the two zeros are equal. -/
def eq (a b : BitVec 64) : Bool :=
  if IsFinite a ∧ IsFinite b then decide (value a = value b)
  else decide (a = b ∧ fraction a = 0)

/-- The conversion to an `n`-bit signed integer, where it is defined. -/
def toInt? (n : ℕ) (d : BitVec 64) : Option ℤ :=
  let z := Int.tdiv (value d).num (value d).den
  if IsFinite d ∧ -2 ^ (n - 1) ≤ z ∧ z < 2 ^ (n - 1) then some z else none

/-- The word with the given fields. -/
def pack (s : Bool) (e f : ℕ) : BitVec 64 :=
  BitVec.ofNat 64 ((if s then 2 ^ 63 else 0) + e * 2 ^ 52 + f)

/-- The conversion of an integer with a magnitude below `2 ^ 53`. -/
def ofInt (z : ℤ) : BitVec 64 :=
  let n := z.natAbs
  if n = 0 then 0
  else pack (z < 0) (1023 + n.log2) (n * 2 ^ (52 - n.log2) - 2 ^ 52)

/-! ## The fields of a packed word -/

variable {s : Bool} {e f n : ℕ} {z : ℤ}

/-- INTERNAL: the number that the three fields make. -/
theorem toNat_pack (he : e < 2 ^ 11) (hf : f < 2 ^ 52) :
    (pack s e f).toNat = (if s then 2 ^ 63 else 0) + e * 2 ^ 52 + f := by
  unfold pack
  rw [BitVec.toNat_ofNat]
  apply Nat.mod_eq_of_lt
  split_ifs <;> omega

/-- INTERNAL: the fraction of packed fields. -/
theorem fraction_pack (he : e < 2 ^ 11) (hf : f < 2 ^ 52) : fraction (pack s e f) = f := by
  unfold fraction
  rw [toNat_pack he hf]
  split_ifs <;> omega

/-- INTERNAL: the exponent of packed fields. -/
theorem exponent_pack (he : e < 2 ^ 11) (hf : f < 2 ^ 52) : exponent (pack s e f) = e := by
  unfold exponent
  rw [toNat_pack he hf]
  split_ifs <;> omega

/-- INTERNAL: the sign of packed fields. -/
theorem sign_pack (he : e < 2 ^ 11) (hf : f < 2 ^ 52) : sign (pack s e f) = s := by
  unfold sign
  rw [toNat_pack he hf]
  cases s with
  | true => exact decide_eq_true (by simp only [if_true]; omega)
  | false => exact decide_eq_false (by simp only [Bool.false_eq_true, if_false]; omega)

/-! ## Exact integers -/

/-- INTERNAL: the leading bit of the significand is the implicit one. -/
theorem significand_bounds (h0 : n ≠ 0) (hn : n < 2 ^ 53) :
    n.log2 ≤ 52 ∧ 2 ^ 52 ≤ n * 2 ^ (52 - n.log2) ∧ n * 2 ^ (52 - n.log2) < 2 ^ 53 := by
  have hlog : n.log2 ≤ 52 := Nat.lt_succ_iff.mp ((Nat.log2_lt h0).mpr hn)
  have hlo : 2 ^ n.log2 ≤ n := Nat.log2_self_le h0
  have hhi : n < 2 ^ (n.log2 + 1) := Nat.lt_log2_self
  refine ⟨hlog, ?_, ?_⟩
  · calc 2 ^ 52 = 2 ^ n.log2 * 2 ^ (52 - n.log2) := by rw [← pow_add]; congr 1; omega
      _ ≤ n * 2 ^ (52 - n.log2) := Nat.mul_le_mul_right _ hlo
  · calc n * 2 ^ (52 - n.log2) < 2 ^ (n.log2 + 1) * 2 ^ (52 - n.log2) :=
        Nat.mul_lt_mul_of_pos_right hhi (by positivity)
      _ = 2 ^ 53 := by rw [← pow_add]; congr 1; omega

/-- INTERNAL: an integer below `2 ^ 53` makes a finite number. -/
theorem isFinite_ofInt (hz : z.natAbs < 2 ^ 53) : IsFinite (ofInt z) := by
  unfold IsFinite
  by_cases h0 : z.natAbs = 0
  · rw [Int.natAbs_eq_zero.mp h0]
    decide
  · obtain ⟨hlog, -, hhi⟩ := significand_bounds h0 hz
    unfold ofInt
    rw [if_neg h0, exponent_pack (by omega) (by omega)]
    omega

/-- INTERNAL: the value of zero. -/
theorem value_zero : value (ofInt 0) = (0 : ℤ) := by
  unfold value magnitude
  rw [show sign (ofInt 0) = false from rfl, show exponent (ofInt 0) = 0 from rfl,
    show fraction (ofInt 0) = 0 from rfl]
  simp

/-- INTERNAL: **an integer below `2 ^ 53` is encoded exactly.** -/
theorem value_ofInt (hz : z.natAbs < 2 ^ 53) : value (ofInt z) = z := by
  by_cases h0 : z.natAbs = 0
  · rw [Int.natAbs_eq_zero.mp h0]
    exact value_zero
  obtain ⟨hlog, hlo, hhi⟩ := significand_bounds h0 hz
  have hexp : exponent (ofInt z) = 1023 + z.natAbs.log2 := by
    unfold ofInt
    rw [if_neg h0, exponent_pack (by omega) (by omega)]
  have hfrac : 2 ^ 52 + fraction (ofInt z) = z.natAbs * 2 ^ (52 - z.natAbs.log2) := by
    unfold ofInt
    rw [if_neg h0, fraction_pack (by omega) (by omega)]
    omega
  have hsign : sign (ofInt z) = decide (z < 0) := by
    unfold ofInt
    rw [if_neg h0, sign_pack (by omega) (by omega)]
  have hmag : magnitude (ofInt z) = z.natAbs := by
    unfold magnitude
    rw [if_neg (by omega), hfrac, hexp]
    have hpow : ((1023 + z.natAbs.log2 : ℕ) : ℤ) - 1075 = -((52 - z.natAbs.log2 : ℕ) : ℤ) := by
      omega
    rw [hpow, zpow_neg, zpow_natCast, Nat.cast_mul, Nat.cast_pow, Nat.cast_ofNat]
    field_simp
  unfold value
  rw [hmag, hsign]
  by_cases hneg : z < 0
  · rw [decide_eq_true hneg, if_pos rfl]
    have habs : (z.natAbs : ℤ) = -z := by omega
    rw [← Int.cast_natCast, habs]
    push_cast
    ring
  · rw [decide_eq_false hneg, if_neg Bool.false_ne_true]
    have habs : (z.natAbs : ℤ) = z := by omega
    rw [← Int.cast_natCast, habs]

/-- INTERNAL: an integral number in range converts to its value. -/
theorem toInt?_of_integral {d : BitVec 64} (hd : IsFinite d) (hv : value d = z)
    (hlo : -2 ^ (n - 1) ≤ z) (hhi : z < 2 ^ (n - 1)) : toInt? n d = some z := by
  unfold toInt?
  rw [hv, Rat.num_intCast, Rat.den_intCast]
  simp [hd, hlo, hhi]

/-- INTERNAL: a finite number equals an integer exactly when its value does. -/
theorem eq_ofInt {d : BitVec 64} (hz : z.natAbs < 2 ^ 53) (hd : IsFinite d) :
    eq (ofInt z) d = true ↔ value d = z := by
  unfold eq
  rw [if_pos ⟨isFinite_ofInt hz, hd⟩, decide_eq_true_iff, value_ofInt hz, eq_comm]

/-- INTERNAL: an integer equals no infinity and no NaN. -/
theorem eq_ofInt_iff {d : BitVec 64} (hz : z.natAbs < 2 ^ 53) :
    eq (ofInt z) d = true ↔ IsFinite d ∧ value d = z := by
  by_cases hd : IsFinite d
  · rw [eq_ofInt hz hd]
    exact (and_iff_right hd).symm
  · have hne : ofInt z ≠ d := by
      rintro rfl
      exact hd (isFinite_ofInt hz)
    unfold eq
    rw [if_neg fun h => hd h.2]
    simp [hne, hd]

end Ming.Foundation.Binary64
