import Ming.Analysis.ValueInts
import Ming.Model.Value32

/-!
# Integer values of 32 bits

The encoding, the classifier and the decoder agree: the integers whose word is an integer value
that reads back are those of 30 bits without the two that the booleans take. The assertion of
`m_value_from_int` admits none of them, and the test in `m_value_from_number` guards nothing.
-/

set_option autoImplicit false

namespace Ming.Analysis

open Ming.Foundation Ming.Model

variable {undef : BitVec 64 → BitVec 32} {d : BitVec 64} {i : BitVec 32}

/-- The integers of 30 bits that are not the payload of a boolean. -/
def FitsValue32 (z : ℤ) : Prop := -0x1FFFFFFF ≤ z ∧ z ≤ 0x1FFFFFFE

/-- The word is the value of the integer. -/
def IsValueOf (v : MValue32) (i : BitVec 32) : Prop :=
  mValueIsInt32 v = true ∧ mValueIsBool32 v = false ∧ mValueGetInt32 v = .ok i

/-- `m_value_from_int` returns the value of the integer. -/
def IntKept (i : BitVec 32) : Prop := ∃ v, mValueFromInt32 i = .ok v ∧ IsValueOf v i

/-- `m_value_from_number` passes on what fits only. -/
def NumberArgFits (undef : BitVec 64 → BitVec 32) (d : BitVec 64) : Prop :=
  ∀ i, numberIntArg undef d = some i → FitsValue32 i.toInt

/-- A double whose value is an `int` that does not fit. -/
def IntegralOutside (d : BitVec 64) : Prop :=
  Binary64.IsFinite d ∧ ∃ z : ℤ, Binary64.value d = z ∧ -2 ^ 31 ≤ z ∧ z < 2 ^ 31 ∧ ¬ FitsValue32 z

/-! ## The word of an integer -/

/-- INTERNAL: the number that an integer word is. -/
theorem toNat_intWord32 (i : BitVec 32) : (intWord32 i).toNat = i.toNat * 4 % 2 ^ 32 + 3 :=
  toNat_shiftLeft_or (n := 2) (by decide)

/-- INTERNAL: the words of the two integers at the ends are the booleans. -/
theorem isBool_intWord32 (i : BitVec 32) : mValueIsBool32 (intWord32 i) = true ↔
    i.toNat * 4 % 2 ^ 32 = 0x7FFFFFFC ∨ i.toNat * 4 % 2 ^ 32 = 0x80000000 := by
  unfold mValueIsBool32
  rw [Bool.or_eq_true, beq_iff_eq, beq_iff_eq, ← BitVec.toNat_inj, ← BitVec.toNat_inj,
    toNat_intWord32]
  change _ = 0x7FFFFFFF ∨ _ = 0x80000003 ↔ _
  omega

/-- INTERNAL: an integer word is an integer unless it is a boolean. -/
theorem isInt_intWord32 (i : BitVec 32) :
    mValueIsInt32 (intWord32 i) = !mValueIsBool32 (intWord32 i) := by
  have htag : intWord32 i &&& M_VALUE32_TYPE_MASK = M_VALUE32_TYPE_INT :=
    tag_or shiftLeft_and_low (by decide)
  unfold mValueIsInt32
  rw [htag]
  rfl

/-- INTERNAL: the shift back restores the integers of 30 bits. -/
theorem sshiftRight_intWord32 (i : BitVec 32) :
    (intWord32 i).sshiftRight 2 = i ↔ -2 ^ 29 ≤ i.toInt ∧ i.toInt < 2 ^ 29 := by
  rw [← BitVec.toInt_inj, BitVec.toInt_sshiftRight, Int.shiftRight_eq_div_pow,
    BitVec.toInt_eq_toNat_cond, BitVec.toInt_eq_toNat_cond, toNat_intWord32]
  have := i.isLt
  omega

/-- INTERNAL: **the encoding keeps exactly the integers that fit.**
SOURCE: m_value.h:31-37, 59-84, 244-250 -/
theorem isValueOf_intWord32 (i : BitVec 32) : IsValueOf (intWord32 i) i ↔ FitsValue32 i.toInt := by
  have hbool := isBool_intWord32 i
  have hshift := sshiftRight_intWord32 i
  have hint := isInt_intWord32 i
  have hrange : (-2 ^ 29 ≤ i.toInt ∧ i.toInt < 2 ^ 29) ∧ mValueIsBool32 (intWord32 i) ≠ true ↔
      FitsValue32 i.toInt := by
    rw [Ne, hbool, FitsValue32, BitVec.toInt_eq_toNat_cond]
    have := i.isLt
    omega
  rw [← hrange, ← hshift, IsValueOf, mValueGetInt32, hint]
  cases mValueIsBool32 (intWord32 i) with
  | true => simp
  | false => simp

/-! ## The two constructors -/

/-- INTERNAL: no integer is between the limits.
SOURCE: m_value.h:36-37, 371 -/
theorem fromInt32_assertFailed (i : BitVec 32) : mValueFromInt32 i = .error .assertFailed := by
  unfold mValueFromInt32
  apply if_neg
  rw [BitVec.sle_iff_toInt_le, BitVec.sle_iff_toInt_le]
  change ¬ ((0x20000001 : ℤ) ≤ i.toInt ∧ i.toInt ≤ 0x1FFFFFFE)
  omega

/-- INTERNAL: the doubles that are passed on are those whose value is an `int`, whatever the
target makes of a double out of range. -/
theorem numberIntArg_eq_some :
    numberIntArg undef d = some i ↔ Binary64.IsFinite d ∧ Binary64.value d = i.toInt := by
  have heq : ∀ j : BitVec 32, Binary64.eq (Binary64.ofInt j.toInt) d = true ↔
      Binary64.IsFinite d ∧ Binary64.value d = j.toInt := fun j =>
    Binary64.eq_ofInt_iff (natAbs_toInt_lt j)
  unfold numberIntArg
  constructor
  · intro h
    by_cases hd : Binary64.eq (Binary64.ofInt (castInt undef d).toInt) d = true
    · rw [if_pos hd] at h
      rw [← Option.some.inj h]
      exact (heq _).mp hd
    · rw [if_neg hd] at h
      cases h
  · intro h
    have hlo := BitVec.le_toInt i
    have hhi := BitVec.toInt_lt (x := i)
    have hcast : castInt undef d = i := by
      unfold castInt
      rw [Binary64.toInt?_of_integral h.1 h.2 hlo hhi]
      exact BitVec.ofInt_toInt
    rw [hcast, if_pos ((heq i).mpr h)]

/-- INTERNAL: the test of the range keeps no integer from the assertion.
SOURCE: m_value.h:407-412 -/
theorem fromNumber32_assertFailed {mem : ValueMem32} {cell : MValue32} (hd : Binary64.IsFinite d)
    (hv : Binary64.value d = i.toInt) :
    mValueFromNumber32 undef mem cell d = .error .assertFailed := by
  unfold mValueFromNumber32
  rw [numberIntArg_eq_some.mpr ⟨hd, hv⟩]
  simp only [fromInt32_assertFailed, Outcome.error_bind]

/-- INTERNAL: what is passed on fits, unless the double is an `int` that does not. -/
theorem numberArgFits_iff : NumberArgFits undef d ↔ ¬ IntegralOutside d := by
  constructor
  · rintro h ⟨hd, z, hz, hlo, hhi, hout⟩
    have hi : (BitVec.ofInt 32 z).toInt = z := by
      rw [BitVec.toInt_ofInt]
      exact Int.bmod_eq_of_le (by omega) (by omega)
    apply hout
    rw [← hi]
    apply h
    rw [numberIntArg_eq_some, hi]
    exact ⟨hd, hz⟩
  · intro h i hi
    by_contra hout
    obtain ⟨hd, hv⟩ := numberIntArg_eq_some.mp hi
    exact h ⟨hd, i.toInt, hv, BitVec.le_toInt i, BitVec.toInt_lt, hout⟩

/-- **On 32-bit targets no integer becomes a value.** The word that `m_value_from_int` would
return is an integer value, no boolean, and reads back for exactly the integers from
`-0x1FFFFFFF` to `0x1FFFFFFE`; the assertion before it admits no integer at all.
`m_value_from_number` passes on an integer that does not fit exactly when the double is one.
SOURCE: m_value.h:31-37, 75-84, 244-250, 367-374, 402-415 -/
theorem value_ints32_iff (undef : BitVec 64 → BitVec 32) :
    (∀ i : BitVec 32, IsValueOf (intWord32 i) i ↔ FitsValue32 i.toInt) ∧
    (∀ i : BitVec 32, mValueFromInt32 i = .error .assertFailed ∧ ¬ IntKept i) ∧
    ∀ d : BitVec 64, NumberArgFits undef d ↔ ¬ IntegralOutside d := by
  refine ⟨isValueOf_intWord32, fun i => ⟨fromInt32_assertFailed i, ?_⟩, fun d => numberArgFits_iff⟩
  rintro ⟨v, hv, -⟩
  rw [fromInt32_assertFailed] at hv
  cases hv

/-- Zero fits and is refused; a double of `0x1FFFFFFF` is passed on. -/
theorem value_ints32_counterexample :
    (¬ ∀ i : BitVec 32, FitsValue32 i.toInt → IntKept i) ∧
    ¬ ∀ (undef : BitVec 64 → BitVec 32) (d : BitVec 64), NumberArgFits undef d := by
  constructor
  · intro hall
    obtain ⟨v, hv, -⟩ := hall 0 ⟨by decide, by decide⟩
    rw [fromInt32_assertFailed] at hv
    cases hv
  · intro hall
    have hd : (0x1FFFFFFF : ℤ).natAbs < 2 ^ 53 := by decide
    refine numberArgFits_iff.mp (hall (fun _ => 0) (Binary64.ofInt 0x1FFFFFFF)) ?_
    refine ⟨Binary64.isFinite_ofInt hd, 0x1FFFFFFF, Binary64.value_ofInt hd, by decide, by decide,
      ?_⟩
    rintro ⟨-, hhi⟩
    exact absurd hhi (by decide)

end Ming.Analysis
