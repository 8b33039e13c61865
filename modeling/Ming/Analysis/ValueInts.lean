import Ming.Analysis.ValueTags

/-!
# The range of integer values

`m_value_from_int` shifts the 64-bit word, `m_value_get_int` cuts the word to 32 bits before it
shifts back. The three bits that the shift has moved out of the low half are lost: an integer
reads back as the sign extension of its low 29 bits.
-/

set_option autoImplicit false

namespace Ming.Analysis

open Ming.Foundation Ming.Model

variable {mem mem' : ValueMem} {cell : Ptr} {undef : BitVec 64 → BitVec 32} {d : BitVec 64}
  {z : ℤ} {i j : BitVec 32}

/-- The integers of 29 bits. -/
def FitsValue (z : ℤ) : Prop := -2 ^ 28 ≤ z ∧ z < 2 ^ 28

/-- INTERNAL: the lower half of an integer value.
SOURCE: m_value.h:368-373 -/
theorem setWidth_fromInt (i : BitVec 32) : (mValueFromInt i).setWidth 32 = i <<< 3 ||| 3 := by
  unfold mValueFromInt
  ext k hk
  simp [BitVec.getElem_shiftLeft, BitVec.getElem_setWidth]
  grind

/-- INTERNAL: the low half as a number. -/
theorem toNat_low (i : BitVec 32) : (i <<< 3 ||| 3).toNat = i.toNat * 8 % 2 ^ 32 + 3 :=
  toNat_shiftLeft_or (n := 3) (by decide)

/-- INTERNAL: what an integer reads back as, and when it is the integer itself. -/
theorem getInt_fromInt (i : BitVec 32) : ∃ j, mValueGetInt (mValueFromInt i) = .ok j ∧
    (j.toInt = i.toInt ↔ FitsValue i.toInt) := by
  have hint : mValueIsInt (mValueFromInt i) = true := beq_iff_eq.mpr (tag_fromInt i)
  refine ⟨(i <<< 3 ||| 3).sshiftRight 3, ?_, ?_⟩
  · unfold mValueGetInt
    rw [if_pos hint, setWidth_fromInt]
    rfl
  · rw [BitVec.toInt_sshiftRight, Int.shiftRight_eq_div_pow, BitVec.toInt_eq_toNat_cond,
      BitVec.toInt_eq_toNat_cond, toNat_low]
    unfold FitsValue
    have := i.isLt
    omega

/-- INTERNAL: the whole word keeps the integer. -/
theorem fromInt_injective : Function.Injective mValueFromInt := by
  intro i j h
  have hpay : ∀ i, mValueFromInt i &&& ~~~M_VALUE_TYPE_MASK = i.signExtend 64 <<< 3 := fun i =>
    payload_or shiftLeft_and_low (by decide)
  have hshift : i.signExtend 64 <<< 3 = j.signExtend 64 <<< 3 := by
    rw [← hpay i, ← hpay j, h]
  ext k hk
  have hbit := congrArg (fun v : MValue => v.getLsbD (k + 3)) hshift
  have hk' : k + 3 < 64 := by omega
  have hk'' : k < 64 := by omega
  simpa [BitVec.getLsbD_shiftLeft, BitVec.getElem_signExtend, hk, hk', hk''] using hbit

/-- The number that is read back has the value that was stored. -/
def NumberReadsBack (undef : BitVec 64 → BitVec 32) (mem : ValueMem) (cell : Ptr) (d : BitVec 64)
    (z : ℤ) : Prop :=
  ∃ mem' v r, mValueFromNumber undef mem cell d = .ok (mem', v) ∧
    mValueGetNumber mem' v = .ok r ∧ Binary64.IsFinite r ∧ Binary64.value r = z

/-- INTERNAL: an integer is exact as a double. -/
theorem natAbs_toInt_lt (i : BitVec 32) : i.toInt.natAbs < 2 ^ 53 := by
  have h₁ := BitVec.two_mul_toInt_lt (x := i)
  have h₂ := BitVec.le_two_mul_toInt (x := i)
  omega

/-- INTERNAL: an integral double in the range of `int` is stored as an integer. -/
theorem fromNumber_int (hd : Binary64.IsFinite d) (hv : Binary64.value d = z)
    (hlo : -2 ^ 31 ≤ z) (hhi : z < 2 ^ 31) :
    mValueFromNumber undef mem cell d = .ok (mem, mValueFromInt (BitVec.ofInt 32 z)) := by
  have hi : (BitVec.ofInt 32 z).toInt = z := by
    rw [BitVec.toInt_ofInt]
    exact Int.bmod_eq_of_le (by omega) (by omega)
  have hcast : castInt undef d = BitVec.ofInt 32 z := by
    unfold castInt
    rw [Binary64.toInt?_of_integral hd hv hlo hhi]
  have heq : Binary64.eq (Binary64.ofInt z) d = true := by
    rw [Binary64.eq_ofInt (by omega) hd]
    exact hv
  unfold mValueFromNumber
  simp only [hcast, hi, heq, if_true, Outcome.pure_eq_ok]

/-- INTERNAL: an integral double out of that range is stored in a cell. -/
theorem fromNumber_double (hd : Binary64.IsFinite d) (hv : Binary64.value d = z)
    (hz : ¬ (-2 ^ 31 ≤ z ∧ z < 2 ^ 31)) :
    mValueFromNumber undef mem cell d = mValueFromDouble mem cell d := by
  have heq : Binary64.eq (Binary64.ofInt (castInt undef d).toInt) d = false := by
    refine Bool.eq_false_of_not_eq_true fun h => hz ?_
    rw [Binary64.eq_ofInt (natAbs_toInt_lt _) hd, hv] at h
    have h₁ := BitVec.two_mul_toInt_lt (x := castInt undef d)
    have h₂ := BitVec.le_two_mul_toInt (x := castInt undef d)
    have hzi : z = (castInt undef d).toInt := by exact_mod_cast h
    omega
  unfold mValueFromNumber
  simp only [heq, Bool.false_eq_true, if_false]

/-- INTERNAL: a number reads back exactly when it fits. -/
theorem numberReadsBack_iff (hd : Binary64.IsFinite d) (hv : Binary64.value d = z)
    (hcell : cell &&& M_VALUE_TYPE_MASK = 0) :
    NumberReadsBack undef mem cell d z ↔ FitsValue z := by
  by_cases hz : -2 ^ 31 ≤ z ∧ z < 2 ^ 31
  · have hi : (BitVec.ofInt 32 z).toInt = z := by
      rw [BitVec.toInt_ofInt]
      exact Int.bmod_eq_of_le (by omega) (by omega)
    obtain ⟨j, hj, hji⟩ := getInt_fromInt (BitVec.ofInt 32 z)
    rw [hi] at hji
    have hget : ∀ mem, mValueGetNumber mem (mValueFromInt (BitVec.ofInt 32 z)) =
        .ok (Binary64.ofInt j.toInt) := by
      intro mem
      unfold mValueGetNumber
      have hint : mValueIsInt (mValueFromInt (BitVec.ofInt 32 z)) = true :=
        beq_iff_eq.mpr (tag_fromInt _)
      rw [if_pos hint, hj]
      rfl
    have hval := Binary64.value_ofInt (natAbs_toInt_lt j)
    rw [← hji]
    constructor
    · rintro ⟨mem', v, r, hb, hr, -, hrv⟩
      rw [fromNumber_int hd hv hz.1 hz.2] at hb
      obtain ⟨rfl, rfl⟩ := Prod.mk.inj (Except.ok.inj hb)
      rw [hget] at hr
      obtain rfl := Except.ok.inj hr
      rw [hval] at hrv
      exact_mod_cast hrv
    · intro hjz
      refine ⟨_, _, _, fromNumber_int hd hv hz.1 hz.2, hget _,
        Binary64.isFinite_ofInt (natAbs_toInt_lt j), ?_⟩
      rw [hval, hjz]
  · refine iff_of_false ?_ fun h => hz ⟨by have := h.1; omega, by have := h.2; omega⟩
    rintro ⟨mem', v, r, hb, hr, -⟩
    rw [fromNumber_double hd hv hz] at hb
    obtain ⟨rfl, -, -⟩ := storeCell_eq_ok hb rfl
    have hint : mValueIsInt v = false := by
      refine beq_false_of_ne ?_
      rw [hcell]
      decide
    have hdbl : mValueIsDouble v = false := by
      refine beq_false_of_ne ?_
      rw [hcell]
      decide
    unfold mValueGetNumber at hr
    rw [hint, hdbl] at hr
    exact nomatch hr

/-- **Integers read back exactly when they fit 29 bits.** Of the 32-bit integers those from
`-2 ^ 28` to `2 ^ 28 - 1` survive `m_value_from_int` and `m_value_get_int`, although the words
of different integers differ; of the integral doubles the same range survives
`m_value_from_number` and `m_value_get_number`, whatever the target makes of a double that is
out of the range of `int`.
SOURCE: m_value.h:244-280, 367-374, 402-415 -/
theorem int_round_trip_iff (undef : BitVec 64 → BitVec 32) (mem : ValueMem) {cell : Ptr}
    (hcell : cell &&& M_VALUE_TYPE_MASK = 0) :
    (∀ i : BitVec 32, mValueGetInt (mValueFromInt i) = .ok i ↔ FitsValue i.toInt) ∧
    Function.Injective mValueFromInt ∧
    ∀ (d : BitVec 64) (z : ℤ), Binary64.IsFinite d → Binary64.value d = z →
      (NumberReadsBack undef mem cell d z ↔ FitsValue z) := by
  refine ⟨fun i => ?_, fromInt_injective, fun d z hd hv => numberReadsBack_iff hd hv hcell⟩
  obtain ⟨j, hj, hji⟩ := getInt_fromInt i
  rw [hj, ← hji]
  constructor
  · intro h
    rw [Except.ok.inj h]
  · intro h
    rw [BitVec.eq_of_toInt_eq h]

/-- The integer of a double that fits is read back. -/
theorem int_round_trip_five : NumberReadsBack (fun _ => 0) (fun _ => none) 0x1000
    (Binary64.ofInt 5) 5 :=
  ((int_round_trip_iff _ _ (show (0x1000 : Ptr) &&& M_VALUE_TYPE_MASK = 0 by decide)).2.2 _ 5
    (Binary64.isFinite_ofInt (by decide)) (Binary64.value_ofInt (by decide))).mpr
    ⟨by decide, by decide⟩

/-- `INT_MAX` does not read back. -/
theorem int_round_trip_counterexample :
    ¬ ∀ i : BitVec 32, mValueGetInt (mValueFromInt i) = .ok i := by
  intro hall
  exact absurd (hall 0x7FFFFFFF) (by decide)

end Ming.Analysis
