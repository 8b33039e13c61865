import Ming.Model.Value

/-!
# Integer values (m_value.h, 32-bit targets)

With pointers of 32 bits the type of a value stands in its low two bits and an integer in the
30 bits above them; the booleans are the words of the largest and the least of these integers.
A double is kept in a cell, as on 64-bit targets.
-/

set_option autoImplicit false

namespace Ming.Model

open Ming.Foundation

/-- `M_Value` of 32 bits -/
abbrev MValue32 := BitVec 32

/-- The bits of a tag. SOURCE: m_value.h:32 -/
abbrev M_VALUE32_TYPE_SHIFT : ℕ := 2
/-- The value true. SOURCE: m_value.h:34 -/
abbrev M_VALUE32_TRUE : MValue32 := 0x7FFFFFFF
/-- The value false. SOURCE: m_value.h:35 -/
abbrev M_VALUE32_FALSE : MValue32 := 0x80000003
/-- SOURCE: m_value.h:36 -/
abbrev M_VALUE_INT_MAX : BitVec 32 := 0x1FFFFFFE
/-- A positive number: the sign is not in the constant.
SOURCE: m_value.h:37 -/
abbrev M_VALUE_INT_MIN : BitVec 32 := 0x20000001
/-- The mask of a tag. SOURCE: m_value.h:46 -/
abbrev M_VALUE32_TYPE_MASK : MValue32 := BitVec.ofNat 32 (2 ^ M_VALUE32_TYPE_SHIFT - 1)
/-- The tag of an integer. SOURCE: m_value.h:50 -/
abbrev M_VALUE32_TYPE_INT : MValue32 := 3

/-- The doubles that can be loaded. -/
abbrev ValueMem32 := MValue32 → Option (BitVec 64)

/-- `m_value_is_bool` -/
def mValueIsBool32 (v : MValue32) : Bool := v == M_VALUE32_TRUE || v == M_VALUE32_FALSE

/-- `m_value_is_int`
SOURCE: m_value.h:75-84 -/
def mValueIsInt32 (v : MValue32) : Bool :=
  v &&& M_VALUE32_TYPE_MASK == M_VALUE32_TYPE_INT && !mValueIsBool32 v

/-- `m_value_get_int`
SOURCE: m_value.h:244-250 -/
def mValueGetInt32 (v : MValue32) : Outcome (BitVec 32) :=
  if mValueIsInt32 v then pure (v.sshiftRight M_VALUE32_TYPE_SHIFT) else .error .assertFailed

/-- The word that `m_value_from_int` returns. -/
def intWord32 (i : BitVec 32) : MValue32 := i <<< M_VALUE32_TYPE_SHIFT ||| M_VALUE32_TYPE_INT

/-- `m_value_from_int`
SOURCE: m_value.h:367-374 -/
def mValueFromInt32 (i : BitVec 32) : Outcome MValue32 :=
  if M_VALUE_INT_MIN.sle i ∧ i.sle M_VALUE_INT_MAX then pure (intWord32 i)
  else .error .assertFailed

/-- `m_value_from_double`; `m_assert_alloc` rules out NULL. -/
def mValueFromDouble32 (mem : ValueMem32) (cell : MValue32) (d : BitVec 64) :
    Outcome (ValueMem32 × MValue32) :=
  if cell = 0 then .error .assertFailed else pure (Function.update mem cell (some d), cell)

/-- The integer that `m_value_from_number` passes to `m_value_from_int`, if it calls it. -/
def numberIntArg (undef : BitVec 64 → BitVec 32) (d : BitVec 64) : Option (BitVec 32) :=
  let i := castInt undef d
  -- the test of the range that follows in the source guards an empty statement
  if Binary64.eq (Binary64.ofInt i.toInt) d then some i else none

/-- `m_value_from_number`
SOURCE: m_value.h:402-415 -/
def mValueFromNumber32 (undef : BitVec 64 → BitVec 32) (mem : ValueMem32) (cell : MValue32)
    (d : BitVec 64) : Outcome (ValueMem32 × MValue32) :=
  match numberIntArg undef d with
  | some i => do
    let v ← mValueFromInt32 i
    pure (mem, v)
  | none => mValueFromDouble32 mem cell d

end Ming.Model
