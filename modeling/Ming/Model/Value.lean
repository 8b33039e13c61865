import Ming.Foundation.Binary64
import Ming.Foundation.Outcome
import Ming.Model.CommonTypes
import Mathlib.Logic.Function.Basic

/-!
# Values (m_value.h, 64-bit targets)

A value is a word with a type in its low three bits. Doubles and pointers are kept in a cell of
the collected heap, and the word at the cell of a pointer has a second type in its low two
bits. The heap is the memory of the words that can be loaded; `cell` is the address that
`m_gc_alloc_obj` returns to a constructor. A double is its 64-bit word.
-/

set_option autoImplicit false

namespace Ming.Model

open Ming.Foundation

/-- `M_Value` -/
abbrev MValue := UIntPtr

/-- The bits of a tag. SOURCE: m_value.h:39 -/
abbrev M_VALUE_TYPE_SHIFT : ℕ := 3
/-- The value true. SOURCE: m_value.h:42 -/
abbrev M_VALUE_TRUE : MValue := 0xC
/-- The value false. SOURCE: m_value.h:43 -/
abbrev M_VALUE_FALSE : MValue := 0x4
/-- The mask of a tag. SOURCE: m_value.h:46 -/
abbrev M_VALUE_TYPE_MASK : MValue := BitVec.ofNat 64 (2 ^ M_VALUE_TYPE_SHIFT - 1)
/-- The tag of a pointer. SOURCE: m_value.h:47 -/
abbrev M_VALUE_TYPE_PTR : MValue := 0
/-- The tag of a double. SOURCE: m_value.h:48 -/
abbrev M_VALUE_TYPE_DOUBLE : MValue := 1
/-- The tag of a string. SOURCE: m_value.h:49 -/
abbrev M_VALUE_TYPE_STRING : MValue := 2
/-- The tag of an integer. SOURCE: m_value.h:50 -/
abbrev M_VALUE_TYPE_INT : MValue := 3

/-- The mask of the type of a pointer. SOURCE: m_value.h:52 -/
abbrev M_PTR_TYPE_MASK : UIntPtr := 3
/-- A pointer to an object. SOURCE: m_value.h:53 -/
abbrev M_PTR_TYPE_OBJECT : UIntPtr := 0
/-- A pointer to a closure. SOURCE: m_value.h:54 -/
abbrev M_PTR_TYPE_CLOSURE : UIntPtr := 1
/-- A pointer to an array. SOURCE: m_value.h:55 -/
abbrev M_PTR_TYPE_ARRAY : UIntPtr := 2

/-- The words that a load may read. -/
abbrev ValueMem := Ptr → Option (BitVec 64)

/-- `*(uintptr_t*)p` -/
def loadWord (mem : ValueMem) (p : Ptr) : Outcome (BitVec 64) :=
  match mem p with
  | none => .error .unmapped
  | some x => pure x

/-! ## Classification -/

/-- `m_value_is_bool` -/
def mValueIsBool (v : MValue) : Bool := v == M_VALUE_TRUE || v == M_VALUE_FALSE

/-- `m_value_is_int` -/
def mValueIsInt (v : MValue) : Bool := v &&& M_VALUE_TYPE_MASK == M_VALUE_TYPE_INT

/-- `m_value_is_double` -/
def mValueIsDouble (v : MValue) : Bool := v &&& M_VALUE_TYPE_MASK == M_VALUE_TYPE_DOUBLE

/-- `m_value_is_string` -/
def mValueIsString (v : MValue) : Bool := v &&& M_VALUE_TYPE_MASK == M_VALUE_TYPE_STRING

/-- `m_value_is_null` -/
def mValueIsNull (mem : ValueMem) (v : MValue) : Outcome Bool :=
  if v = 0 then pure true
  else if v &&& M_VALUE_TYPE_MASK ≠ M_VALUE_TYPE_PTR then pure false
  else do
    let p ← loadWord mem v
    pure (p == 0)

/-- `m_value_is_ptr` -/
def mValueIsPtr (mem : ValueMem) (v : MValue) : Outcome Bool :=
  if v = 0 then pure false
  else if v &&& M_VALUE_TYPE_MASK ≠ M_VALUE_TYPE_PTR then pure false
  else do
    let p ← loadWord mem v
    pure (p != 0)

/-- The common body of `m_value_is_object`, `m_value_is_closure` and `m_value_is_array`. -/
def mValueIsPtrType (type : UIntPtr) (mem : ValueMem) (v : MValue) : Outcome Bool := do
  let isPtr ← mValueIsPtr mem v
  if isPtr then do
    let p ← loadWord mem v
    pure (p &&& M_PTR_TYPE_MASK == type)
  else pure false

/-- `m_value_is_object` -/
def mValueIsObject : ValueMem → MValue → Outcome Bool := mValueIsPtrType M_PTR_TYPE_OBJECT

/-- `m_value_is_closure` -/
def mValueIsClosure : ValueMem → MValue → Outcome Bool := mValueIsPtrType M_PTR_TYPE_CLOSURE

/-- `m_value_is_array` -/
def mValueIsArray : ValueMem → MValue → Outcome Bool := mValueIsPtrType M_PTR_TYPE_ARRAY

/-! ## Reading -/

/-- `m_value_get_bool` -/
def mValueGetBool (v : MValue) : Outcome Bool :=
  if mValueIsBool v then pure (v == M_VALUE_TRUE) else .error .assertFailed

/-- `m_value_get_int`: the conversion to `int32_t` comes before the shift. -/
def mValueGetInt (v : MValue) : Outcome (BitVec 32) :=
  if mValueIsInt v then pure ((v.setWidth 32).sshiftRight M_VALUE_TYPE_SHIFT)
  else .error .assertFailed

/-- `m_value_get_double` -/
def mValueGetDouble (mem : ValueMem) (v : MValue) : Outcome (BitVec 64) :=
  if mValueIsDouble v then loadWord mem (v &&& ~~~M_VALUE_TYPE_MASK) else .error .assertFailed

/-- `m_value_get_number` -/
def mValueGetNumber (mem : ValueMem) (v : MValue) : Outcome (BitVec 64) :=
  if mValueIsInt v then do
    let i ← mValueGetInt v
    pure (Binary64.ofInt i.toInt)
  else if mValueIsDouble v then mValueGetDouble mem v
  else .error .assertFailed

/-- `m_value_get_string` -/
def mValueGetString (v : MValue) : Outcome Ptr :=
  if mValueIsString v then pure (v &&& ~~~M_VALUE_TYPE_MASK) else .error .assertFailed

/-- `m_value_get_ptr` -/
def mValueGetPtr (mem : ValueMem) (v : MValue) : Outcome Ptr := do
  let isPtr ← mValueIsPtr mem v
  if isPtr then do
    let p ← loadWord mem v
    pure (p &&& ~~~M_PTR_TYPE_MASK)
  else .error .assertFailed

/-- The common body of `m_value_get_object`, `m_value_get_closure` and `m_value_get_array`. -/
def mValueGetPtrType (type : UIntPtr) (mem : ValueMem) (v : MValue) : Outcome Ptr := do
  let isType ← mValueIsPtrType type mem v
  if isType then mValueGetPtr mem v else .error .assertFailed

/-- `m_value_get_object` -/
def mValueGetObject : ValueMem → MValue → Outcome Ptr := mValueGetPtrType M_PTR_TYPE_OBJECT

/-- `m_value_get_closure` -/
def mValueGetClosure : ValueMem → MValue → Outcome Ptr := mValueGetPtrType M_PTR_TYPE_CLOSURE

/-- `m_value_get_array` -/
def mValueGetArray : ValueMem → MValue → Outcome Ptr := mValueGetPtrType M_PTR_TYPE_ARRAY

/-! ## Construction -/

/-- `m_value_from_bool` -/
def mValueFromBool (b : Bool) : MValue := if b then M_VALUE_TRUE else M_VALUE_FALSE

/-- `m_value_from_int`: the conversion to `M_Value` extends the sign. -/
def mValueFromInt (i : BitVec 32) : MValue :=
  i.signExtend 64 <<< M_VALUE_TYPE_SHIFT ||| M_VALUE_TYPE_INT

/-- A store to the cell that was allocated for a value; `m_assert_alloc` rules out NULL. -/
def storeCell (mem : ValueMem) (cell : Ptr) (x : BitVec 64) : Outcome (ValueMem × MValue) :=
  if cell = NULL then .error .assertFailed
  else pure (Function.update mem cell (some x), cell)

/-- `m_value_from_double` -/
def mValueFromDouble (mem : ValueMem) (cell : Ptr) (d : BitVec 64) :
    Outcome (ValueMem × MValue) := storeCell mem cell d

/-- `(int)d`; `undef` is what the target makes of a double out of range. -/
def castInt (undef : BitVec 64 → BitVec 32) (d : BitVec 64) : BitVec 32 :=
  match Binary64.toInt? 32 d with
  | none => undef d
  | some z => BitVec.ofInt 32 z

/-- `m_value_from_number` -/
def mValueFromNumber (undef : BitVec 64 → BitVec 32) (mem : ValueMem) (cell : Ptr)
    (d : BitVec 64) : Outcome (ValueMem × MValue) :=
  let i := castInt undef d
  if Binary64.eq (Binary64.ofInt i.toInt) d then pure (mem, mValueFromInt i)
  else mValueFromDouble mem cell d

/-- `m_value_from_string` -/
def mValueFromString (str : Ptr) : MValue := str ||| M_VALUE_TYPE_STRING

/-- The common body of `m_value_from_object`, `m_value_from_closure` and `m_value_from_array`. -/
def mValueFromPtrType (type : UIntPtr) (mem : ValueMem) (cell p : Ptr) :
    Outcome (ValueMem × MValue) := storeCell mem cell (p ||| type)

/-- `m_value_from_object` -/
def mValueFromObject : ValueMem → Ptr → Ptr → Outcome (ValueMem × MValue) :=
  mValueFromPtrType M_PTR_TYPE_OBJECT

/-- `m_value_from_closure` -/
def mValueFromClosure : ValueMem → Ptr → Ptr → Outcome (ValueMem × MValue) :=
  mValueFromPtrType M_PTR_TYPE_CLOSURE

/-- `m_value_from_array` -/
def mValueFromArray : ValueMem → Ptr → Ptr → Outcome (ValueMem × MValue) :=
  mValueFromPtrType M_PTR_TYPE_ARRAY

end Ming.Model
