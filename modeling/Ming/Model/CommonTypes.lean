import Ming.Foundation.Outcome

/-!
# Words and pointers

The types that every other module of the model uses: `uintptr_t` and pointers on a 64-bit
target (m_types.h, m_macros.h), with `NULL` the zero word.
-/

set_option autoImplicit false

namespace Ming.Model

/-- `uintptr_t` and `size_t` of a 64-bit target. -/
abbrev UIntPtr := BitVec 64

/-- A C pointer. -/
abbrev Ptr := UIntPtr

/-- The null pointer. -/
abbrev NULL : Ptr := 0

end Ming.Model
