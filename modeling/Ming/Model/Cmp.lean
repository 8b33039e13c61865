import Ming.Foundation.CutDifference
import Ming.Model.CommonTypes

/-!
# Comparison functions (m_cmp.h)

Both comparison functions subtract the keys as `size_t` words and return the difference as an
`int`, which keeps its low 32 bits.
-/

set_option autoImplicit false

namespace Ming.Model

open Ming.Foundation

/-- `m_int_cmp_func`. -/
def mIntCmpFunc (key1 key2 : UIntPtr) : ℤ := cutDiff 32 key1 key2

/-- `m_ptr_cmp_func`. -/
def mPtrCmpFunc (key1 key2 : UIntPtr) : ℤ := cutDiff 32 key1 key2

end Ming.Model
