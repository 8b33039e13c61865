import Mathlib.Data.Set.BooleanAlgebra
import Mathlib.Order.CompletePartialOrder
import Mathlib.Order.Interval.Set.Disjoint
import Ming.Foundation.AlignUp

/-!
# The address space of a process

What `mmap` without `MAP_FIXED` and `munmap` do to the set of mapped addresses, as a list of
calls with the answers of the system. Lengths are rounded up to the page of the system, and an
address that is passed to `mmap` is a hint only.
-/

set_option autoImplicit false

namespace Ming.Foundation

/-- A call of `mmap` with its answer, or of `munmap`. -/
inductive MapCall where
  | mmap (hint : Option ℕ) (len : ℕ) (answer : Option ℕ)
  | munmap (ptr len : ℕ)
  deriving DecidableEq, Repr

variable {page ptr len : ℕ} {M : Set ℕ} {calls calls' : List MapCall} {hint : Option ℕ}

/-- The addresses of the pages of `len` bytes from `ptr` on. -/
def pagesOf (page ptr len : ℕ) : Set ℕ := Set.Ico ptr (ptr + roundUp len page)

/-- The mapped addresses after a call. `munmap` of an address inside of a page fails. -/
def MapCall.apply (page : ℕ) (M : Set ℕ) : MapCall → Set ℕ
  | .mmap _ _ none => M
  | .mmap _ len (some ptr) => M ∪ pagesOf page ptr len
  | .munmap ptr len => if page ∣ ptr then M \ pagesOf page ptr len else M

/-- The system answers with free pages, never at address zero, or not at all. -/
def MapCall.Admitted (page : ℕ) (M : Set ℕ) : MapCall → Prop
  | .mmap _ len (some ptr) => ptr ≠ 0 ∧ page ∣ ptr ∧ ptr + roundUp len page ≤ 2 ^ 64 ∧
    Disjoint M (pagesOf page ptr len)
  | _ => True

/-- The mapped addresses after several calls. -/
def mapAfter (page : ℕ) (M : Set ℕ) (calls : List MapCall) : Set ℕ :=
  calls.foldl (MapCall.apply page) M

/-- The answers of the system to several calls. -/
def AllAdmitted (page : ℕ) : Set ℕ → List MapCall → Prop
  | _, [] => True
  | M, call :: calls => call.Admitted page M ∧ AllAdmitted page (call.apply page M) calls

/-- INTERNAL: the map after no call. -/
@[simp] theorem mapAfter_nil (page : ℕ) (M : Set ℕ) : mapAfter page M [] = M := rfl

/-- INTERNAL: the map after a first call and the others. -/
@[simp] theorem mapAfter_cons (page : ℕ) (M : Set ℕ) (call : MapCall) (calls : List MapCall) :
    mapAfter page M (call :: calls) = mapAfter page (call.apply page M) calls := rfl

/-- INTERNAL: a mapping that fails. -/
@[simp] theorem apply_failed : (MapCall.mmap hint len none).apply page M = M := rfl

/-- INTERNAL: a mapping that succeeds. -/
theorem apply_mmap : (MapCall.mmap hint len (some ptr)).apply page M =
    M ∪ Set.Ico ptr (ptr + roundUp len page) := rfl

/-- INTERNAL: pages that are given back. -/
theorem apply_munmap (h : page ∣ ptr) : (MapCall.munmap ptr len).apply page M =
    M \ Set.Ico ptr (ptr + roundUp len page) := if_pos h

/-- INTERNAL: the addresses of a new mapping were free. -/
theorem disjoint_Ico {a b : ℕ} (h : Disjoint M (Set.Ico a b)) {x : ℕ} (hx : x ∈ M) :
    x < a ∨ b ≤ x := by
  by_contra hin
  rw [not_or, Nat.not_lt, Nat.not_le] at hin
  exact Set.disjoint_left.mp h hx hin

/-! ## Ranges that are moved by mapping at one end and unmapping at the other -/

section Ranges

variable {p q s d e : ℕ}

/-- INTERNAL: a new mapping that is unmapped again. -/
theorem unmap_new (hM : Disjoint M (Set.Ico p (p + s))) :
    (M ∪ Set.Ico p (p + s)) \ Set.Ico p (p + s) = M := by
  rw [Set.union_sdiff_right]
  exact hM.sdiff_eq_left

/-- INTERNAL: a new mapping of which both ends are unmapped again. -/
theorem unmap_ends (hM : Disjoint M (Set.Ico p (p + (e + s)))) (hd : d ≤ e) :
    Disjoint M (Set.Ico (p + d) (p + d + s)) ∧
      ((M ∪ Set.Ico p (p + (e + s))) \ Set.Ico p (p + d)) \
        Set.Ico (p + (d + s)) (p + (d + s) + (e - d)) = M ∪ Set.Ico (p + d) (p + d + s) := by
  refine ⟨hM.mono_right (Set.Ico_subset_Ico (by omega) (by omega)), Set.ext fun x => ?_⟩
  have hx : x ∈ M → x < p ∨ p + (e + s) ≤ x := disjoint_Ico hM
  simp only [Set.mem_sdiff, Set.mem_union, Set.mem_Ico]
  by_cases hxM : x ∈ M
  · have hout := hx hxM
    simp only [hxM, true_or, true_and, iff_true]
    omega
  · simp only [hxM, false_or]
    omega

/-- INTERNAL: a range moved up by `d` is mapped exactly when the second mapping went to its
end. -/
theorem moved_up_iff (hM : Disjoint M (Set.Ico p (p + s)))
    (hq : Disjoint (M ∪ Set.Ico p (p + s)) (Set.Ico q (q + d))) (hd : 0 < d) (hs : d ≤ s) :
    (Disjoint M (Set.Ico (p + d) (p + d + s)) ∧
      ((M ∪ Set.Ico p (p + s)) ∪ Set.Ico q (q + d)) \ Set.Ico p (p + d) =
        M ∪ Set.Ico (p + d) (p + d + s)) ↔ q = p + s := by
  constructor
  · rintro ⟨hfree, heq⟩
    -- the bytes behind the first mapping can only come from the second one
    have hin : ∀ x, p + s ≤ x → x < p + s + d → q ≤ x ∧ x < q + d := by
      intro x hlo hhi
      have hx : x ∈ M ∪ Set.Ico (p + d) (p + d + s) := Or.inr ⟨by omega, by omega⟩
      rw [← heq] at hx
      have hxM : x ∉ M := fun hxM => by
        rcases disjoint_Ico hfree hxM with h | h
        · omega
        · omega
      rcases hx.1 with (hx | hx) | hx
      · exact absurd hx hxM
      · exact absurd hx.2 (by omega)
      · exact hx
    have hfirst := hin (p + s) le_rfl (by omega)
    have hlast := hin (p + s + d - 1) (by omega) (by omega)
    omega
  · rintro rfl
    have hfree : Disjoint M (Set.Ico (p + d) (p + d + s)) := by
      refine Set.disjoint_left.mpr fun x hxM hx => ?_
      rcases disjoint_Ico hM hxM with h | h
      · exact absurd hx.1 (by omega)
      · rcases disjoint_Ico hq (Or.inl hxM) with h' | h'
        · omega
        · exact absurd hx.2 (by omega)
    refine ⟨hfree, Set.ext fun x => ?_⟩
    simp only [Set.mem_sdiff, Set.mem_union, Set.mem_Ico]
    by_cases hxM : x ∈ M
    · have hout := disjoint_Ico hM hxM
      simp only [hxM, true_or, true_and, iff_true]
      omega
    · simp only [hxM, false_or]
      omega

/-- INTERNAL: a range moved down by `d` is mapped exactly when the second mapping went in front
of it. -/
theorem moved_down_iff (hM : Disjoint M (Set.Ico p (p + s)))
    (hq : Disjoint (M ∪ Set.Ico p (p + s)) (Set.Ico q (q + d))) (hd : 0 < d) (hs : d ≤ s)
    (hp : d ≤ p) :
    (Disjoint M (Set.Ico (p - d) (p - d + s)) ∧
      ((M ∪ Set.Ico p (p + s)) ∪ Set.Ico q (q + d)) \ Set.Ico (p + s - d) (p + s - d + d) =
        M ∪ Set.Ico (p - d) (p - d + s)) ↔ q = p - d := by
  constructor
  · rintro ⟨hfree, heq⟩
    have hin : ∀ x, p - d ≤ x → x < p → q ≤ x ∧ x < q + d := by
      intro x hlo hhi
      have hx : x ∈ M ∪ Set.Ico (p - d) (p - d + s) := Or.inr ⟨hlo, by omega⟩
      rw [← heq] at hx
      have hxM : x ∉ M := fun hxM => by
        rcases disjoint_Ico hfree hxM with h | h
        · omega
        · omega
      rcases hx.1 with (hx | hx) | hx
      · exact absurd hx hxM
      · exact absurd hx.1 (by omega)
      · exact hx
    have hfirst := hin (p - d) le_rfl (by omega)
    have hlast := hin (p - 1) (by omega) (by omega)
    omega
  · rintro rfl
    have hfree : Disjoint M (Set.Ico (p - d) (p - d + s)) := by
      refine Set.disjoint_left.mpr fun x hxM hx => ?_
      rcases disjoint_Ico hM hxM with h | h
      · rcases disjoint_Ico hq (Or.inl hxM) with h' | h'
        · exact absurd hx.1 (by omega)
        · omega
      · exact absurd hx.2 (by omega)
    refine ⟨hfree, Set.ext fun x => ?_⟩
    simp only [Set.mem_sdiff, Set.mem_union, Set.mem_Ico]
    by_cases hxM : x ∈ M
    · have hout := disjoint_Ico hM hxM
      simp only [hxM, true_or, true_and, iff_true]
      omega
    · simp only [hxM, false_or]
      omega

end Ranges

end Ming.Foundation
