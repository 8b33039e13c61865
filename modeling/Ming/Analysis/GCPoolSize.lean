import Ming.Foundation.AlignUp
import Ming.Model.GCMap

/-!
# The size of a pool

`gc_obj_startup` compares the number of the environment variable, a signed `long`, with a
`size_t`. A negative number stands above the sign bit there, and the only power of two above
it is the sign bit itself.
-/

set_option autoImplicit false

namespace Ming.Analysis

open Ming.Foundation Ming.Model

variable {n size : BitVec 64}

/-- What a number should lead to: it is the size when it is a power of two greater than a page,
read as a signed number, and a page is the size otherwise. The mask clears the low bits. -/
structure PoolSizeRead (n size : BitVec 64) : Prop where
  accepted : (∃ k : ℕ, n.toInt = 2 ^ k) → (M_PAGE_SIZE : ℤ) < n.toInt → size = n
  rejected : ¬ ((∃ k : ℕ, n.toInt = 2 ^ k) ∧ (M_PAGE_SIZE : ℤ) < n.toInt) →
    size = BitVec.ofNat 64 M_PAGE_SIZE
  negative : n.toInt < 0 → size ≠ n
  mask : ∃ k < 64, size.toNat = 2 ^ k ∧ ∀ (x : BitVec 64) i,
    (x &&& gcCellPoolMask size).getLsbD i = (x.getLsbD i && decide (k ≤ i))

/-! ## The search -/

/-- INTERNAL: a power of two is doubled. -/
theorem twoPow_shiftLeft_one (j : ℕ) : BitVec.twoPow 64 j <<< 1 = BitVec.twoPow 64 (j + 1) :=
  (BitVec.shiftLeft_add 1#64 j 1).symm

/-- INTERNAL: powers of two compare as their exponents. -/
theorem twoPow_le_twoPow {i j : ℕ} (hi : i < 64) (hj : j < 64) :
    BitVec.twoPow 64 i ≤ BitVec.twoPow 64 j ↔ i ≤ j := by
  rw [BitVec.le_def, BitVec.toNat_twoPow_of_lt hi, BitVec.toNat_twoPow_of_lt hj]
  exact Nat.pow_le_pow_iff_right (by decide)

/-- INTERNAL: a page is a power of two. -/
theorem page_eq_twoPow : BitVec.ofNat 64 M_PAGE_SIZE = BitVec.twoPow 64 12 := by decide

/-- INTERNAL: the powers of two above a page. -/
theorem page_lt_twoPow {i : ℕ} (hi : i < 64) :
    BitVec.ofNat 64 M_PAGE_SIZE < BitVec.twoPow 64 i ↔ 12 < i := by
  rw [page_eq_twoPow, ← BitVec.not_le, twoPow_le_twoPow hi (by decide), Nat.not_le]

/-- INTERNAL: the loop finds a power of two, or 0. The induction is on the doublings left. -/
theorem powerOfTwo_spec (n : BitVec 64) (j k : ℕ) (hjk : j + k = 64) (hk : 0 < k) :
    ∃ v, gcPowerOfTwo n k (BitVec.twoPow 64 j) = .ok v ∧
      (v = 0 ∨ ∃ i < 64, v = BitVec.twoPow 64 i) := by
  induction k generalizing j with
  | zero => exact absurd hk (lt_irrefl 0)
  | succ k ih =>
    rw [gcPowerOfTwo]
    by_cases hle : n ≤ BitVec.twoPow 64 j
    · rw [if_pos hle]
      exact ⟨_, rfl, Or.inr ⟨j, by omega, rfl⟩⟩
    · rw [if_neg hle, twoPow_shiftLeft_one]
      by_cases hzero : BitVec.twoPow 64 (j + 1) = 0
      · rw [if_pos hzero]
        exact ⟨_, rfl, Or.inl rfl⟩
      · rw [if_neg hzero]
        have hlast : 0 < k := by
          by_contra hno
          apply hzero
          have hj : j + 1 = 64 := by omega
          rw [hj]
          decide
        exact ih (j + 1) (by omega) hlast

/-- INTERNAL: a power of two is found by the loop. -/
theorem powerOfTwo_twoPow {i : ℕ} (hi : i < 64) (j k : ℕ) (hjk : j + k = 64) (hij : j ≤ i) :
    gcPowerOfTwo (BitVec.twoPow 64 i) k (BitVec.twoPow 64 j) = .ok (BitVec.twoPow 64 i) := by
  induction k generalizing j with
  | zero => omega
  | succ k ih =>
    rw [gcPowerOfTwo]
    rcases Nat.eq_or_lt_of_le hij with rfl | hlt
    · rw [if_pos (BitVec.le_refl _)]
    · have hnot : ¬ BitVec.twoPow 64 i ≤ BitVec.twoPow 64 j := by
        rw [twoPow_le_twoPow hi (by omega)]
        omega
      have hnonzero : BitVec.twoPow 64 (j + 1) ≠ 0 := by
        intro hzero
        have hnat := BitVec.toNat_twoPow_of_lt (i := j + 1) (w := 64) (by omega)
        rw [hzero] at hnat
        exact absurd hnat.symm (Nat.two_pow_pos (j + 1)).ne'
      rw [if_neg hnot, twoPow_shiftLeft_one, if_neg hnonzero]
      exact ih (j + 1) (by omega) hlt

/-! ## The pool size -/

/-- INTERNAL: a power of two above a page is taken.
SOURCE: m_gc_obj.c:675-692 -/
theorem cellPoolSize_twoPow {i : ℕ} (hi : i < 64) (h : 12 < i) :
    gcCellPoolSize (some (BitVec.twoPow 64 i)) = .ok (BitVec.twoPow 64 i) := by
  have hmax : BitVec.twoPow 64 i ≠ LONG_MAX := by
    intro heq
    have hbit := congrArg (fun x => BitVec.getLsbD x 0) heq
    simp only [BitVec.getLsbD_twoPow] at hbit
    have hzero : LONG_MAX.getLsbD 0 = true := by decide
    rw [hzero] at hbit
    simp at hbit
    omega
  rw [gcCellPoolSize]
  rw [if_pos ⟨hmax, (page_lt_twoPow hi).mpr h⟩, show (1 : BitVec 64) = BitVec.twoPow 64 0 from rfl,
    powerOfTwo_twoPow hi 0 64 rfl (Nat.zero_le i), Outcome.ok_bind, if_neg (not_not.mpr rfl)]
  rfl

/-- INTERNAL: a number is accepted only when it is one of the powers of two that a `size_t` can
hold, the sign bit among them.
SOURCE: m_gc_obj.c:672-693 -/
theorem cellPoolSize_rejected (h : ∀ i < 64, 12 < i → n ≠ BitVec.twoPow 64 i) :
    gcCellPoolSize (some n) = .ok (BitVec.ofNat 64 M_PAGE_SIZE) := by
  rw [gcCellPoolSize]
  split_ifs with hn
  · obtain ⟨v, hv, hpower⟩ := powerOfTwo_spec n 0 64 rfl (by decide)
    rw [show (1 : BitVec 64) = BitVec.twoPow 64 0 from rfl, hv, Outcome.ok_bind]
    split_ifs with hne
    · rfl
    · obtain rfl := not_not.mp hne
      rcases hpower with rfl | ⟨i, hi, rfl⟩
      · exact absurd hn.2 (by decide)
      · exact absurd rfl (h i hi ((page_lt_twoPow hi).mp hn.2))
  · rfl

/-- INTERNAL: the pool size is a power of two that is not below the page size.
SOURCE: m_gc_obj.c:672-693 -/
theorem cellPoolSize_spec (n : Option (BitVec 64)) :
    ∃ k, 12 ≤ k ∧ k < 64 ∧ gcCellPoolSize n = .ok (BitVec.twoPow 64 k) := by
  have hpage := page_eq_twoPow
  cases n with
  | none => exact ⟨12, le_rfl, by decide, by rw [gcCellPoolSize, hpage]⟩
  | some n =>
    by_cases h : ∀ i < 64, 12 < i → n ≠ BitVec.twoPow 64 i
    · exact ⟨12, le_rfl, by decide, by rw [cellPoolSize_rejected h, hpage]⟩
    · push Not at h
      obtain ⟨i, hi, hlt, rfl⟩ := h
      exact ⟨i, hlt.le, hi, cellPoolSize_twoPow hi hlt⟩

/-- INTERNAL: the configuration has the size that was accepted. -/
theorem startupConfig_poolSize (n : Option (BitVec 64)) :
    gcCellPoolSize n = .ok (BitVec.ofNat 64 (startupConfig n).poolSize) := by
  obtain ⟨k, hk, hlt, hsize⟩ := cellPoolSize_spec n
  have hbits : (startupConfig n).poolBits = k := by
    rw [startupConfig]
    simp only [hsize]
    rw [BitVec.toNat_twoPow_of_lt hlt, Nat.log_pow (by decide)]
    exact max_eq_right hk
  rw [GCConfig.poolSize, hbits, hsize]
  refine congrArg Except.ok (BitVec.eq_of_toNat_eq ?_)
  rw [BitVec.toNat_twoPow, BitVec.toNat_ofNat]

/-! ## The mask -/

/-- INTERNAL: the mask of an accepted size.
SOURCE: m_gc_obj.c:695 -/
theorem cellPoolMask_spec (k : ℕ) (x : BitVec 64) (i : ℕ) :
    (x &&& gcCellPoolMask (BitVec.twoPow 64 k)).getLsbD i = (x.getLsbD i && decide (k ≤ i)) := by
  have hsize : BitVec.twoPow 64 k = BitVec.ofNat 64 (2 ^ k) := by
    apply BitVec.eq_of_toNat_eq
    rw [BitVec.toNat_twoPow, BitVec.toNat_ofNat]
  rw [gcCellPoolMask, hsize]
  exact getLsbD_clear_low x k i

/-- INTERNAL: masking an address leads to the pool that the model computes by a division.
SOURCE: m_gc_obj.c:81-86, 695 -/
theorem toNat_mask_eq_getPool (n : Option (BitVec 64)) (x : BitVec 64) :
    (x &&& gcCellPoolMask (BitVec.ofNat 64 (startupConfig n).poolSize)).toNat =
      gcObjGetPool (startupConfig n) x.toNat := by
  rw [gcCellPoolMask, GCConfig.poolSize, ofNat_two_pow_sub_one, toNat_clear_low]
  rfl

/-! ## The size that is read -/

/-- INTERNAL: below the sign bit the two readings of a number agree. -/
theorem twoPow_of_toInt {k : ℕ} (h : n.toInt = 2 ^ k) : k < 63 ∧ n = BitVec.twoPow 64 k := by
  have hlt := BitVec.toInt_lt (x := n)
  have hk : k < 63 := by
    rw [h] at hlt
    exact (Nat.pow_lt_pow_iff_right (a := 2) (by decide)).mp (by exact_mod_cast hlt)
  refine ⟨hk, BitVec.eq_of_toInt_eq ?_⟩
  rw [h, BitVec.toInt_twoPow, if_neg (by omega), if_neg (by omega)]

/-- INTERNAL: a power of two below the sign bit. -/
theorem toInt_twoPow_of_lt {i : ℕ} (hi : i < 63) : (BitVec.twoPow 64 i).toInt = 2 ^ i := by
  rw [BitVec.toInt_twoPow, if_neg (by omega), if_neg (by omega)]

/-- INTERNAL: a power of two above `2 ^ 12` that is not the sign bit is read as it is. -/
theorem poolSizeRead_accepted {i : ℕ} (hi : i < 63) (h : 12 < i) :
    PoolSizeRead (BitVec.twoPow 64 i) (BitVec.twoPow 64 i) := by
  have hint := toInt_twoPow_of_lt hi
  have hpage : (M_PAGE_SIZE : ℤ) < 2 ^ i := by
    exact_mod_cast Nat.pow_lt_pow_right (a := 2) (by decide) h
  constructor
  · intro _ _
    rfl
  · intro hnot
    exact absurd ⟨⟨i, hint⟩, hint ▸ hpage⟩ hnot
  · intro hneg
    rw [hint] at hneg
    omega
  · exact ⟨i, by omega, BitVec.toNat_twoPow_of_lt (by omega), cellPoolMask_spec i⟩

/-- INTERNAL: any other number is read as a page. -/
theorem poolSizeRead_rejected (h : ∀ i < 64, 12 < i → n ≠ BitVec.twoPow 64 i) :
    PoolSizeRead n (BitVec.ofNat 64 M_PAGE_SIZE) := by
  constructor
  · intro hpow hpage
    obtain ⟨k, hk⟩ := hpow
    obtain ⟨hlt, rfl⟩ := twoPow_of_toInt hk
    refine absurd rfl (h k (by omega) ?_)
    rw [hk] at hpage
    exact (Nat.pow_lt_pow_iff_right (a := 2) (by decide)).mp (by exact_mod_cast hpage)
  · intro _
    rfl
  · intro hneg heq
    rw [← heq] at hneg
    exact absurd hneg (by decide)
  · refine ⟨12, by decide, by decide, ?_⟩
    rw [page_eq_twoPow]
    exact cellPoolMask_spec 12

/-- **The pool size is read as a signed number would be, unless it is `LONG_MIN`.** For every
`long` that `strtol` may yield the search ends; the size is the number when that is a power of two
greater than a page and a page otherwise, no negative number is accepted, and the mask clears the
low bits, exactly when the number is not the sign bit alone.
SOURCE: m_gc_obj.c:672-695 -/
theorem pool_size_iff (n : BitVec 64) :
    (∃ size, gcCellPoolSize (some n) = .ok size ∧ PoolSizeRead n size) ↔ n ≠ BitVec.intMin 64 := by
  constructor
  · rintro ⟨size, hsize, hread⟩ rfl
    rw [show BitVec.intMin 64 = BitVec.twoPow 64 63 from rfl,
      cellPoolSize_twoPow (by decide) (by decide)] at hsize
    exact hread.negative (by decide) (Except.ok.inj hsize).symm
  · intro hmin
    by_cases h : ∀ i < 64, 12 < i → n ≠ BitVec.twoPow 64 i
    · exact ⟨_, cellPoolSize_rejected h, poolSizeRead_rejected h⟩
    · push Not at h
      obtain ⟨i, hi, hlt, rfl⟩ := h
      have hne : i ≠ 63 := by
        rintro rfl
        exact hmin rfl
      exact ⟨_, cellPoolSize_twoPow hi hlt, poolSizeRead_accepted (by omega) hlt⟩

/-- `LONG_MIN` is accepted as a pool size.
SOURCE: m_gc_obj.c:677-690 -/
theorem pool_size_counterexample : ¬ ∀ n : BitVec 64,
    ∃ size, gcCellPoolSize (some n) = .ok size ∧ PoolSizeRead n size := by
  intro hall
  obtain ⟨size, hsize, hread⟩ := hall (BitVec.twoPow 64 63)
  rw [cellPoolSize_twoPow (by decide) (by decide)] at hsize
  exact hread.negative (by decide) (Except.ok.inj hsize).symm

end Ming.Analysis
