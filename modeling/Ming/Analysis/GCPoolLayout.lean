import Mathlib.Data.Nat.Find
import Mathlib.Tactic.Ring
import Ming.Interface.PoolMarks
import Ming.Model.GCPoolLayout

/-!
# The sizes of a pool

The sizing loop only ever takes one cell away, so it ends with the greatest number below its
start that fits. The start bounds every number that fits with any bitmap, since it is what
remains of the layout without the rounding.
-/

set_option autoImplicit false

namespace Ming.Analysis

open Ming.Foundation Ming.Model Ming.Interface

variable {D : GCConfig} {size descrSize num n b fuel : ℕ} {P z : BitVec 64} {s : BitVec 32}
variable {type : MGCObjType}

/-- A header, a bitmap of `b` bytes with two bits for each cell, and `n` cells of `s` bytes in
`P` bytes. -/
structure PoolLayout (P s n b : ℕ) : Prop where
  bits : 2 * n ≤ 8 * b
  words : 8 ∣ b
  fits : poolHeaderSize + b + n * s ≤ P

/-! ## The greatest number that fits -/

/-- INTERNAL: the loop searches for the greatest number that fits. -/
theorem fitCells_eq_findGreatest (size descrSize num : ℕ) : fitCells size descrSize num =
    Nat.findGreatest (fun n => n * descrSize + bitmapBytes n ≤ size) num := by
  induction num with
  | zero => rfl
  | succ num ih => rw [fitCells, Nat.findGreatest_succ, ih]

/-- INTERNAL: the search goes down.
SOURCE: m_gc_obj.c:728-735 -/
theorem fitCells_le_start (size descrSize num : ℕ) : fitCells size descrSize num ≤ num :=
  (fitCells_eq_findGreatest size descrSize num).symm ▸ Nat.findGreatest_le num

/-- INTERNAL: the search stops at the first number that fits.
SOURCE: m_gc_obj.c:728-735 -/
theorem le_fitCells (hn : n ≤ num) (h : n * descrSize + bitmapBytes n ≤ size) :
    n ≤ fitCells size descrSize num := by
  rw [fitCells_eq_findGreatest]
  exact Nat.le_findGreatest hn h

/-- INTERNAL: no bitmap is smaller than the rounded one. -/
theorem bitmapBytes_le (hbits : 2 * n ≤ 8 * b) (hwords : 8 ∣ b) : bitmapBytes n ≤ b := by
  obtain ⟨q, rfl⟩ := hwords
  have hround : roundUp (n * 2) 64 ≤ 64 * q := roundUp_le (Nat.dvd_mul_right 64 q) (by omega)
  have hbytes : bitmapBytes n = roundUp (n * 2) 64 / 8 := rfl
  omega

/-- INTERNAL: the bits of the cells and of their marks. -/
theorem start_mul (n s : ℕ) : n * (s * 8 + 2) = 8 * (n * s) + 2 * n := by ring

/-- INTERNAL: the start of the loop is no smaller than any number that fits. -/
theorem layout_le_start (h : PoolLayout (poolHeaderSize + size) descrSize n b) :
    n ≤ size * 8 / (descrSize * 8 + 2) := by
  have hfits : b + n * descrSize ≤ size := by
    have := h.fits
    omega
  have hbits := h.bits
  rw [Nat.le_div_iff_mul_le (by omega), start_mul]
  omega

/-- INTERNAL: what is no greater than the start has small products. -/
theorem products_lt (hn : n ≤ size * 8 / (descrSize * 8 + 2)) (hsize : size * 8 + 64 < 2 ^ 64) :
    n * 2 + 64 < 2 ^ 64 ∧ n * descrSize + bitmapBytes n < 2 ^ 64 := by
  have hmul : n * (descrSize * 8 + 2) ≤ size * 8 :=
    (Nat.mul_le_mul_right _ hn).trans (Nat.div_mul_le_self _ _)
  rw [start_mul] at hmul
  have hround := roundUp_lt (n := n * 2) (a := 64) (by decide)
  have hbytes : bitmapBytes n = roundUp (n * 2) 64 / 8 := rfl
  omega

/-! ## The cell number of a type -/

/-- INTERNAL: the numerator of the start of the sizing loop, also when it wraps. -/
theorem start_numerator (D : GCConfig) : (D.poolSize - poolHeaderSize) * 8 % 2 ^ 64 =
    if D.poolBits < 61 then (D.poolSize - poolHeaderSize) * 8 else 2 ^ 64 - 320 := by
  have hheader : poolHeaderSize = 40 := rfl
  split_ifs with hlt
  · have hpow : D.poolSize ≤ 2 ^ 60 := Nat.pow_le_pow_right (by decide) (by omega)
    exact Nat.mod_eq_of_lt (by omega)
  · obtain ⟨j, hj⟩ := Nat.exists_eq_add_of_le (Nat.not_lt.mp hlt)
    have hpos := Nat.two_pow_pos j
    have hsplit : (D.poolSize - poolHeaderSize) * 8 = 2 ^ 64 - 320 + 2 ^ 64 * (2 ^ j - 1) := by
      rw [GCConfig.poolSize, hj, Nat.pow_add]
      omega
    rw [hsplit, Nat.add_mul_mod_self_left]
    exact Nat.mod_eq_of_lt (by decide)

/-- INTERNAL: a pool has at least one page. -/
theorem poolSize_ge (D : GCConfig) : 2 ^ 12 ≤ D.poolSize :=
  Nat.pow_le_pow_right (by decide) D.page_le

/-- INTERNAL: a cell that is not too large fits any pool. -/
theorem cellNum_pos_of_size_le (hsize : (D.descrs type).size ≤ 1024) : 1 ≤ D.cellNum type := by
  have hnum := start_numerator D
  have hpage := poolSize_ge D
  have hheader : poolHeaderSize = 40 := rfl
  refine le_fitCells ?_ ?_
  · rw [Nat.le_div_iff_mul_le (by omega), hnum]
    split_ifs
    · omega
    · omega
  · rw [show bitmapBytes 1 = 8 from rfl]
    omega

/-! ## The loop in machine words -/

/-- INTERNAL: a number of 64 bits. -/
theorem toNat_ofNat_lt {n : ℕ} (h : n < 2 ^ 64) : (BitVec.ofNat 64 n).toNat = n := by
  rw [BitVec.toNat_ofNat, Nat.mod_eq_of_lt h]

/-- INTERNAL: `bs` for a number of cells.
SOURCE: m_gc_obj.c:729 -/
theorem stubBitmapSize_toNat (h : n * 2 + 64 < 2 ^ 64) :
    (stubBitmapSize (BitVec.ofNat 64 n)).toNat = bitmapBytes n := by
  have hnum : (BitVec.ofNat 64 n * 2).toNat = n * 2 := by
    rw [BitVec.toNat_mul, toNat_ofNat_lt (by omega), show (2 : BitVec 64).toNat = 2 from rfl]
    exact Nat.mod_eq_of_lt (by omega)
  have halign := toNat_alignUp_of_lt (x := BitVec.ofNat 64 n * 2) (k := 6) (by rw [hnum]; omega)
  rw [hnum] at halign
  rw [stubBitmapSize, BitVec.toNat_udiv]
  exact congrArg (· / 8) halign

/-- INTERNAL: the test of the loop. -/
theorem stubLoop_test (h : n * 2 + 64 < 2 ^ 64) (h' : n * s.toNat + bitmapBytes n < 2 ^ 64) :
    BitVec.ofNat 64 n * s.setWidth 64 + stubBitmapSize (BitVec.ofNat 64 n) ≤ z ↔
      n * s.toNat + bitmapBytes n ≤ z.toNat := by
  have hs : (s.setWidth 64).toNat = s.toNat := by
    rw [BitVec.toNat_setWidth]
    exact Nat.mod_eq_of_lt (s.isLt.trans (by decide))
  have hmul : (BitVec.ofNat 64 n * s.setWidth 64).toNat = n * s.toNat := by
    rw [BitVec.toNat_mul, toNat_ofNat_lt (by omega), hs]
    exact Nat.mod_eq_of_lt (by omega)
  rw [BitVec.le_def, BitVec.toNat_add, hmul, stubBitmapSize_toNat h, Nat.mod_eq_of_lt h']

/-- What the loop tries from `num` down to `n`. -/
def triedDown (num n : ℕ) : List (BitVec 64) :=
  ((List.range' n (num - n + 1)).map (BitVec.ofNat 64)).reverse

/-- INTERNAL: the loop from `num` on. The induction is on the number to be tried.
SOURCE: m_gc_obj.c:728-735 -/
theorem stubLoop_spec (hwrap : ∀ v ≤ num, v * 2 + 64 < 2 ^ 64 ∧
    v * s.toNat + bitmapBytes v < 2 ^ 64) (hfuel : num < fuel) :
    stubLoop z s fuel (BitVec.ofNat 64 num) =
      .ok (BitVec.ofNat 64 (fitCells z.toNat s.toNat num),
        BitVec.ofNat 64 (bitmapBytes (fitCells z.toNat s.toNat num)),
        triedDown num (fitCells z.toNat s.toNat num)) := by
  have hbs : ∀ v ≤ num, stubBitmapSize (BitVec.ofNat 64 v) = BitVec.ofNat 64 (bitmapBytes v) := by
    intro v hv
    apply BitVec.eq_of_toNat_eq
    have hlt := (hwrap v hv).2
    rw [stubBitmapSize_toNat (hwrap v hv).1, toNat_ofNat_lt (by omega)]
  induction num generalizing fuel with
  | zero =>
    obtain ⟨fuel, rfl⟩ : ∃ k, fuel = k + 1 := ⟨fuel - 1, by omega⟩
    have htest := (stubLoop_test (z := z) (hwrap 0 le_rfl).1 (hwrap 0 le_rfl).2).mpr
      (by rw [Nat.zero_mul]; exact Nat.zero_le _)
    rw [stubLoop, if_pos htest, hbs 0 le_rfl]
    rfl
  | succ num ih =>
    obtain ⟨fuel, rfl⟩ : ∃ k, fuel = k + 1 := ⟨fuel - 1, by omega⟩
    have htest := stubLoop_test (z := z) (hwrap (num + 1) le_rfl).1 (hwrap (num + 1) le_rfl).2
    rw [stubLoop, fitCells]
    by_cases hfit : (num + 1) * s.toNat + bitmapBytes (num + 1) ≤ z.toNat
    · rw [if_pos (htest.mpr hfit), if_pos hfit, hbs _ le_rfl, triedDown, Nat.sub_self]
      rfl
    · have hpred : BitVec.ofNat 64 (num + 1) - 1 = BitVec.ofNat 64 num := by
        rw [BitVec.ofNat_add]
        exact BitVec.add_sub_cancel _ _
      have hrec := ih (fun v hv => hwrap v (Nat.le_succ_of_le hv)) (by omega : num < fuel)
        (fun v hv => hbs v (Nat.le_succ_of_le hv))
      have hle := fitCells_le_start z.toNat s.toNat num
      have htried : triedDown (num + 1) (fitCells z.toNat s.toNat num) =
          BitVec.ofNat 64 (num + 1) :: triedDown num (fitCells z.toNat s.toNat num) := by
        have hlast : fitCells z.toNat s.toNat num + (num - fitCells z.toNat s.toNat num + 1) =
            num + 1 := by omega
        rw [triedDown, triedDown, Nat.succ_sub hle, List.range'_1_concat, List.map_append,
          List.reverse_append, hlast]
        rfl
      rw [if_neg (fun e => hfit (htest.mp e)), if_neg hfit, hpred, hrec, htried]
      rfl

/-! ## The start of the loop -/

/-- INTERNAL: the size without the header. -/
theorem stub_size (hlo : poolHeaderSize ≤ P.toNat) :
    (P - BitVec.ofNat 64 poolHeaderSize).toNat = P.toNat - poolHeaderSize := by
  have hlt := P.isLt
  rw [BitVec.toNat_sub_of_le, toNat_ofNat_lt (by decide)]
  rwa [BitVec.le_def, toNat_ofNat_lt (by decide)]

/-- INTERNAL: neither the product nor the divisor wraps.
SOURCE: m_gc_obj.c:726 -/
theorem stub_start (hlo : poolHeaderSize ≤ P.toNat) (hhi : P.toNat < 2 ^ 61)
    (hs : s.toNat < 2 ^ 29) :
    (P - BitVec.ofNat 64 poolHeaderSize) * 8 / (s * 8 + 2).setWidth 64 =
      BitVec.ofNat 64 ((P.toNat - poolHeaderSize) * 8 / (s.toNat * 8 + 2)) := by
  have hsize := stub_size hlo
  have hmul : ((P - BitVec.ofNat 64 poolHeaderSize) * 8).toNat =
      (P.toNat - poolHeaderSize) * 8 := by
    rw [BitVec.toNat_mul, hsize, show (8 : BitVec 64).toNat = 8 from rfl]
    exact Nat.mod_eq_of_lt (by omega)
  have hdiv : ((s * 8 + 2).setWidth 64).toNat = s.toNat * 8 + 2 := by
    rw [BitVec.toNat_setWidth, BitVec.toNat_add, BitVec.toNat_mul,
      show (8 : BitVec 32).toNat = 8 from rfl, show (2 : BitVec 32).toNat = 2 from rfl,
      Nat.mod_eq_of_lt (show s.toNat * 8 < 2 ^ 32 by omega),
      Nat.mod_eq_of_lt (show s.toNat * 8 + 2 < 2 ^ 32 by omega)]
    exact Nat.mod_eq_of_lt (by omega)
  apply BitVec.eq_of_toNat_eq
  have hle : (P.toNat - poolHeaderSize) * 8 / (s.toNat * 8 + 2) ≤
      (P.toNat - poolHeaderSize) * 8 := Nat.div_le_self _ _
  rw [BitVec.toNat_udiv, hmul, hdiv, toNat_ofNat_lt (by omega)]

/-- INTERNAL: cell number and bitmap size of a type.
SOURCE: m_gc_obj.c:723-738 -/
theorem gcObjStartupStub_spec (hlo : poolHeaderSize ≤ P.toNat) (hhi : P.toNat < 2 ^ 61)
    (hs : s.toNat < 2 ^ 29)
    (hnum : num = (P.toNat - poolHeaderSize) * 8 / (s.toNat * 8 + 2))
    (hn : n = fitCells (P.toNat - poolHeaderSize) s.toNat num) (hfuel : num < fuel) :
    gcObjStartupStub fuel P s =
      .ok (BitVec.ofNat 64 n, BitVec.ofNat 64 (bitmapBytes n), triedDown num n) := by
  have hheader : poolHeaderSize = 40 := rfl
  have hspec := stubLoop_spec (z := P - BitVec.ofNat 64 poolHeaderSize) (s := s)
    (fun v hv => products_lt (hnum ▸ hv) (by omega)) hfuel
  rw [stub_size hlo, ← hn] at hspec
  rw [gcObjStartupStub, stub_start hlo hhi hs, ← hnum]
  exact hspec

/-- The loop computes with numbers that fit their words: `size` is the pool without its header,
`n` the result and `tried` everything that was tried. -/
structure SizingExact (size s : ℕ) (n : BitVec 64) (tried : List (BitVec 64)) : Prop where
  bytes : size * 8 < 2 ^ 64
  bits : s * 8 + 2 < 2 ^ 32
  products : ∀ v ∈ tried, v.toNat * 2 + 64 < 2 ^ 64 ∧
    v.toNat * s + (stubBitmapSize v).toNat < 2 ^ 64
  last : tried.getLast? = some n
  decremented : ∀ v ∈ tried.dropLast, 0 < v.toNat

/-- INTERNAL: the numbers that are tried, from the first one down. -/
theorem triedDown_eq (num n : ℕ) : triedDown num n =
    ((List.range' (n + 1) (num - n)).map (BitVec.ofNat 64)).reverse ++ [BitVec.ofNat 64 n] := by
  rw [triedDown, List.range'_succ, List.map_cons, List.reverse_cons]

/-- INTERNAL: every number that is tried is exact. -/
theorem sizingExact (hsize : size * 8 + 64 < 2 ^ 64) (hs : descrSize < 2 ^ 29)
    (hnum : num = size * 8 / (descrSize * 8 + 2)) (hn : n ≤ num) :
    SizingExact size descrSize (BitVec.ofNat 64 n) (triedDown num n) := by
  have hle : num ≤ size * 8 := hnum ▸ Nat.div_le_self _ _
  have hexact : ∀ v, v ≤ num → v * 2 + 64 < 2 ^ 64 ∧
      v * descrSize + bitmapBytes v < 2 ^ 64 := fun v hv => products_lt (hnum ▸ hv) hsize
  have htried : ∀ v ∈ triedDown num n, ∃ k, n ≤ k ∧ k ≤ num ∧ v = BitVec.ofNat 64 k := by
    intro v hv
    rw [triedDown, List.mem_reverse, List.mem_map] at hv
    obtain ⟨k, hk, rfl⟩ := hv
    rw [List.mem_range'_1] at hk
    exact ⟨k, hk.1, by omega, rfl⟩
  refine ⟨by omega, by omega, fun v hv => ?_, ?_, fun v hv => ?_⟩
  · obtain ⟨k, -, hk, rfl⟩ := htried v hv
    obtain ⟨h₁, h₂⟩ := hexact k hk
    rw [stubBitmapSize_toNat h₁, toNat_ofNat_lt (by omega)]
    exact ⟨h₁, h₂⟩
  · rw [triedDown_eq, List.getLast?_append]
    rfl
  · rw [triedDown_eq, List.dropLast_concat, List.mem_reverse, List.mem_map] at hv
    obtain ⟨k, hk, rfl⟩ := hv
    rw [List.mem_range'_1] at hk
    rw [toNat_ofNat_lt (by omega)]
    omega

/-- **Pool layout is safe and maximal.** For every pool size from the header up to `2 ^ 61` and
every cell size below `2 ^ 29` the sizing loop returns; bitmap and cells fit the pool behind its
header, no other layout has more cells, and the loop computes without a wrap and never takes one
away from zero.
SOURCE: m_gc_obj.c:713-742, m_macros.h:97-99, m_gc_internal.h:64-71 -/
theorem pool_layout_maximal (hlo : poolHeaderSize ≤ P.toNat) (hhi : P.toNat < 2 ^ 61)
    (hs : s.toNat < 2 ^ 29) : ∃ n b tried,
    (∀ fuel, (P.toNat - poolHeaderSize) * 8 / (s.toNat * 8 + 2) < fuel →
      gcObjStartupStub fuel P s = .ok (n, b, tried)) ∧
    PoolLayout P.toNat s.toNat n.toNat b.toNat ∧
    (∀ n' b', PoolLayout P.toNat s.toNat n' b' → n' ≤ n.toNat) ∧
    SizingExact (P.toNat - poolHeaderSize) s.toNat n tried := by
  have hsize : (P.toNat - poolHeaderSize) * 8 + 64 < 2 ^ 64 := by
    have hheader : poolHeaderSize = 40 := rfl
    omega
  obtain ⟨num, hnum⟩ : ∃ num, num = (P.toNat - poolHeaderSize) * 8 / (s.toNat * 8 + 2) :=
    ⟨_, rfl⟩
  obtain ⟨n, hn⟩ : ∃ n, n = fitCells (P.toNat - poolHeaderSize) s.toNat num := ⟨_, rfl⟩
  have hle : n ≤ num := hn ▸ fitCells_le_start _ _ _
  obtain ⟨h₁, h₂⟩ := products_lt (hnum ▸ hle) hsize
  have htoNat : (BitVec.ofNat 64 n).toNat = n := toNat_ofNat_lt (by omega)
  have htoNat' : (BitVec.ofNat 64 (bitmapBytes n)).toNat = bitmapBytes n :=
    toNat_ofNat_lt (by omega)
  have hbitmap := bitmapBytes_spec n
  have hfits := fitCells_le (P.toNat - poolHeaderSize) s.toNat num
  rw [← hn] at hfits
  refine ⟨_, _, _, fun fuel hfuel => gcObjStartupStub_spec hlo hhi hs hnum hn (hnum ▸ hfuel), ?_,
    fun n' b' h => ?_, sizingExact hsize hs hnum hle⟩
  · rw [htoNat, htoNat']
    exact ⟨by omega, hbitmap.2, by omega⟩
  · have hfits' := h.fits
    have hbits' := bitmapBytes_le h.bits h.words
    rw [htoNat, hn]
    refine le_fitCells ?_ (by omega)
    rw [hnum]
    exact layout_le_start (b := b') ⟨h.bits, h.words, by omega⟩

/-- A pool of the least page size, with cells of a `double`. -/
theorem pool_layout_maximal_page : ∃ n b : BitVec 64, ∃ tried,
    gcObjStartupStub 492 4096 8 = .ok (n, b, tried) := by
  obtain ⟨n, b, tried, h, -⟩ := pool_layout_maximal (P := 4096) (s := 8)
    (by decide) (by decide) (by decide)
  exact ⟨n, b, tried, h 492 (by decide)⟩

/-- INTERNAL: the cell number and the bitmap size of the heap model are what the machine
computes.
SOURCE: m_gc_obj.c:723-738 -/
theorem gcObjStartupStub_config (D : GCConfig) (type : MGCObjType) (hbits : D.poolBits < 61)
    (hs : (D.descrs type).size < 2 ^ 29) (hfuel : D.poolSize * 8 < fuel) :
    ∃ tried, gcObjStartupStub fuel (BitVec.ofNat 64 D.poolSize)
      (BitVec.ofNat 32 (D.descrs type).size) =
        .ok (BitVec.ofNat 64 (D.cellNum type), BitVec.ofNat 64 (D.bitmapSize type), tried) := by
  have hlo := poolSize_ge D
  have hhi : D.poolSize < 2 ^ 61 := Nat.pow_lt_pow_right (by decide) hbits
  have hP : (BitVec.ofNat 64 D.poolSize).toNat = D.poolSize := toNat_ofNat_lt (by omega)
  have hsize : (BitVec.ofNat 32 (D.descrs type).size).toNat = (D.descrs type).size := by
    rw [BitVec.toNat_ofNat]
    exact Nat.mod_eq_of_lt (by omega)
  have hheader : poolHeaderSize = 40 := rfl
  have hle : (D.poolSize - poolHeaderSize) * 8 / ((D.descrs type).size * 8 + 2) ≤
      (D.poolSize - poolHeaderSize) * 8 := Nat.div_le_self _ _
  refine ⟨_, gcObjStartupStub_spec (by omega) (by omega) (by omega) rfl ?_ ?_⟩
  · rw [hP, hsize, GCConfig.cellNum, Nat.mod_eq_of_lt (by omega)]
  · rw [hP, hsize]
    omega

end Ming.Analysis
