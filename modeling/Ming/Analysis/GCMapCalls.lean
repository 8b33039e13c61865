import Ming.Model.GCMap

/-!
# The mappings of `gc_mmap`

A block that `mmap` has placed between two page boundaries is moved to one of them: bytes are
mapped at one end and unmapped at the other. The address that the system is asked for is a hint,
and `gc_mmap` does not look where the new bytes are. What it returns is mapped exactly when they
are where it asked for them.
-/

set_option autoImplicit false

namespace Ming.Analysis

open Ming.Foundation Ming.Model

variable {page pageSize size p q s len : ℕ} {M : Set ℕ}
variable {maps : ℕ → Option Addr → ℕ → Option Addr}

/-- What a call of `gc_mmap` is for: a block of whole pages that was free before and is all that
was mapped, or nothing at all. -/
structure MmapRight (page pageSize size : ℕ) (M : Set ℕ) (r : Addr × List MapCall) : Prop where
  block : r.1 ≠ 0 → pageSize ∣ r.1 ∧
    Disjoint M (Set.Ico r.1 (r.1 + roundUp size pageSize)) ∧
    mapAfter page M r.2 = M ∪ Set.Ico r.1 (r.1 + roundUp size pageSize)
  failed : r.1 = 0 → mapAfter page M r.2 = M

/-- When the first block is not aligned, the bytes that are mapped above it, or else below it, are
where they were asked for. -/
def HintsKept (pageSize size : ℕ) (maps : ℕ → Option Addr → ℕ → Option Addr) : Prop :=
  ∀ pu8, maps 0 none (roundUp size pageSize) = some pu8 → pu8 % pageSize ≠ 0 →
    (∀ q, maps 1 (some (pu8 + roundUp size pageSize)) (pageSize - pu8 % pageSize) = some q →
      q = pu8 + roundUp size pageSize) ∧
    (maps 1 (some (pu8 + roundUp size pageSize)) (pageSize - pu8 % pageSize) = none →
      ∀ q, maps 2 (some (pu8 - pu8 % pageSize)) (pu8 % pageSize) = some q →
        q = pu8 - pu8 % pageSize)

/-- The page of the system is a power of two, and that of the collector a multiple of it that is
a power of two. -/
structure PageSizes (page pageSize : ℕ) : Prop where
  systemPow : ∃ j, page = 2 ^ j
  collectorPow : ∃ k, pageSize = 2 ^ k
  dvd : page ∣ pageSize

namespace PageSizes

/-- INTERNAL: a page has some bytes. -/
theorem pos (h : PageSizes page pageSize) : 0 < pageSize := by
  obtain ⟨k, rfl⟩ := h.collectorPow
  exact Nat.two_pow_pos k

/-- INTERNAL: the rounded size.
SOURCE: m_gc_map.c:63 -/
theorem rounded (hr : size + (pageSize - 1) < 2 ^ 64) :
    (size + (pageSize - 1)) % 2 ^ 64 / pageSize * pageSize = roundUp size pageSize := by
  rw [Nat.mod_eq_of_lt hr]
  rfl

/-- INTERNAL: the length of the big buffer does not wrap.
SOURCE: m_gc_map.c:88 -/
theorem bigLength (h : PageSizes page pageSize) (hsize : 0 < size)
    (hr : size + (pageSize - 1) < 2 ^ 64) : (roundUp size pageSize + pageSize - 1) % 2 ^ 64 =
      roundUp size pageSize + (pageSize - 1) := by
  have hpos := h.pos
  have hlt : roundUp size pageSize < 2 ^ 64 := by
    have := roundUp_lt (n := size) hpos
    omega
  have hle : roundUp size pageSize + pageSize ≤ 2 ^ 64 := by
    obtain ⟨k, rfl⟩ := h.collectorPow
    have hk : k ≤ 64 := by
      by_contra hk
      have : 2 ^ 65 ≤ 2 ^ k := Nat.pow_le_pow_right (by decide) (by omega)
      omega
    obtain ⟨a, ha⟩ := dvd_roundUp size (2 ^ k)
    obtain ⟨b, hb⟩ := Nat.pow_dvd_pow 2 hk
    rw [ha, hb] at hlt
    rw [ha, hb, ← Nat.mul_succ]
    exact Nat.mul_le_mul_left _ (Nat.succ_le_of_lt (Nat.lt_of_mul_lt_mul_left hlt))
  rw [Nat.mod_eq_of_lt (by omega)]
  omega

/-- INTERNAL: an address between two page boundaries. -/
theorem low_spec (h : PageSizes page pageSize) (hp : page ∣ p) :
    p % pageSize < pageSize ∧ p % pageSize ≤ p ∧ page ∣ p % pageSize ∧
      pageSize ∣ p + (pageSize - p % pageSize) ∧ pageSize ∣ p - p % pageSize := by
  have hlt := Nat.mod_lt p h.pos
  refine ⟨hlt, Nat.mod_le p _, (Nat.dvd_mod_iff h.dvd).mpr hp, ?_, Nat.dvd_sub_mod p⟩
  have hsum : p + (pageSize - p % pageSize) = p - p % pageSize + pageSize := by
    have := Nat.mod_le p pageSize
    omega
  rw [hsum]
  exact Nat.dvd_add (Nat.dvd_sub_mod p) (Nat.dvd_refl _)

end PageSizes

/-! ## The paths of `gc_mmap` -/

section Paths

variable (hS : (size + (pageSize - 1)) % 2 ^ 64 / pageSize * pageSize = s)

include hS

/-- INTERNAL: the first call fails. -/
theorem gcMmapCalls_failed (hfirst : maps 0 none s = none) :
    gcMmapCalls pageSize size maps = (0, [.mmap none s none]) := by
  simp only [gcMmapCalls, hS, hfirst]

/-- INTERNAL: the first call answers with an aligned block. -/
theorem gcMmapCalls_aligned (hfirst : maps 0 none s = some p) (hlow : p % pageSize = 0) :
    gcMmapCalls pageSize size maps = (p, [.mmap none s (some p)]) := by
  simp only [gcMmapCalls, hS, hfirst, hlow, if_true]

/-- INTERNAL: the block is extended at its end. -/
theorem gcMmapCalls_up (hfirst : maps 0 none s = some p) (hlow : p % pageSize ≠ 0)
    (hsecond : maps 1 (some (p + s)) (pageSize - p % pageSize) = some q) :
    gcMmapCalls pageSize size maps = (p + (pageSize - p % pageSize),
      [.mmap none s (some p), .mmap (some (p + s)) (pageSize - p % pageSize) (some q),
        .munmap p (pageSize - p % pageSize)]) := by
  simp only [gcMmapCalls, hS, hfirst, hlow, if_false, hsecond, Option.isSome_some, if_true,
    List.cons_append, List.nil_append]

/-- INTERNAL: the block is extended at its beginning. -/
theorem gcMmapCalls_down (hfirst : maps 0 none s = some p) (hlow : p % pageSize ≠ 0)
    (hsecond : maps 1 (some (p + s)) (pageSize - p % pageSize) = none)
    (hthird : maps 2 (some (p - p % pageSize)) (p % pageSize) = some q) :
    gcMmapCalls pageSize size maps = (p - p % pageSize,
      [.mmap none s (some p), .mmap (some (p + s)) (pageSize - p % pageSize) none,
        .mmap (some (p - p % pageSize)) (p % pageSize) (some q),
        .munmap (p + s - p % pageSize) (p % pageSize)]) := by
  simp only [gcMmapCalls, hS, hfirst, hlow, if_false, hsecond, Option.isSome_none,
    Bool.false_eq_true, hthird, Option.isSome_some, if_true, List.cons_append, List.nil_append]

section Big

variable (hfirst : maps 0 none s = some p) (hlow : p % pageSize ≠ 0)
variable (hsecond : maps 1 (some (p + s)) (pageSize - p % pageSize) = none)
variable (hthird : maps 2 (some (p - p % pageSize)) (p % pageSize) = none)
variable (hlen : (s + pageSize - 1) % 2 ^ 64 = len)
include hfirst hlow hsecond hthird hlen

/-- INTERNAL: the last stage fails, after the first block was given back. -/
theorem gcMmapCalls_none (hlast : maps 3 none len = none) :
    gcMmapCalls pageSize size maps = (0, [.mmap none s (some p),
      .mmap (some (p + s)) (pageSize - p % pageSize) none,
      .mmap (some (p - p % pageSize)) (p % pageSize) none, .munmap p s,
      .mmap none len none]) := by
  simp only [gcMmapCalls, hS, hfirst, hlow, if_false, hsecond, Option.isSome_none,
    Bool.false_eq_true, hthird, List.cons_append, List.nil_append, hlen, hlast]

/-- INTERNAL: the last stage. -/
theorem gcMmapCalls_big (hlast : maps 3 none len = some q) :
    gcMmapCalls pageSize size maps = ((gcMmapTrim pageSize s q).1, .mmap none s (some p) ::
      .mmap (some (p + s)) (pageSize - p % pageSize) none ::
      .mmap (some (p - p % pageSize)) (p % pageSize) none :: .munmap p s ::
      .mmap none len (some q) :: (gcMmapTrim pageSize s q).2) := by
  simp only [gcMmapCalls, hS, hfirst, hlow, if_false, hsecond, Option.isSome_none,
    Bool.false_eq_true, hthird, List.cons_append, List.nil_append, hlen, hlast]

end Big

end Paths

/-! ## What each path leaves mapped -/

section Mapped

variable {calls calls' : List MapCall} {hint hint' : Option ℕ} {d d' : ℕ}

/-- INTERNAL: what is right for a block. -/
theorem mmapRight_iff (hp : p ≠ 0) : MmapRight page pageSize size M (p, calls) ↔
    pageSize ∣ p ∧ Disjoint M (Set.Ico p (p + roundUp size pageSize)) ∧
      mapAfter page M calls = M ∪ Set.Ico p (p + roundUp size pageSize) := by
  constructor
  · intro h
    exact h.block hp
  · intro h
    exact ⟨fun _ => h, fun hzero => absurd hzero hp⟩

/-- INTERNAL: a failure that keeps the map is right. -/
theorem mmapRight_null (hcalls : mapAfter page M calls = M) :
    MmapRight page pageSize size M (0, calls) :=
  ⟨fun hne => absurd rfl hne, fun _ => hcalls⟩

/-- INTERNAL: only the map after the calls counts. -/
theorem MmapRight.of_mapAfter (hright : MmapRight page pageSize size M (p, calls))
    (heq : mapAfter page M calls' = mapAfter page M calls) :
    MmapRight page pageSize size M (p, calls') :=
  ⟨fun hne => heq ▸ hright.block hne, fun hzero => heq.trans (hright.failed hzero)⟩

variable (h : PageSizes page pageSize) (hs : roundUp size pageSize = s)
include h hs

/-- INTERNAL: the block is made of whole pages. -/
theorem block_pages : pageSize ∣ s ∧ page ∣ s ∧ roundUp s page = s := by
  have hdvd : pageSize ∣ s := hs ▸ dvd_roundUp size pageSize
  exact ⟨hdvd, h.dvd.trans hdvd, roundUp_of_dvd (h.dvd.trans hdvd)⟩

/-- INTERNAL: a block has at least one page. -/
theorem pageSize_le_block (hsize : 0 < size) : pageSize ≤ s :=
  Nat.le_of_dvd (lt_of_lt_of_le hsize (hs ▸ le_roundUp h.pos)) (block_pages h hs).1

/-- INTERNAL: the first block is aligned. -/
theorem aligned_right (hlow : p % pageSize = 0)
    (hadm : AllAdmitted page M [.mmap none s (some p)]) :
    MmapRight page pageSize size M (p, [.mmap none s (some p)]) := by
  obtain ⟨-, -, hround⟩ := block_pages h hs
  obtain ⟨⟨hp, hpage, hend, hfree⟩, -⟩ := hadm
  rw [pagesOf, hround] at hfree
  rw [mmapRight_iff hp, hs, mapAfter_cons, mapAfter_nil, apply_mmap, hround]
  exact ⟨Nat.dvd_of_mod_eq_zero hlow, hfree, rfl⟩

/-- INTERNAL: the block was moved to the boundary above it. -/
theorem up_right_iff (hsize : 0 < size) (hadm : AllAdmitted page M [.mmap none s (some p),
      .mmap (some (p + s)) (pageSize - p % pageSize) (some q),
      .munmap p (pageSize - p % pageSize)]) :
    MmapRight page pageSize size M (p + (pageSize - p % pageSize), [.mmap none s (some p),
      .mmap (some (p + s)) (pageSize - p % pageSize) (some q),
      .munmap p (pageSize - p % pageSize)]) ↔ q = p + s := by
  obtain ⟨-, hspage, hround⟩ := block_pages h hs
  have hps := pageSize_le_block h hs hsize
  obtain ⟨⟨hp, hpage, hend, hfree⟩, ⟨hq, hqpage, hqend, hqfree⟩, -⟩ := hadm
  obtain ⟨hlt, hle, hlowpage, hup, hdown⟩ := h.low_spec hpage
  have hdiff : roundUp (pageSize - p % pageSize) page = pageSize - p % pageSize :=
    roundUp_of_dvd (Nat.dvd_sub h.dvd hlowpage)
  rw [pagesOf, hround] at hfree
  rw [apply_mmap, hround, pagesOf, hdiff] at hqfree
  rw [mmapRight_iff (by omega), hs, mapAfter_cons, mapAfter_cons, mapAfter_cons, mapAfter_nil,
    apply_munmap hpage, apply_mmap, apply_mmap, hround, hdiff]
  rw [← moved_up_iff hfree hqfree (by omega) (by omega)]
  exact and_iff_right hup

/-- INTERNAL: the block was moved to the boundary below it. Should this be the address zero, the
caller takes it for a failure. -/
theorem down_right_iff (hsize : 0 < size) (hlow : p % pageSize ≠ 0)
    (hadm : AllAdmitted page M [.mmap none s (some p),
      .mmap (some (p + s)) (pageSize - p % pageSize) none,
      .mmap (some (p - p % pageSize)) (p % pageSize) (some q),
      .munmap (p + s - p % pageSize) (p % pageSize)]) :
    MmapRight page pageSize size M (p - p % pageSize, [.mmap none s (some p),
      .mmap (some (p + s)) (pageSize - p % pageSize) none,
      .mmap (some (p - p % pageSize)) (p % pageSize) (some q),
      .munmap (p + s - p % pageSize) (p % pageSize)]) ↔ q = p - p % pageSize := by
  obtain ⟨-, hspage, hround⟩ := block_pages h hs
  have hps := pageSize_le_block h hs hsize
  obtain ⟨⟨hp, hpage, hend, hfree⟩, -, ⟨hq, hqpage, hqend, hqfree⟩, -⟩ := hadm
  obtain ⟨hlt, hle, hlowpage, hup, hdown⟩ := h.low_spec hpage
  have hdiff : roundUp (p % pageSize) page = p % pageSize := roundUp_of_dvd hlowpage
  have hcut : page ∣ p + s - p % pageSize :=
    Nat.dvd_sub (Nat.dvd_add hpage hspage) hlowpage
  rw [pagesOf, hround] at hfree
  rw [apply_failed, apply_mmap, hround, pagesOf, hdiff] at hqfree
  have hafter : mapAfter page M [.mmap none s (some p),
      .mmap (some (p + s)) (pageSize - p % pageSize) none,
      .mmap (some (p - p % pageSize)) (p % pageSize) (some q),
      .munmap (p + s - p % pageSize) (p % pageSize)] =
      ((M ∪ Set.Ico p (p + s)) ∪ Set.Ico q (q + p % pageSize)) \
        Set.Ico (p + s - p % pageSize) (p + s - p % pageSize + p % pageSize) := by
    rw [mapAfter_cons, mapAfter_cons, mapAfter_cons, mapAfter_cons, mapAfter_nil, apply_failed,
      apply_munmap hcut, apply_mmap, apply_mmap, hround, hdiff]
  by_cases hzero : p - p % pageSize = 0
  · -- the first page of the block stays mapped
    refine iff_of_false (fun hright => ?_) (by omega)
    have hM := hright.failed hzero
    rw [hafter] at hM
    have hin : p ∈ M := by
      rw [← hM]
      exact ⟨Or.inl (Or.inr ⟨le_rfl, by omega⟩), fun hx => absurd hx.1 (by omega)⟩
    rcases disjoint_Ico hfree hin with hx | hx
    · omega
    · omega
  · rw [mmapRight_iff hzero, hs, hafter, ← moved_down_iff hfree hqfree (by omega) (by omega) hle]
    exact and_iff_right hdown

/-- INTERNAL: the first block is given back, and could be answered again. -/
theorem given_back (hadm : AllAdmitted page M (.mmap none s (some p) :: .mmap hint d none ::
      .mmap hint' d' none :: .munmap p s :: calls)) :
    AllAdmitted page M calls ∧ mapAfter page M (.mmap none s (some p) :: .mmap hint d none ::
      .mmap hint' d' none :: .munmap p s :: calls) = mapAfter page M calls := by
  obtain ⟨-, -, hround⟩ := block_pages h hs
  obtain ⟨⟨hp, hpage, hend, hfree⟩, -, -, -, hrest⟩ := hadm
  rw [pagesOf, hround] at hfree
  rw [apply_failed, apply_failed, apply_munmap hpage, apply_mmap, hround,
    unmap_new hfree] at hrest
  rw [mapAfter_cons, mapAfter_cons, mapAfter_cons, mapAfter_cons, apply_failed, apply_failed,
    apply_munmap hpage, apply_mmap, hround, unmap_new hfree]
  exact ⟨hrest, rfl⟩

/-- INTERNAL: both ends of the big buffer are cut off. -/
theorem big_right (hpow : 0 < page) (hadm : AllAdmitted page M
      (.mmap none (s + (pageSize - 1)) (some p) :: (gcMmapTrim pageSize s p).2)) :
    MmapRight page pageSize size M ((gcMmapTrim pageSize s p).1,
      .mmap none (s + (pageSize - 1)) (some p) :: (gcMmapTrim pageSize s p).2) := by
  obtain ⟨-, hspage, hround⟩ := block_pages h hs
  have hpos := h.pos
  obtain ⟨⟨hp, hpage, hend, hfree⟩, -⟩ := hadm
  obtain ⟨hlt, hle, hlowpage, hup, hdown⟩ := h.low_spec hpage
  have hlen : roundUp (s + (pageSize - 1)) page = roundUp (pageSize - 1) page + s := by
    rw [Nat.add_comm s, roundUp_add hspage]
  rw [pagesOf, hlen] at hfree
  by_cases hlow : p % pageSize = 0
  · have hcut : page ∣ p + s := Nat.dvd_add hpage hspage
    have hends := unmap_ends hfree (Nat.zero_le _)
    simp only [Nat.add_zero, Nat.zero_add, Nat.sub_zero, Set.Ico_self, Set.sdiff_empty] at hends
    simp only [gcMmapTrim, hlow, ne_eq, not_true_eq_false, if_false]
    rw [mmapRight_iff hp, hs, mapAfter_cons, mapAfter_cons, mapAfter_nil, apply_munmap hcut,
      apply_mmap, hlen]
    exact ⟨Nat.dvd_of_mod_eq_zero hlow, hends⟩
  · -- the bytes behind the block are whole pages, also when `M_PAGE_SIZE - 1` is not
    have hdiff : page ∣ pageSize - p % pageSize := Nat.dvd_sub h.dvd hlowpage
    have hle' : pageSize - p % pageSize ≤ pageSize - 1 := by omega
    have hrest : roundUp (pageSize - 1 - (pageSize - p % pageSize)) page =
        roundUp (pageSize - 1) page - (pageSize - p % pageSize) := by
      have hadd := roundUp_add (n := pageSize - 1 - (pageSize - p % pageSize)) hdiff
      rw [Nat.sub_add_cancel hle'] at hadd
      omega
    have hcut : page ∣ p + (pageSize - p % pageSize + s) :=
      Nat.dvd_add hpage (Nat.dvd_add hdiff hspage)
    have hends := unmap_ends hfree (hle'.trans (le_roundUp hpow))
    simp only [gcMmapTrim, hlow, ne_eq, not_false_eq_true, if_true]
    rw [mmapRight_iff (by omega), hs, mapAfter_cons, mapAfter_cons, mapAfter_cons, mapAfter_nil,
      apply_munmap hcut, apply_munmap hpage, apply_mmap, hlen, roundUp_of_dvd hdiff, hrest]
    exact ⟨hup, hends⟩

end Mapped

/-! ## All answers of the system -/

/-- INTERNAL: a page of the system has some bytes. -/
theorem PageSizes.page_pos (h : PageSizes page pageSize) : 0 < page := by
  obtain ⟨j, rfl⟩ := h.systemPow
  exact Nat.two_pow_pos j

/-- **`gc_mmap` and the hints it gives.** For any answers of the system, a block that is returned
is aligned and all that was mapped, and a failure leaves nothing mapped, exactly when the bytes
that should move an unaligned block to a page boundary were mapped next to it. Otherwise the
block is returned with a hole at the end that was to be added.

SOURCE: m_gc_map.c:56-110 -/
theorem gc_mmap_iff (h : PageSizes page pageSize) (hsize : 0 < size)
    (hr : size + (pageSize - 1) < 2 ^ 64)
    (hadm : AllAdmitted page M (gcMmapCalls pageSize size maps).2) :
    MmapRight page pageSize size M (gcMmapCalls pageSize size maps) ↔
      HintsKept pageSize size maps := by
  have hS := PageSizes.rounded hr
  unfold HintsKept
  generalize hs : roundUp size pageSize = s at hS ⊢
  cases hfirst : maps 0 none s with
  | none =>
    rw [gcMmapCalls_failed hS hfirst]
    refine iff_of_true (mmapRight_null rfl) ?_
    intro pu8 heq
    cases heq
  | some p =>
    simp only [Option.some.injEq, forall_eq']
    by_cases hlow : p % pageSize = 0
    · rw [gcMmapCalls_aligned hS hfirst hlow] at hadm ⊢
      exact iff_of_true (aligned_right h hs hlow hadm) fun hne => absurd hlow hne
    cases hsecond : maps 1 (some (p + s)) (pageSize - p % pageSize) with
    | some q =>
      rw [gcMmapCalls_up hS hfirst hlow hsecond] at hadm ⊢
      rw [up_right_iff h hs hsize hadm]
      simp [hlow]
    | none =>
      cases hthird : maps 2 (some (p - p % pageSize)) (p % pageSize) with
      | some q =>
        rw [gcMmapCalls_down hS hfirst hlow hsecond hthird] at hadm ⊢
        rw [down_right_iff h hs hsize hlow hadm]
        simp [hlow]
      | none =>
        have hlen : (s + pageSize - 1) % 2 ^ 64 = s + (pageSize - 1) :=
          hs ▸ h.bigLength hsize hr
        -- neither of the two hints was used
        refine iff_of_true ?_ (by simp)
        cases hlast : maps 3 none (s + (pageSize - 1)) with
        | none =>
          rw [gcMmapCalls_none hS hfirst hlow hsecond hthird hlen hlast] at hadm ⊢
          obtain ⟨-, heq⟩ := given_back h hs hadm
          exact mmapRight_null heq
        | some pu8 =>
          rw [gcMmapCalls_big hS hfirst hlow hsecond hthird hlen hlast] at hadm ⊢
          obtain ⟨hadm', heq⟩ := given_back h hs hadm
          exact (big_right h hs h.page_pos hadm').of_mapAfter heq

/-- A system that answers with an odd page first, and then with the pages at `ptr`. -/
def oddFirst (ptr : Addr) (i : ℕ) (_ : Option Addr) (_ : ℕ) : Option Addr :=
  if i = 0 then some 4096 else some ptr

/-- A system that keeps the hint. -/
theorem gc_mmap_iff_kept :
    MmapRight 4096 8192 8192 ∅ (gcMmapCalls 8192 8192 (oddFirst 12288)) ↔
      HintsKept 8192 8192 (oddFirst 12288) := by
  apply gc_mmap_iff ⟨⟨12, rfl⟩, ⟨13, rfl⟩, ⟨2, rfl⟩⟩ (by decide) (by decide)
  have hcalls : gcMmapCalls 8192 8192 (oddFirst 12288) = (8192, [.mmap none 8192 (some 4096),
      .mmap (some 12288) 4096 (some 12288), .munmap 4096 4096]) := by decide
  simp [hcalls, AllAdmitted, MapCall.Admitted, MapCall.apply, pagesOf, roundUp]

/-- With pages of 4096 bytes in the system and 8192 in the collector, the block at 8192
is returned, and its second page is not mapped. -/
theorem gc_mmap_hole :
    AllAdmitted 4096 ∅ (gcMmapCalls 8192 8192 (oddFirst 65536)).2 ∧
      (gcMmapCalls 8192 8192 (oddFirst 65536)).1 = 8192 ∧
      12288 ∉ mapAfter 4096 ∅ (gcMmapCalls 8192 8192 (oddFirst 65536)).2 ∧
      ¬MmapRight 4096 8192 8192 ∅ (gcMmapCalls 8192 8192 (oddFirst 65536)) := by
  have hcalls : gcMmapCalls 8192 8192 (oddFirst 65536) = (8192, [.mmap none 8192 (some 4096),
      .mmap (some 12288) 4096 (some 65536), .munmap 4096 4096]) := by decide
  have hout : 12288 ∉ mapAfter 4096 ∅ (gcMmapCalls 8192 8192 (oddFirst 65536)).2 := by
    simp [hcalls, MapCall.apply, pagesOf, roundUp]
  have hadm : AllAdmitted 4096 ∅ (gcMmapCalls 8192 8192 (oddFirst 65536)).2 := by
    simp [hcalls, AllAdmitted, MapCall.Admitted, MapCall.apply, pagesOf, roundUp]
  refine ⟨hadm, by decide, hout, fun hright => ?_⟩
  have hblock := (hright.block (by decide)).2.2
  rw [hblock] at hout
  exact hout (Or.inr (by simp [hcalls, roundUp]))

/-- INTERNAL: the address is the one that the pools of the collector are given.
SOURCE: m_gc_map.c:56-110 -/
theorem gcMmapCalls_address (hsize : 0 < size) (hr : size + (M_PAGE_SIZE - 1) < 2 ^ 64) :
    (gcMmapCalls M_PAGE_SIZE size maps).1 = (gcMmap size maps).getD 0 := by
  have hpage : PageSizes M_PAGE_SIZE M_PAGE_SIZE := ⟨⟨12, rfl⟩, ⟨12, rfl⟩, dvd_rfl⟩
  have hS := PageSizes.rounded hr
  have hround : roundUp size M_PAGE_SIZE = pageRound size := rfl
  have hlen := hpage.bigLength hsize hr
  rw [hround] at hS hlen
  generalize hs : pageRound size = s at hS hlen
  cases hfirst : maps 0 none s with
  | none => simp [gcMmapCalls_failed hS hfirst, gcMmap, hs, hfirst]
  | some p =>
    by_cases hlow : p % M_PAGE_SIZE = 0
    · simp [gcMmapCalls_aligned hS hfirst hlow, gcMmap, hs, hfirst, hlow]
    cases hsecond : maps 1 (some (p + s)) (M_PAGE_SIZE - p % M_PAGE_SIZE) with
    | some q => simp [gcMmapCalls_up hS hfirst hlow hsecond, gcMmap, hs, hfirst, hlow, hsecond]
    | none =>
      cases hthird : maps 2 (some (p - p % M_PAGE_SIZE)) (p % M_PAGE_SIZE) with
      | some q =>
        simp [gcMmapCalls_down hS hfirst hlow hsecond hthird, gcMmap, hs, hfirst, hlow, hsecond,
          hthird]
      | none =>
        cases hlast : maps 3 none (s + 4095) with
        | none =>
          simp [gcMmapCalls_none hS hfirst hlow hsecond hthird hlen hlast, gcMmap, hs, hfirst,
            hlow, hsecond, hthird, hlast]
        | some pu8 =>
          rw [gcMmapCalls_big hS hfirst hlow hsecond hthird hlen hlast]
          by_cases hlow' : pu8 % M_PAGE_SIZE = 0
          · simp [gcMmapTrim, gcMmap, hs, hfirst, hlow, hsecond, hthird, hlast, hlow']
          · simp [gcMmapTrim, gcMmap, hs, hfirst, hlow, hsecond, hthird, hlast, hlow']

end Ming.Analysis
