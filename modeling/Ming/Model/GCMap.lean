import Mathlib.Data.Nat.Log
import Ming.Foundation.MemoryMap
import Ming.Model.GCObj

/-!
# Mapping pools

The pool size that `gc_obj_startup` takes from the environment, and the address that `gc_mmap`
returns. `maps i` is the call number `i` of `mmap` within one call of `gc_mmap`, with the
address asked for and the length; what is unmapped again does not show in the address.
-/

set_option autoImplicit false

namespace Ming.Model

open Ming.Foundation

/-- SOURCE: m_gc_internal.h:116-120 -/
abbrev M_PAGE_SIZE : ℕ := 4096

/-- `(size + M_PAGE_MASK) & ~M_PAGE_MASK` -/
def pageRound (size : ℕ) : ℕ := (size + (M_PAGE_SIZE - 1)) / M_PAGE_SIZE * M_PAGE_SIZE

/-- The address of `size` mapped bytes.
SOURCE: m_gc_map.c:56-110 -/
def gcMmap (size : ℕ) (maps : ℕ → Option Addr → ℕ → Option Addr) : Option Addr :=
  let size := pageRound size
  -- a failed first call leaves NULL, whose low bits are clear
  match maps 0 none size with
  | none => none
  | some pu8 =>
    let low := pu8 % M_PAGE_SIZE
    if low = 0 then some pu8
    else if (maps 1 (some (pu8 + size)) (M_PAGE_SIZE - low)).isSome then
      some (pu8 + (M_PAGE_SIZE - low))
    else if (maps 2 (some (pu8 - low)) low).isSome then some (pu8 - low)
    else
      match maps 3 none (size + M_PAGE_SIZE - 1) with
      | none => none
      | some pu8 =>
        let low := pu8 % M_PAGE_SIZE
        if low ≠ 0 then some (pu8 + (M_PAGE_SIZE - low)) else some pu8

/-- The smallest power of two that is not below `n`, or 0 when there is none.
SOURCE: m_gc_obj.c:679-684 -/
def gcPowerOfTwo (n : BitVec 64) : ℕ → BitVec 64 → Outcome (BitVec 64)
  | 0, _ => .error .outOfFuel
  | k + 1, v =>
    if n ≤ v then .ok v
    else if v <<< 1 = 0 then .ok 0
    else gcPowerOfTwo n k (v <<< 1)

/-- `LONG_MAX` -/
abbrev LONG_MAX : BitVec 64 := BitVec.ofNat 64 (2 ^ 63 - 1)

/-- The pool size. `n` is what `strtol` makes of the environment variable, and is compared as a
`size_t`.
SOURCE: m_gc_obj.c:672-693 -/
def gcCellPoolSize (n : Option (BitVec 64)) : Outcome (BitVec 64) :=
  match n with
  | none => .ok (BitVec.ofNat 64 M_PAGE_SIZE)
  | some n =>
    if n ≠ LONG_MAX ∧ BitVec.ofNat 64 M_PAGE_SIZE < n then do
      let v ← gcPowerOfTwo n 64 1
      -- a size that is no power of two is reported and not used
      if n ≠ v then pure (BitVec.ofNat 64 M_PAGE_SIZE) else pure n
    else .ok (BitVec.ofNat 64 M_PAGE_SIZE)

/-- `gc_cell_pool_mask`
SOURCE: m_gc_obj.c:695 -/
def gcCellPoolMask (size : BitVec 64) : BitVec 64 := ~~~(size - 1)

/-- The configuration that the environment variable leads to. -/
def startupConfig (n : Option (BitVec 64)) : GCConfig :=
  { defaultConfig with
    poolBits := match gcCellPoolSize n with
      | .ok size => max 12 (Nat.log 2 size.toNat)
      | .error _ => 12
    page_le := by
      split
      · exact le_max_left _ _
      · exact le_rfl }

/-! ## The system calls of `gc_mmap` -/

/-- What is left of `size + M_PAGE_SIZE - 1` bytes at `pu8`.
SOURCE: m_gc_map.c:91-109 -/
def gcMmapTrim (pageSize size : ℕ) (pu8 : Addr) : Addr × List MapCall :=
  let low := pu8 % pageSize
  if low ≠ 0 then
    let diff := pageSize - low
    (pu8 + diff, [.munmap pu8 diff, .munmap (pu8 + (diff + size)) (pageSize - 1 - diff)])
  else (pu8, [.munmap (pu8 + size) (pageSize - 1)])

/-- `gc_mmap` with its system calls, for any `M_PAGE_SIZE` that is a power of two. `maps` is as
for `gcMmap`, and `NULL` is 0.
SOURCE: m_gc_map.c:56-110 -/
def gcMmapCalls (pageSize size : ℕ) (maps : ℕ → Option Addr → ℕ → Option Addr) :
    Addr × List MapCall :=
  let size := (size + (pageSize - 1)) % 2 ^ 64 / pageSize * pageSize
  match maps 0 none size with
  | none => (0, [.mmap none size none])
  | some pu8 =>
    let calls : List MapCall := [.mmap none size (some pu8)]
    let low := pu8 % pageSize
    if low = 0 then (pu8, calls)
    else
      let diff := pageSize - low
      let second := maps 1 (some (pu8 + size)) diff
      let calls := calls ++ [.mmap (some (pu8 + size)) diff second]
      if second.isSome then (pu8 + diff, calls ++ [.munmap pu8 diff])
      else
        let third := maps 2 (some (pu8 - low)) low
        let calls := calls ++ [.mmap (some (pu8 - low)) low third]
        if third.isSome then (pu8 - low, calls ++ [.munmap (pu8 + size - low) low])
        else
          let len := (size + pageSize - 1) % 2 ^ 64
          let calls := calls ++ [.munmap pu8 size]
          match maps 3 none len with
          | none => (0, calls ++ [.mmap none len none])
          | some pu8 =>
            let (ptr, trims) := gcMmapTrim pageSize size pu8
            (ptr, calls ++ .mmap none len (some pu8) :: trims)

end Ming.Model
