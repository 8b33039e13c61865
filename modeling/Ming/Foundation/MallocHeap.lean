import Mathlib.Logic.Function.Basic
import Ming.Foundation.Outcome

/-!
# The heap of malloc

What a program is promised of `malloc`, `realloc` and `free`. An address that they return is an
argument here, `0` when they fail, and so is the content of memory that was not written. Blocks
are numbered in the order of their allocation; a block that is moved by `realloc` stays the same
block.
-/

set_option autoImplicit false

namespace Ming.Foundation

/-- An allocated block. -/
structure Block (β : Type) where
  id : ℕ
  capacity : ℕ
  content : ℕ → β

/-- The content after a resize: what was there of it, and anything behind. -/
def Block.resized {β : Type} (b : Block β) (size : ℕ) (junk : ℕ → β) : Block β :=
  ⟨b.id, size, fun i => if i < min b.capacity size then b.content i else junk i⟩

/-- The content after a write. -/
def Block.written {β : Type} (b : Block β) (i : ℕ) (v : β) : Block β :=
  { b with content := Function.update b.content i v }

/-- The blocks by their addresses, the number of the next one, and the numbers of those that were
released. -/
structure MallocHeap (β : Type) where
  block : ℕ → Option (Block β)
  next : ℕ
  released : List ℕ

namespace MallocHeap

variable {β : Type}

/-- The heap of a program that has not allocated anything. -/
def empty (β : Type) : MallocHeap β := ⟨fun _ => none, 0, []⟩

/-- An address that `malloc` may return. -/
def Fresh (h : MallocHeap β) (answer : ℕ) : Prop := answer = 0 ∨ h.block answer = none

/-- `malloc (size)` -/
def malloc (h : MallocHeap β) (size answer : ℕ) (junk : ℕ → β) : ℕ × MallocHeap β :=
  if answer = 0 then (0, h)
  else (answer, { h with
    block := Function.update h.block answer (some ⟨h.next, size, junk⟩)
    next := h.next + 1 })

/-- `free (ptr)` -/
def free (h : MallocHeap β) (ptr : ℕ) : Outcome (MallocHeap β) :=
  if ptr = 0 then .ok h
  else
    match h.block ptr with
    | none => .error .unmapped
    | some b => .ok { h with
        block := Function.update h.block ptr none
        released := h.released ++ [b.id] }

/-- `realloc (ptr, size)`. A size of zero releases the block. -/
def realloc (h : MallocHeap β) (ptr size answer : ℕ) (junk : ℕ → β) :
    Outcome (ℕ × MallocHeap β) :=
  if ptr = 0 then .ok (h.malloc size answer junk)
  else
    match h.block ptr with
    | none => .error .unmapped
    | some b =>
      if size = 0 then do
        let h ← h.free ptr
        pure (0, h)
      else if answer = 0 then .ok (0, h)
      else .ok (answer, { h with
        block := Function.update (Function.update h.block ptr none) answer
          (some (b.resized size junk)) })

/-- `ptr[i] = v` -/
def store (h : MallocHeap β) (ptr i : ℕ) (v : β) : Outcome (MallocHeap β) :=
  match h.block ptr with
  | none => .error .unmapped
  | some b =>
    if i < b.capacity then .ok { h with
      block := Function.update h.block ptr (some (b.written i v)) }
    else .error .outOfBounds

variable {h : MallocHeap β} {ptr size answer i : ℕ} {b : Block β} {junk : ℕ → β} {v : β}

/-- INTERNAL: an allocation that succeeds. -/
theorem malloc_eq (ha : answer ≠ 0) : h.malloc size answer junk = (answer, { h with
    block := Function.update h.block answer (some ⟨h.next, size, junk⟩)
    next := h.next + 1 }) := if_neg ha

/-- INTERNAL: a block that is freed. -/
theorem free_eq (hp : ptr ≠ 0) (hb : h.block ptr = some b) : h.free ptr = .ok { h with
    block := Function.update h.block ptr none
    released := h.released ++ [b.id] } := by
  rw [free, if_neg hp, hb]

/-- INTERNAL: a resize to zero releases the block. -/
theorem realloc_zero (hp : ptr ≠ 0) (hb : h.block ptr = some b) :
    h.realloc ptr 0 answer junk = .ok (0, { h with
      block := Function.update h.block ptr none
      released := h.released ++ [b.id] }) := by
  rw [realloc, if_neg hp, hb]
  simp only [if_true, free_eq hp hb, Outcome.ok_bind, Outcome.pure_eq_ok]

/-- INTERNAL: a resize that fails keeps the block. -/
theorem realloc_failed (hp : ptr ≠ 0) (hb : h.block ptr = some b) (hs : size ≠ 0) :
    h.realloc ptr size 0 junk = .ok (0, h) := by
  rw [realloc, if_neg hp, hb]
  simp only [if_neg hs, if_true]

/-- INTERNAL: a resize that succeeds. -/
theorem realloc_eq (hp : ptr ≠ 0) (hb : h.block ptr = some b) (hs : size ≠ 0)
    (ha : answer ≠ 0) : h.realloc ptr size answer junk = .ok (answer, { h with
      block := Function.update (Function.update h.block ptr none) answer
        (some (b.resized size junk)) }) := by
  rw [realloc, if_neg hp, hb]
  simp only [if_neg hs, if_neg ha]

/-- INTERNAL: a store into a block. -/
theorem store_eq (hb : h.block ptr = some b) (hi : i < b.capacity) :
    h.store ptr i v = .ok { h with
      block := Function.update h.block ptr (some (b.written i v)) } := by
  rw [store, hb]
  exact if_pos hi

end MallocHeap

end Ming.Foundation
