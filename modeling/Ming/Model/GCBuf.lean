import Ming.Foundation.AlignUp
import Ming.Foundation.BufferAccount
import Ming.Model.GCHeap

/-!
# GC buffers (m_gc_buf.c)

The buffers of the collector are blocks of `malloc`. A call on them is a label, with the address
that the allocator answers with, and the program keeps its account: it passes back the size that
it asked for last.
-/

set_option autoImplicit false

namespace Ming.Model

open Ming.Foundation

/-- SOURCE: m_gc_buf.c:26-31 -/
def gcSizeAlign (size : BitVec 64) : BitVec 64 := alignUp size 8

namespace GCBuf

/-- The heap of `m_malloc`, `m_realloc` and `m_free`. SOURCE: m_malloc.h:36-75 -/
abbrev Heap := MallocHeap (BitVec 8)

/-- SOURCE: m_gc_buf.c:61-78 -/
def mGCAllocBuf (h : Heap) (size : BitVec 64) (answer : Addr) (junk : ℕ → BitVec 8) :
    Addr × Heap :=
  let size := gcSizeAlign size
  h.malloc size.toNat answer junk

/-- The size is a `uint32_t`. SOURCE: m_gc_buf.c:110-127 -/
def mGCFreeBuf (h : Heap) (ptr : Addr) (size : BitVec 32) : Outcome Heap :=
  if ptr = 0 ∨ size = 0 then .ok h else h.free ptr

/-- SOURCE: m_gc_buf.c:80-108 -/
def mGCReallocBuf (h : Heap) (ptr : Addr) (oldSize newSize : BitVec 64) (answer : Addr)
    (junk : ℕ → BitVec 8) : Outcome (Addr × Heap) :=
  if ptr = 0 ∨ oldSize = 0 then .ok (mGCAllocBuf h newSize answer junk)
  else if newSize = 0 then do
    let h ← mGCFreeBuf h ptr (oldSize.setWidth 32)
    pure (0, h)
  else if newSize ≤ oldSize then .ok (ptr, h)
  else
    let newSize := gcSizeAlign newSize
    h.realloc ptr newSize.toNat answer junk

end GCBuf

/-! ## The calls of a program -/

/-- A call on a buffer, or a write into one. -/
inductive BufCall where
  | alloc (size : BitVec 64) (answer : Addr) (junk : ℕ → BitVec 8)
  | resize (ptr : Addr) (size : BitVec 64) (answer : Addr) (junk : ℕ → BitVec 8)
  | free (ptr : Addr)
  | write (ptr : Addr) (i : ℕ) (v : BitVec 8)

/-- The heap, and the account of the program. -/
structure BufState where
  heap : GCBuf.Heap
  account : Account (BitVec 8)

/-- The buffer at an address. -/
def BufState.buffer (s : BufState) (ptr : Addr) : Outcome (Buffer (BitVec 8)) :=
  match s.account.live ptr with
  | none => .error .assertFailed
  | some u => .ok u

/-- A call, with the size of the buffer in the account. -/
def BufCall.exec (s : BufState) : BufCall → Outcome BufState
  | .alloc size answer junk =>
    let (ptr, heap) := GCBuf.mGCAllocBuf s.heap size answer junk
    .ok ⟨heap, if ptr = 0 then s.account
      else s.account.put ptr ⟨s.heap.next, size.toNat, fun _ => none⟩⟩
  | .resize ptr size answer junk => do
    let u ← s.buffer ptr
    let (ptr', heap) ←
      GCBuf.mGCReallocBuf s.heap ptr (BitVec.ofNat 64 u.size) size answer junk
    pure ⟨heap, if size = 0 then s.account.giveBack ptr u
      else if ptr' = 0 then s.account
      else (s.account.leave ptr).put ptr' (u.resized size.toNat)⟩
  | .free ptr => do
    let u ← s.buffer ptr
    let heap ← GCBuf.mGCFreeBuf s.heap ptr (BitVec.ofNat 32 u.size)
    pure ⟨heap, s.account.giveBack ptr u⟩
  | .write ptr i v => do
    let u ← s.buffer ptr
    let heap ← s.heap.store ptr i v
    pure ⟨heap, (s.account.leave ptr).put ptr (u.written i v)⟩

/-- The caller passes back live buffers of at least one byte and writes into them, and the
allocator answers with an address that is free, or where the buffer was. -/
def BufCall.Allowed (s : BufState) : BufCall → Prop
  | .alloc _ answer _ => s.heap.Fresh answer
  | .resize ptr _ answer _ => (answer = ptr ∨ s.heap.Fresh answer) ∧
    ∃ u, s.account.live ptr = some u ∧ 1 ≤ u.size
  | .free ptr => ∃ u, s.account.live ptr = some u ∧ 1 ≤ u.size
  | .write ptr i _ => ∃ u, s.account.live ptr = some u ∧ i < u.size

/-- A call; behind a fault there is no further call. -/
def BufStep (r : Outcome BufState) (call : BufCall) (r' : Outcome BufState) : Prop :=
  ∃ s, r = .ok s ∧ call.Allowed s ∧ r' = call.exec s

/-- The start of a program. -/
def bufStartup : BufState := ⟨MallocHeap.empty _, ⟨fun _ => none, []⟩⟩

end Ming.Model
