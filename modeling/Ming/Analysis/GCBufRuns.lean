import Ming.Foundation.Runs
import Ming.Model.GCBuf

/-!
# GC buffers over whole runs

Buffers keep their size and content, and the right ones are released, as long as no size gets
lost on its way: an alignment that wraps asks `malloc` for nothing, or has `realloc` release the
buffer, and `m_gc_free_buf` takes a size whose low 32 bits are clear for none.
-/

set_option autoImplicit false

namespace Ming.Analysis

open Ming.Foundation Ming.Model

variable {s s' : BufState} {r : Outcome BufState} {call : BufCall} {calls : List BufCall}
variable {σ : ℕ → Outcome BufState} {size : BitVec 64} {ptr answer : Addr} {junk : ℕ → BitVec 8}
variable {u : Buffer (BitVec 8)} {n : ℕ}

/-- The blocks of the heap are as large as the buffers of the program and hold what it wrote
there, and exactly the buffers that were given back are released. -/
def BufRight (r : Outcome BufState) : Prop := ∃ s, r = .ok s ∧ s.account.Right s.heap

/-- No size of the call gets lost: the size of a new buffer, or of one that grows, is at most
`2 ^ 64 - 8`, or `malloc` fails; and a buffer is given back whose size is not a multiple of
`2 ^ 32`. -/
def SizesKept (s : BufState) : BufCall → Prop
  | .alloc size answer _ => answer = 0 ∨ size.toNat ≤ 2 ^ 64 - 8
  | .resize ptr size _ _ => ∀ u, s.account.live ptr = some u →
    (size = 0 → ¬ 2 ^ 32 ∣ u.size) ∧ (u.size < size.toNat → size.toNat ≤ 2 ^ 64 - 8)
  | .free ptr => ∀ u, s.account.live ptr = some u → ¬ 2 ^ 32 ∣ u.size
  | .write _ _ _ => True

/-- A run of calls from the start of the program. -/
abbrev BufRun (calls : List BufCall) (σ : ℕ → Outcome BufState) : Prop :=
  Run (fun r => r = .ok bufStartup) BufStep calls σ

/-- The account is right, and sizes are `size_t` values. -/
structure BufInv (s : BufState) : Prop where
  account : s.account.Inv s.heap
  size : ∀ ptr u, s.account.live ptr = some u → u.size < 2 ^ 64

/-- INTERNAL: the start of the program. -/
theorem bufStartup_inv : BufInv bufStartup :=
  ⟨Account.Inv.empty _, fun _ _ hu => by cases hu⟩

/-- INTERNAL: the invariant gives the property. -/
theorem BufInv.right (h : BufInv s) : BufRight (.ok s) := ⟨s, rfl, h.account.toRight⟩

/-! ## Sizes -/

/-- INTERNAL: the alignment of a size that does not wrap.
SOURCE: m_gc_buf.c:26-31 -/
theorem le_sizeAlign (h : size.toNat ≤ 2 ^ 64 - 8) : size.toNat ≤ (gcSizeAlign size).toNat := by
  have hlt : size.toNat + (2 ^ 3 - 1) < 2 ^ 64 := by omega
  rw [gcSizeAlign, show (8 : BitVec 64) = BitVec.ofNat 64 (2 ^ 3) from rfl,
    toNat_alignUp_of_lt hlt]
  exact le_roundUp (by decide)

/-- INTERNAL: the alignment of a size that wraps. -/
theorem sizeAlign_wraps (h : 2 ^ 64 - 8 < size.toNat) : (gcSizeAlign size).toNat = 0 := by
  have hlt := size.isLt
  rw [gcSizeAlign, show (8 : BitVec 64) = BitVec.ofNat 64 (2 ^ 3) from rfl, toNat_alignUp]
  omega

/-- INTERNAL: a size is a `size_t` value. -/
theorem ofNat_size (h : u.size < 2 ^ 64) : (BitVec.ofNat 64 u.size).toNat = u.size := by
  rw [BitVec.toNat_ofNat, Nat.mod_eq_of_lt h]

/-- INTERNAL: a number that is cut to zero. -/
theorem ofNat_eq_zero {w n : ℕ} : BitVec.ofNat w n = 0 ↔ 2 ^ w ∣ n := by
  rw [← BitVec.toNat_inj, BitVec.toNat_ofNat]
  exact (Nat.dvd_iff_mod_eq_zero ..).symm

/-- INTERNAL: a size that is passed is not zero. -/
theorem size_ne_zero (h : u.size < 2 ^ 64) (hpos : 1 ≤ u.size) :
    BitVec.ofNat 64 u.size ≠ 0 := by
  intro e
  have hdvd := Nat.le_of_dvd hpos (ofNat_eq_zero.mp e)
  omega

/-- INTERNAL: the `uint32_t` of a size. -/
theorem setWidth_size (n : ℕ) : (BitVec.ofNat 64 n).setWidth 32 = BitVec.ofNat 32 n := by
  apply BitVec.eq_of_toNat_eq
  rw [BitVec.toNat_setWidth, BitVec.toNat_ofNat, BitVec.toNat_ofNat]
  exact Nat.mod_mod_of_dvd _ (by decide)

/-! ## One call -/

/-- INTERNAL: a buffer in use, as the call finds it. -/
theorem buffer_eq (hu : s.account.live ptr = some u) : s.buffer ptr = .ok u := by
  rw [BufState.buffer, hu]

/-- INTERNAL: `m_gc_free_buf` with the size of a buffer.
SOURCE: m_gc_buf.c:110-127 -/
theorem freeBuf_spec (h : BufInv s) (hu : s.account.live ptr = some u) :
    (¬ 2 ^ 32 ∣ u.size → GCBuf.mGCFreeBuf s.heap ptr (BitVec.ofNat 32 u.size) =
      s.heap.free ptr) ∧
    (2 ^ 32 ∣ u.size → GCBuf.mGCFreeBuf s.heap ptr (BitVec.ofNat 32 u.size) = .ok s.heap) := by
  have hptr := h.account.ne_zero hu
  constructor
  · intro hsize
    exact if_neg (not_or.mpr ⟨hptr, fun e => hsize (ofNat_eq_zero.mp e)⟩)
  · intro hsize
    exact if_pos (Or.inr (ofNat_eq_zero.mpr hsize))

/-- INTERNAL: the account after a change of one buffer. -/
theorem size_put {a : Account (BitVec 8)} (h : ∀ p w, a.live p = some w → w.size < 2 ^ 64)
    (hu : u.size < 2 ^ 64) (p : ℕ) (w : Buffer (BitVec 8))
    (hw : (a.put ptr u).live p = some w) : w.size < 2 ^ 64 := by
  by_cases he : p = ptr
  · subst he
    obtain rfl := Option.some.inj ((a.put_self p u).symm.trans hw)
    exact hu
  · exact h p w ((a.put_of_ne he u).symm.trans hw)

/-- INTERNAL: the sizes of the other buffers. -/
theorem size_leave {a : Account (BitVec 8)} (h : ∀ p w, a.live p = some w → w.size < 2 ^ 64)
    (p : ℕ) (w : Buffer (BitVec 8)) (hw : (a.leave ptr).live p = some w) : w.size < 2 ^ 64 := by
  by_cases he : p = ptr
  · subst he
    cases (a.leave_self p).symm.trans hw
  · exact h p w ((a.leave_of_ne he).symm.trans hw)

/-- INTERNAL: `m_gc_alloc_buf`.
SOURCE: m_gc_buf.c:61-78 -/
theorem BufInv.alloc (h : BufInv s) (hf : s.heap.Fresh answer)
    (hs : answer = 0 ∨ size.toNat ≤ 2 ^ 64 - 8) :
    ∃ s', BufCall.exec s (.alloc size answer junk) = .ok s' ∧ BufInv s' := by
  by_cases ha : answer = 0
  · have hfail : GCBuf.mGCAllocBuf s.heap size answer junk = (0, s.heap) := if_pos ha
    refine ⟨s, ?_, h⟩
    rw [BufCall.exec, hfail]
    exact congrArg _ (congrArg _ (if_pos rfl))
  · have hfst : (GCBuf.mGCAllocBuf s.heap size answer junk).1 = answer := by
      rw [GCBuf.mGCAllocBuf, MallocHeap.malloc_eq ha]
    refine ⟨⟨(GCBuf.mGCAllocBuf s.heap size answer junk).2, s.account.put answer _⟩, ?_,
      h.account.malloc ha hf (le_sizeAlign (hs.resolve_left ha)), size_put h.size size.isLt⟩
    rw [BufCall.exec]
    simp only [hfst, if_neg ha]

/-- INTERNAL: `m_gc_free_buf`.
SOURCE: m_gc_buf.c:110-127 -/
theorem BufInv.free (h : BufInv s) (hu : s.account.live ptr = some u)
    (hs : ¬ 2 ^ 32 ∣ u.size) :
    ∃ heap, GCBuf.mGCFreeBuf s.heap ptr (BitVec.ofNat 32 u.size) = .ok heap ∧
      BufInv ⟨heap, s.account.giveBack ptr u⟩ := by
  obtain ⟨heap, e, h'⟩ := h.account.free hu
  exact ⟨heap, ((freeBuf_spec h hu).1 hs).trans e, h', size_leave h.size⟩

/-- INTERNAL: `m_gc_realloc_buf`.
SOURCE: m_gc_buf.c:80-108 -/
theorem BufInv.resize (h : BufInv s) (hu : s.account.live ptr = some u) (hpos : 1 ≤ u.size)
    (hf : answer = ptr ∨ s.heap.Fresh answer) (hzero : size = 0 → ¬ 2 ^ 32 ∣ u.size)
    (hgrow : u.size < size.toNat → size.toNat ≤ 2 ^ 64 - 8) :
    ∃ s', BufCall.exec s (.resize ptr size answer junk) = .ok s' ∧ BufInv s' := by
  have hptr := h.account.ne_zero hu
  have hsize := ofNat_size (h.size ptr u hu)
  have hguard : ¬ (ptr = 0 ∨ BitVec.ofNat 64 u.size = 0) :=
    not_or.mpr ⟨hptr, size_ne_zero (h.size ptr u hu) hpos⟩
  rw [BufCall.exec, buffer_eq hu, Outcome.ok_bind, GCBuf.mGCReallocBuf, if_neg hguard]
  by_cases h0 : size = 0
  · obtain ⟨heap, e, h'⟩ := h.free hu (hzero h0)
    refine ⟨_, ?_, h'⟩
    rw [if_pos h0, setWidth_size, e]
    simp only [Outcome.ok_bind, Outcome.pure_eq_ok, if_pos h0]
  · rw [if_neg h0]
    by_cases hle : size ≤ BitVec.ofNat 64 u.size
    · have hle' : size.toNat ≤ u.size := by
        rwa [BitVec.le_def, hsize] at hle
      refine ⟨⟨s.heap, (s.account.leave ptr).put ptr (u.resized size.toNat)⟩, ?_,
        h.account.shrink hu hle', size_put (size_leave h.size) size.isLt⟩
      rw [if_pos hle]
      simp only [Outcome.ok_bind, Outcome.pure_eq_ok, if_neg h0, if_neg hptr]
    · have hlt : u.size < size.toNat := by
        rw [BitVec.le_def, hsize] at hle
        omega
      have halign := le_sizeAlign (hgrow hlt)
      have hne : (gcSizeAlign size).toNat ≠ 0 := by omega
      rw [if_neg hle]
      by_cases ha : answer = 0
      · obtain ⟨b, hb, -⟩ := h.account.block hu
        refine ⟨s, ?_, h⟩
        rw [ha, MallocHeap.realloc_failed hptr hb hne]
        simp only [Outcome.ok_bind, Outcome.pure_eq_ok, if_neg h0, if_true]
      · have hf' : answer = ptr ∨ s.heap.block answer = none :=
          hf.imp_right fun hf => hf.resolve_left ha
        obtain ⟨heap, e, h'⟩ := h.account.realloc hu hne ha hf' halign junk
        refine ⟨⟨heap, (s.account.leave ptr).put answer (u.resized size.toNat)⟩, ?_, h',
          size_put (size_leave h.size) size.isLt⟩
        rw [e]
        simp only [Outcome.ok_bind, Outcome.pure_eq_ok, if_neg h0, if_neg ha]

/-- INTERNAL: a call that keeps its sizes keeps the invariant. -/
theorem BufInv.step (h : BufInv s) (hs : BufStep (.ok s) call r) (hk : SizesKept s call) :
    ∃ s', r = .ok s' ∧ BufInv s' := by
  obtain ⟨s₁, e, hallowed, rfl⟩ := hs
  obtain rfl := Except.ok.inj e
  cases call with
  | alloc size answer junk => exact h.alloc hallowed hk
  | resize ptr size answer junk =>
    obtain ⟨hf, u, hu, hpos⟩ := hallowed
    exact h.resize hu hpos hf (hk u hu).1 (hk u hu).2
  | free ptr =>
    obtain ⟨u, hu, -⟩ := hallowed
    obtain ⟨heap, e, h'⟩ := h.free hu (hk u hu)
    refine ⟨_, ?_, h'⟩
    rw [BufCall.exec, buffer_eq hu, Outcome.ok_bind, e]
    rfl
  | write ptr i v =>
    obtain ⟨u, hu, hi⟩ := hallowed
    obtain ⟨heap, e, h'⟩ := h.account.store hu hi v
    refine ⟨⟨heap, (s.account.leave ptr).put ptr (u.written i v)⟩, ?_, h',
      size_put (size_leave h.size) (h.size ptr u hu)⟩
    rw [BufCall.exec, buffer_eq hu, Outcome.ok_bind, e]
    rfl

/-! ## Calls that lose a size -/

/-- INTERNAL: a buffer that is given back with a size of which nothing is left stays allocated. -/
theorem leaked (h : BufInv s) (u : Buffer (BitVec 8)) :
    ¬ (s.account.giveBack ptr u).Right s.heap := by
  intro hr
  have hlen := congrArg List.length (h.account.released.symm.trans hr.released)
  change s.account.freed.length = (s.account.freed ++ [u.id]).length at hlen
  simp at hlen

/-- INTERNAL: `m_gc_alloc_buf` of a size that wraps returns a block without a byte.
SOURCE: m_gc_buf.c:66-76 -/
theorem alloc_wraps (ha : answer ≠ 0) (hs : 2 ^ 64 - 8 < size.toNat) :
    ¬ BufRight (BufCall.exec s (.alloc size answer junk)) := by
  rintro ⟨s', e, hr⟩
  have hfst : (GCBuf.mGCAllocBuf s.heap size answer junk).1 = answer := by
    rw [GCBuf.mGCAllocBuf, MallocHeap.malloc_eq ha]
  rw [BufCall.exec] at e
  simp only [hfst, if_neg ha] at e
  obtain rfl := Except.ok.inj e
  obtain ⟨b, hb, hh⟩ := hr.held answer _ (s.account.put_self answer _)
  have hcap : b.capacity = 0 := by
    have hblock : (GCBuf.mGCAllocBuf s.heap size answer junk).2.block answer =
        some ⟨s.heap.next, (gcSizeAlign size).toNat, junk⟩ := by
      rw [GCBuf.mGCAllocBuf, MallocHeap.malloc_eq ha]
      exact Function.update_self ..
    rw [← Option.some.inj (hblock.symm.trans hb)]
    exact sizeAlign_wraps hs
  have hle : size.toNat ≤ b.capacity := hh.size
  omega

/-- INTERNAL: `m_gc_realloc_buf` of a size that wraps releases the buffer and returns `NULL`.
SOURCE: m_gc_buf.c:95-105 -/
theorem resize_wraps (h : BufInv s) (hu : s.account.live ptr = some u) (hpos : 1 ≤ u.size)
    (hgrow : u.size < size.toNat) (hs : 2 ^ 64 - 8 < size.toNat) :
    ¬ BufRight (BufCall.exec s (.resize ptr size answer junk)) := by
  have hptr := h.account.ne_zero hu
  have hsize := ofNat_size (h.size ptr u hu)
  obtain ⟨b, hb, -⟩ := h.account.block hu
  have hguard : ¬ (ptr = 0 ∨ BitVec.ofNat 64 u.size = 0) :=
    not_or.mpr ⟨hptr, size_ne_zero (h.size ptr u hu) hpos⟩
  have h0 : size ≠ 0 := by
    rintro rfl
    exact absurd hgrow (by simp)
  have hle : ¬ size ≤ BitVec.ofNat 64 u.size := by
    rw [BitVec.le_def, hsize]
    omega
  rintro ⟨s', e, hr⟩
  rw [BufCall.exec, buffer_eq hu, Outcome.ok_bind, GCBuf.mGCReallocBuf, if_neg hguard,
    if_neg h0, if_neg hle] at e
  simp only [sizeAlign_wraps hs, MallocHeap.realloc_zero hptr hb, Outcome.ok_bind,
    Outcome.pure_eq_ok, if_neg h0, if_true] at e
  obtain rfl := Except.ok.inj e
  obtain ⟨b', hb', -⟩ := hr.held ptr u hu
  cases (Function.update_self ..).symm.trans hb'

/-- INTERNAL: a call that loses a size leaves a heap that is not right. -/
theorem BufInv.not_right (h : BufInv s) (hs : BufStep (.ok s) call r) (hk : ¬ SizesKept s call) :
    ¬ BufRight r := by
  obtain ⟨s₁, e, hallowed, rfl⟩ := hs
  obtain rfl := Except.ok.inj e
  cases call with
  | alloc size answer junk =>
    obtain ⟨ha, hsize⟩ := not_or.mp hk
    exact alloc_wraps ha (Nat.not_le.mp hsize)
  | resize ptr size answer junk =>
    obtain ⟨-, u, hu, hpos⟩ := hallowed
    have hguard : ¬ (ptr = 0 ∨ BitVec.ofNat 64 u.size = 0) :=
      not_or.mpr ⟨h.account.ne_zero hu, size_ne_zero (h.size ptr u hu) hpos⟩
    by_cases hgrow : u.size < size.toNat ∧ 2 ^ 64 - 8 < size.toNat
    · exact resize_wraps h hu hpos hgrow.1 hgrow.2
    · -- the buffer is resized to zero, and none is released
      have hzero : size = 0 ∧ 2 ^ 32 ∣ u.size := by
        by_contra hnot
        refine hk fun w hw => ?_
        obtain rfl := Option.some.inj (hu.symm.trans hw)
        exact ⟨fun h0 hdvd => hnot ⟨h0, hdvd⟩, fun hlt => Nat.not_lt.mp fun hbig =>
          hgrow ⟨hlt, hbig⟩⟩
      have hfree := (freeBuf_spec h hu).2 hzero.2
      rintro ⟨s', e, hr⟩
      rw [BufCall.exec, buffer_eq hu, Outcome.ok_bind, GCBuf.mGCReallocBuf, if_neg hguard,
        if_pos hzero.1, setWidth_size, hfree] at e
      simp only [Outcome.ok_bind, Outcome.pure_eq_ok, if_pos hzero.1] at e
      obtain rfl := Except.ok.inj e
      exact leaked h u hr
  | free ptr =>
    obtain ⟨u, hu, -⟩ := hallowed
    have hdvd : 2 ^ 32 ∣ u.size := by
      by_contra hnot
      refine hk fun w hw => ?_
      obtain rfl := Option.some.inj (hu.symm.trans hw)
      exact hnot
    rintro ⟨s', e, hr⟩
    rw [BufCall.exec, buffer_eq hu, Outcome.ok_bind, (freeBuf_spec h hu).2 hdvd] at e
    obtain rfl := Except.ok.inj e
    exact leaked h u hr
  | write ptr i v => exact absurd trivial hk

/-! ## Whole runs -/

/-- **GC buffers are right exactly while no size gets lost.** In a run of calls that pass back
live buffers with their sizes, every buffer has a block that is large enough and keeps what was
written into it across resizes, and exactly the buffers that were given back are released, each
once, if and only if every size that is aligned is at most `2 ^ 64 - 8`, or `malloc` fails, and no
buffer is given back whose size is a multiple of `2 ^ 32`.
SOURCE: m_gc_buf.c:26-31, 61-127; m_thread.c:69-75 -/
theorem gc_buf_iff (h : BufRun calls σ) :
    (∀ n, n ≤ calls.length → BufRight (σ n)) ↔
      ∀ i (hi : i < calls.length), ∀ s, σ i = .ok s → SizesKept s calls[i] := by
  apply h.forall_iff (fun _ r => ∃ s, r = .ok s ∧ BufInv s) (P := fun _ r => BufRight r)
    (C := fun _ r call => ∀ s, r = .ok s → SizesKept s call)
  · intro r hr
    exact ⟨_, hr, bufStartup_inv⟩
  · rintro l r ⟨s, rfl, hinv⟩
    exact hinv.right
  · rintro l r call r' ⟨s, rfl, hinv⟩ hs hk
    exact hinv.step hs (hk s rfl)
  · rintro l r call r' ⟨s, rfl, hinv⟩ hs hk
    refine hinv.not_right hs fun hkept => hk fun s₁ e => ?_
    exact Except.ok.inj e ▸ hkept

/-- INTERNAL: a run without calls. -/
theorem bufRun_nil : BufRun [] fun _ => .ok bufStartup := Run.nil rfl

/-- What a call is checked for: it is allowed, and its sizes are kept. -/
def callChecked (s : BufState) : BufCall → Bool
  | .alloc size answer _ =>
    answer = 0 || (s.heap.block answer).isNone && decide (size.toNat ≤ 2 ^ 64 - 8)
  | .resize ptr size answer _ => (answer = ptr || answer = 0 || (s.heap.block answer).isNone) &&
    (s.account.live ptr).any fun u => decide (1 ≤ u.size) &&
      decide ((size = 0 → ¬ 2 ^ 32 ∣ u.size) ∧ (u.size < size.toNat → size.toNat ≤ 2 ^ 64 - 8))
  | .free ptr => (s.account.live ptr).any fun u => decide (1 ≤ u.size) && decide (¬ 2 ^ 32 ∣ u.size)
  | .write ptr i _ => (s.account.live ptr).any fun u => decide (i < u.size)

/-- Calls that pass the check one after the other, and a test of the state behind them. -/
def bufChecked (P : BufState → Bool) : List BufCall → BufState → Bool
  | [], s => P s
  | call :: calls, s => callChecked s call && (call.exec s).check (bufChecked P calls)

/-- INTERNAL: what the check of a call says. -/
theorem callChecked_spec (hc : callChecked s call = true) : call.Allowed s ∧ SizesKept s call := by
  cases call with
  | alloc size answer junk =>
    simp only [callChecked, Bool.or_eq_true, Bool.and_eq_true, decide_eq_true_eq,
      Option.isNone_iff_eq_none] at hc
    exact ⟨hc.imp id And.left, hc.imp id And.right⟩
  | resize ptr size answer junk =>
    simp only [callChecked, Bool.or_eq_true, Bool.and_eq_true, decide_eq_true_eq,
      Option.isNone_iff_eq_none, Option.any_eq_true] at hc
    obtain ⟨hanswer, u, hu, hpos, hkept⟩ := hc
    refine ⟨⟨or_assoc.mp hanswer, u, hu, hpos⟩, fun u' hu' => ?_⟩
    obtain rfl := Option.some.inj (hu.symm.trans hu')
    exact hkept
  | free ptr =>
    simp only [callChecked, Bool.and_eq_true, decide_eq_true_eq, Option.any_eq_true] at hc
    obtain ⟨u, hu, hpos, hkept⟩ := hc
    refine ⟨⟨u, hu, hpos⟩, fun u' hu' => ?_⟩
    obtain rfl := Option.some.inj (hu.symm.trans hu')
    exact hkept
  | write ptr i v =>
    simp only [callChecked, decide_eq_true_eq, Option.any_eq_true] at hc
    exact ⟨hc, trivial⟩

/-- INTERNAL: calls that were executed and checked are a run. -/
theorem bufRun_of_checked {P : BufState → Bool} (hc : bufChecked P calls s = true) :
    ∃ σ, Run (fun r => r = .ok s) BufStep calls σ ∧
      (∀ i (hi : i < calls.length), ∀ s, σ i = .ok s → SizesKept s calls[i]) ∧
      ∃ s', σ calls.length = .ok s' ∧ P s' = true := by
  induction calls generalizing s with
  | nil => exact ⟨_, .nil rfl, fun _ hi => absurd hi (Nat.not_lt_zero _), s, rfl, hc⟩
  | cons call calls ih =>
    rw [bufChecked, Bool.and_eq_true] at hc
    obtain ⟨hallowed, hkept⟩ := callChecked_spec hc.1
    obtain ⟨s₁, e, hc₁⟩ := Outcome.exists_of_check hc.2
    obtain ⟨σ, hσ, hsteps, hlast⟩ := ih hc₁
    refine ⟨_, .cons rfl ⟨s, rfl, hallowed, e.symm⟩ hσ, fun i hi s₂ e₂ => ?_, hlast⟩
    cases i with
    | zero => exact Except.ok.inj e₂ ▸ hkept
    | succ i => exact hsteps i (Nat.lt_of_succ_lt_succ hi) s₂ e₂

/-- A buffer that is written, moved by a resize and shrunk, one that is given back, and one at
its address that a resize to zero gives back. -/
def resizingCalls : List BufCall :=
  [.alloc 40 8 fun _ => 0, .write 8 0 7, .alloc 16 64 fun _ => 0, .resize 8 100 4096 fun _ => 255,
    .resize 4096 50 4096 fun _ => 0, .free 64, .alloc 24 64 fun _ => 0, .resize 64 0 0 fun _ => 0]

/-- The first buffer still holds what was written into it, and the other two are released. -/
theorem gc_buf_iff_resized : ∃ σ, BufRun resizingCalls σ ∧ (∀ n, n ≤ 8 → BufRight (σ n)) ∧
    ∃ s, σ 8 = .ok s ∧ s.heap.released = [1, 2] ∧
      (s.heap.block 4096).any (fun b => b.id = 0 && b.content 0 = 7) = true := by
  have hc : bufChecked (fun s => s.heap.released = [1, 2] &&
      (s.heap.block 4096).any fun b => b.id = 0 && b.content 0 = 7) resizingCalls bufStartup =
      true := by decide +kernel
  obtain ⟨σ, hσ, hkept, s, e, hs⟩ := bufRun_of_checked hc
  rw [Bool.and_eq_true, decide_eq_true_eq] at hs
  exact ⟨σ, hσ, (gc_buf_iff hσ).mpr hkept, s, e, hs⟩

/-- A program with a buffer of `2 ^ 32` bytes at `8`. -/
def largeBuf : BufState :=
  ⟨⟨Function.update (fun _ => none) 8 (some ⟨0, 2 ^ 32, fun _ => 0⟩), 1, []⟩,
    ⟨Function.update (fun _ => none) 8 (some ⟨0, 2 ^ 32, fun _ => none⟩), []⟩⟩

/-- A buffer of `2 ^ 32` bytes is passed to `m_gc_free_buf`, which takes its size for zero. -/
theorem gc_buf_leak : ∃ σ, BufRun [.alloc (BitVec.ofNat 64 (2 ^ 32)) 8 fun _ => 0, .free 8] σ ∧
    (∃ s, σ 2 = .ok s ∧ s.account.freed = [0] ∧ s.heap.released = [] ∧ s.heap.block 8 ≠ none) ∧
    ¬ ∀ n, n ≤ 2 → BufRight (σ n) := by
  have halloc : BufStep (.ok bufStartup) (.alloc (BitVec.ofNat 64 (2 ^ 32)) 8 fun _ => 0)
      (.ok largeBuf) :=
    ⟨bufStartup, rfl, Or.inr rfl, rfl⟩
  obtain ⟨u, hu⟩ : ∃ u : Buffer (BitVec 8), u = ⟨0, 2 ^ 32, fun _ => none⟩ := ⟨_, rfl⟩
  have hlive : largeBuf.account.live 8 = some u := hu ▸ rfl
  have hfree : GCBuf.mGCFreeBuf largeBuf.heap 8 (BitVec.ofNat 32 u.size) = .ok largeBuf.heap := by
    rw [hu]
    rfl
  have hexec : BufCall.exec largeBuf (.free 8) =
      .ok ⟨largeBuf.heap, largeBuf.account.giveBack 8 u⟩ := by
    rw [BufCall.exec, buffer_eq hlive, Outcome.ok_bind, hfree]
    rfl
  have hrun := (bufRun_nil.snoc halloc).snoc (a := .free 8)
    ⟨largeBuf, rfl, ⟨u, hlive, by rw [hu]; decide⟩, hexec.symm⟩
  refine ⟨_, hrun, ⟨_, rfl, by rw [hu]; rfl, rfl, by simp [largeBuf]⟩, fun hall => ?_⟩
  obtain ⟨s, e, hr⟩ := hall 2 le_rfl
  obtain rfl := Except.ok.inj e
  cases hr.released

end Ming.Analysis
