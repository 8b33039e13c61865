import Mathlib.Algebra.BigOperators.Ring.List
import Ming.Analysis.GCMarkLoop
import Ming.Analysis.GCPhaseRuns
import Ming.Foundation.RunCost

/-!
# The pacing of the automatic collections

`gc_alloc_obj` starts a collection when the heap has grown by half since the last sweep. So the
bytes that were allocated since pay for the sweep, and the heap does not grow further than that
before it is swept. The counters and the status are all that this depends on, so it holds wherever
pools lie and whichever cells a sweep comes upon.
-/

set_option autoImplicit false

namespace Ming.Analysis

open Ming.Foundation Ming.Model Ming.Interface

variable {D : GCConfig} {s s₁ s' : GCState} {op : GCOp} {ops : List GCOp} {σ : ℕ → GCState}
variable {refs : Addr → List Addr} {n : ℕ} {flags : BitVec 32} {b : Bool}
variable {type : MGCObjType} {map : Option Addr} {waiting : Bool}

/-- The allocation hands out a cell and starts a collection. -/
def AllocCollects (D : GCConfig) (s : GCState) (type : MGCObjType) (map : Option Addr)
    (waiting : Bool) : Prop :=
  waiting = false ∧ ((s.stubs type).usablePools ≠ [] ∨ map ≠ none) ∧
    collectionNeeded D { s with allocatedSize := s.allocatedSize + (D.descrs type).size }

/-- The counters decide whether an allocation collects. -/
instance (D : GCConfig) (s : GCState) (type : MGCObjType) (map : Option Addr) (waiting : Bool) :
    Decidable (AllocCollects D s type map waiting) :=
  inferInstanceAs (Decidable (_ ∧ _ ∧ _))

/-- The bytes in use when the operation starts a sweep that the program did not ask for. -/
def autoSweepBytes (D : GCConfig) (s : GCState) : GCOp → ℕ
  | .alloc _ type map waiting =>
    if AllocCollects D s type map waiting ∧ Sweeps s 0 then
      s.allocatedSize + (D.descrs type).size
    else 0
  | _ => 0

/-- The bytes that the operation asks for. -/
def requestedBytes (D : GCConfig) : GCOp → ℕ
  | .alloc _ type _ _ => (D.descrs type).size
  | _ => 0

/-- The bytes that the operation asks for while another thread runs the collector. -/
def waitingBytes (D : GCConfig) : GCOp → ℕ
  | .alloc _ type _ true => (D.descrs type).size
  | _ => 0

/-- The operation sweeps. -/
def OpSweeps (D : GCConfig) (s : GCState) : GCOp → Prop
  | .alloc _ type map waiting => AllocCollects D s type map waiting ∧ Sweeps s 0
  | .run flags waiting => waiting = false ∧ Sweeps s flags
  | _ => False

/-- The state decides whether an operation sweeps. -/
instance (D : GCConfig) (s : GCState) (op : GCOp) : Decidable (OpSweeps D s op) :=
  match op with
  | .alloc _ type map waiting =>
    inferInstanceAs (Decidable (AllocCollects D s type map waiting ∧ Sweeps s 0))
  | .run flags waiting => inferInstanceAs (Decidable (waiting = false ∧ Sweeps s flags))
  | .addObj _ _ | .setNbLevel _ _ | .setRoots _ | .threadEnter | .threadExit _ =>
    inferInstanceAs (Decidable False)

/-- What an operation does to the sizes: nothing, or it hands out a cell without a sweep, or it
sweeps. -/
inductive PaceStep (D : GCConfig) (s : GCState) (op : GCOp) (s' : GCState) : Prop
  | same : ¬ OpSweeps D s op → s'.allocatedSize = s.allocatedSize →
      s'.lastAllocatedSize = s.lastAllocatedSize →
      (s'.status = .compact → s.status = .compact) → PaceStep D s op s'
  | grown (th : ℕ) (type : MGCObjType) (map : Option Addr) (waiting : Bool) :
      op = .alloc th type map waiting → ¬ OpSweeps D s op →
      s'.allocatedSize = s.allocatedSize + (D.descrs type).size →
      s'.lastAllocatedSize = s.lastAllocatedSize →
      (s'.status = .compact → s.status = .compact) →
      (waiting = true ∨ ¬ collectionNeeded D s' ∨ (s.status = .compact ∧ s'.status = .idle)) →
      PaceStep D s op s'
  | swept : OpSweeps D s op → s'.lastAllocatedSize = s'.allocatedSize →
      (autoSweepBytes D s op = 0 ∨
        autoSweepBytes D s op = s.allocatedSize + requestedBytes D op ∧
          s.lastAllocatedSize * 3 < (s.allocatedSize + requestedBytes D op) * 2) →
      PaceStep D s op s'

/-- INTERNAL: an operation that does not sweep costs nothing. -/
theorem autoSweepBytes_eq_zero (h : ¬ OpSweeps D s op) : autoSweepBytes D s op = 0 := by
  cases op with
  | alloc th type map waiting => exact if_neg h
  | _ => rfl

/-! ## One collection -/

/-- What a call of `gc_do_collect` does to the sizes: it sweeps, or leaves them alone. -/
inductive CollectSizes (flags : BitVec 32) (s s' : GCState) : Prop
  | swept : Sweeps s flags → s'.lastAllocatedSize = s'.allocatedSize → CollectSizes flags s s'
  | kept : ¬ Sweeps s flags → s'.allocatedSize = s.allocatedSize →
      s'.lastAllocatedSize = s.lastAllocatedSize → s'.status ≠ .compact →
      (s.status = .compact → s'.status = .idle) → CollectSizes flags s s'

/-- INTERNAL: the sweep, and what follows it.
SOURCE: m_gc_obj.c:444-480, 512-521 -/
theorem collectSweep_sizes (e : gcCollectSweep D flags s = .ok (b, s')) :
    s'.lastAllocatedSize = s'.allocatedSize ∧ s'.status ≠ .markRoot := by
  rw [gcCollectSweep] at e
  obtain ⟨s₁, hsweep, e⟩ := Outcome.bind_eq_ok.mp e
  rw [gcSweep] at hsweep
  obtain ⟨s₂, -, hlast⟩ := Outcome.bind_eq_ok.mp hsweep
  obtain rfl := Except.ok.inj hlast
  split_ifs at e
  · obtain ⟨-, rfl⟩ := Prod.mk.inj (Except.ok.inj e)
    exact ⟨rfl, by simp⟩
  · obtain ⟨-, rfl⟩ := Prod.mk.inj (Except.ok.inj e)
    exact ⟨rfl, by simp⟩

/-- INTERNAL: an incremental call in the middle of marking.
SOURCE: m_gc_obj.c:501-508 -/
theorem markPhase_sizes (hinc : incremental flags)
    (e : gcMarkPhase D refs flags n s = .ok (b, s')) :
    s'.allocatedSize = s.allocatedSize ∧ s'.lastAllocatedSize = s.lastAllocatedSize ∧
      (s'.status = .sweep ∨ s'.status = s.status) := by
  cases n with
  | zero => cases e
  | succ n =>
    rw [gcMarkPhase] at e
    obtain ⟨⟨done, s₁⟩, hobjs, e⟩ := Outcome.bind_eq_ok.mp e
    have hframe := markObjs_frame hobjs
    simp only [if_pos hinc] at e
    obtain ⟨-, rfl⟩ := Prod.mk.inj (Except.ok.inj e)
    cases done with
    | true => exact ⟨hframe.allocatedSize, hframe.lastAllocatedSize, Or.inl rfl⟩
    | false => exact ⟨hframe.allocatedSize, hframe.lastAllocatedSize, Or.inr hframe.status⟩

/-- INTERNAL: from the mark loop on.
SOURCE: m_gc_obj.c:500-521 -/
theorem collectMarkObj_sizes (hst : s.status = .markObj)
    (e : gcCollectMarkObj D refs n flags s = .ok (b, s')) : s'.status ≠ .markRoot ∧
      ((clearing flags ∨ ¬ incremental flags) ∧ s'.lastAllocatedSize = s'.allocatedSize ∨
        ¬ (clearing flags ∨ ¬ incremental flags) ∧ s'.allocatedSize = s.allocatedSize ∧
          s'.lastAllocatedSize = s.lastAllocatedSize ∧ s'.status ≠ .compact) := by
  rw [gcCollectMarkObj] at e
  by_cases hc : clearing flags
  · rw [if_pos hc] at e
    obtain ⟨hlast, hroot⟩ := collectSweep_sizes e
    exact ⟨hroot, Or.inl ⟨Or.inl hc, hlast⟩⟩
  · rw [if_neg hc] at e
    obtain ⟨⟨through, s₁⟩, hphase, e⟩ := Outcome.bind_eq_ok.mp e
    obtain ⟨hstop, hgo⟩ := markPhase_end hphase
    by_cases hinc : incremental flags
    · obtain rfl := hstop hinc
      obtain ⟨-, rfl⟩ := Prod.mk.inj (Except.ok.inj e)
      obtain ⟨hsize, hlast, hstatus⟩ := markPhase_sizes hinc hphase
      have hneither : s₁.status = .sweep ∨ s₁.status = .markObj :=
        hstatus.imp id fun h => h.trans hst
      refine ⟨?_, Or.inr ⟨fun h => h.elim hc fun h => h hinc, hsize, hlast, ?_⟩⟩
      · rcases hneither with h | h <;> simp [h]
      · rcases hneither with h | h <;> simp [h]
    · obtain rfl := (hgo hinc).1
      obtain ⟨hlast, hroot⟩ := collectSweep_sizes e
      exact ⟨hroot, Or.inl ⟨Or.inr hinc, hlast⟩⟩

/-- INTERNAL: **a call of `gc_do_collect`** sweeps, or leaves the sizes alone.
SOURCE: m_gc_obj.c:483-522 -/
theorem collect_sizes (hroot : s.status ≠ .markRoot)
    (e : gcDoCollect D refs n flags s = .ok (b, s')) :
    s'.status ≠ .markRoot ∧ CollectSizes flags s s' := by
  rw [gcDoCollect] at e
  cases hst : s.status with
  | markRoot => exact absurd hst hroot
  | idle =>
    have hsweeps : Sweeps s flags ↔ clearing flags ∨ ¬ incremental flags := by simp [Sweeps, hst]
    have hcompact : s.status = .compact → s'.status = .idle := fun h => by cases hst.symm.trans h
    simp only [hst, gcCollectMarkRoot] at e
    by_cases hc : clearing flags
    · rw [if_pos hc] at e
      obtain ⟨hroot', ⟨-, hlast⟩ | ⟨hnot, -⟩⟩ := collectMarkObj_sizes rfl e
      · exact ⟨hroot', .swept (hsweeps.mpr (Or.inl hc)) hlast⟩
      · exact absurd (Or.inl hc) hnot
    · rw [if_neg hc] at e
      obtain ⟨s₁, hmark, e⟩ := Outcome.bind_eq_ok.mp e
      have hframe := markRoot_frame hmark
      by_cases hinc : incremental flags
      · rw [if_pos hinc] at e
        obtain ⟨-, rfl⟩ := Prod.mk.inj (Except.ok.inj e)
        exact ⟨by simp, .kept (fun h => (hsweeps.mp h).elim hc fun h => h hinc)
          hframe.allocatedSize hframe.lastAllocatedSize (by simp) hcompact⟩
      · rw [if_neg hinc] at e
        obtain ⟨hroot', ⟨-, hlast⟩ | ⟨hnot, -⟩⟩ := collectMarkObj_sizes rfl e
        · exact ⟨hroot', .swept (hsweeps.mpr (Or.inr hinc)) hlast⟩
        · exact absurd (Or.inr hinc) hnot
  | markObj =>
    have hsweeps : Sweeps s flags ↔ clearing flags ∨ ¬ incremental flags := by simp [Sweeps, hst]
    have hcompact : s.status = .compact → s'.status = .idle := fun h => by cases hst.symm.trans h
    rw [hst] at e
    obtain ⟨hroot', ⟨hs, hlast⟩ | ⟨hnot, hsize, hlast, hne⟩⟩ := collectMarkObj_sizes hst e
    · exact ⟨hroot', .swept (hsweeps.mpr hs) hlast⟩
    · exact ⟨hroot', .kept (fun h => hnot (hsweeps.mp h)) hsize hlast hne hcompact⟩
  | sweep =>
    rw [hst] at e
    obtain ⟨hlast, hroot'⟩ := collectSweep_sizes e
    exact ⟨hroot', .swept (Or.inl hst) hlast⟩
  | compact =>
    rw [hst] at e
    obtain ⟨-, rfl⟩ := Prod.mk.inj (Except.ok.inj e)
    exact ⟨by simp,
      .kept (fun h => by simp [Sweeps, hst] at h) rfl rfl (by simp)
        fun _ => rfl⟩

/-! ## One operation -/

/-- INTERNAL: a cell that is handed out.
SOURCE: m_gc_obj.c:585-636 -/
theorem takeCell_sizes {th oid : ℕ} {base cell : Addr}
    (hpool : gcUsablePool D s type map = some (base, s₁))
    (e : gcTakeCell D s₁ th type base = .ok (cell, oid, s')) :
    s'.allocatedSize = s.allocatedSize + (D.descrs type).size ∧
      s'.lastAllocatedSize = s.lastAllocatedSize ∧ s'.status = s.status := by
  have hsame : s₁.allocatedSize = s.allocatedSize ∧
      s₁.lastAllocatedSize = s.lastAllocatedSize ∧ s₁.status = s.status := by
    rw [gcUsablePool] at hpool
    split at hpool
    · cases map with
      | none => cases hpool
      | some b =>
        obtain ⟨-, rfl⟩ := Prod.mk.inj (Option.some.inj hpool)
        exact ⟨rfl, rfl, rfl⟩
    · obtain ⟨-, rfl⟩ := Prod.mk.inj (Option.some.inj hpool)
      exact ⟨rfl, rfl, rfl⟩
  simp only [gcTakeCell, Outcome.bind_eq_ok] at e
  obtain ⟨self, -, ⟨c, s₂⟩, hpop, self', -, p, -, id, -, p', -, e⟩ := e
  obtain ⟨-, e⟩ := Prod.mk.inj (Except.ok.inj e)
  obtain ⟨-, rfl⟩ := Prod.mk.inj e
  have hpopped : s₂.allocatedSize = s₁.allocatedSize ∧
      s₂.lastAllocatedSize = s₁.lastAllocatedSize ∧ s₂.status = s₁.status := by
    rw [gcPopCell] at hpop
    obtain ⟨q, -, hpop⟩ := Outcome.bind_eq_ok.mp hpop
    split at hpop
    · cases hpop
    · split_ifs at hpop
      · dsimp only at hpop
        split at hpop
        · cases hpop
        · obtain ⟨-, rfl⟩ := Prod.mk.inj (Except.ok.inj hpop)
          exact ⟨rfl, rfl, rfl⟩
      · obtain ⟨-, rfl⟩ := Prod.mk.inj (Except.ok.inj hpop)
        exact ⟨rfl, rfl, rfl⟩
  exact ⟨congrArg (· + (D.descrs type).size) (hpopped.1.trans hsame.1),
    hpopped.2.1.trans hsame.2.1, hpopped.2.2.trans hsame.2.2⟩

/-- INTERNAL: an allocation without a pool. -/
theorem usablePool_eq_none (e : gcUsablePool D s type map = none) :
    ¬ ((s.stubs type).usablePools ≠ [] ∨ map ≠ none) := by
  obtain ⟨hu, rfl⟩ := usablePool_none e
  simp [hu]

/-- INTERNAL: an allocation with one. -/
theorem usablePool_eq_some {base : Addr} (e : gcUsablePool D s type map = some (base, s₁)) :
    (s.stubs type).usablePools ≠ [] ∨ map ≠ none := by
  by_contra hno
  rw [not_or, not_not, not_not] at hno
  obtain ⟨hu, rfl⟩ := hno
  rw [gcUsablePool, hu] at e
  cases e

/-- INTERNAL: **an allocation** that may start a collection.
SOURCE: m_gc_obj.c:571-645 -/
theorem alloc_pace (hroot : s.status ≠ .markRoot) {r : Option (Addr × ℕ)} {th : ℕ}
    (e : gcAllocObj D refs n waiting s th type map = .ok (r, s')) :
    s'.status ≠ .markRoot ∧ PaceStep D s (.alloc th type map waiting) s' := by
  rw [gcAllocObj] at e
  cases hpool : gcUsablePool D s type map with
  | none =>
    rw [hpool] at e
    obtain ⟨-, rfl⟩ := Prod.mk.inj (Except.ok.inj e)
    exact ⟨hroot, .same (fun hc => usablePool_eq_none hpool hc.1.2.1) rfl rfl id⟩
  | some bs =>
    obtain ⟨base, s₁⟩ := bs
    rw [hpool] at e
    obtain ⟨⟨cell, oid, s₂⟩, htake, e⟩ := Outcome.bind_eq_ok.mp e
    obtain ⟨hsize, hlast, hstatus⟩ := takeCell_sizes hpool htake
    have hroot₂ : s₂.status ≠ .markRoot := hstatus ▸ hroot
    have hneeded : collectionNeeded D s₂ ↔ collectionNeeded D
        { s with allocatedSize := s.allocatedSize + (D.descrs type).size } := by
      rw [collectionNeeded, collectionNeeded, hsize, hlast]
    have hsweeps : Sweeps s₂ 0 ↔ Sweeps s 0 := by rw [Sweeps, Sweeps, hstatus]
    -- the allocation ends with the cell
    have hgrown : ¬ (collectionNeeded D s₂ ∧ waiting = false) →
        PaceStep D s (.alloc th type map waiting) s₂ := by
      intro hno
      refine .grown th type map waiting rfl (fun ha => hno ⟨hneeded.mpr ha.1.2.2, ha.1.1⟩) hsize
        hlast (fun hst => hstatus ▸ hst) ?_
      cases waiting with
      | true => exact Or.inl rfl
      | false => exact Or.inr (Or.inl fun hn => hno ⟨hn, rfl⟩)
    simp only at e
    split_ifs at e with hneed
    · obtain ⟨s₃, hcollect, e⟩ := Outcome.bind_eq_ok.mp e
      obtain ⟨-, rfl⟩ := Prod.mk.inj (Except.ok.inj e)
      rw [gcCollectObjs] at hcollect
      split_ifs at hcollect with hwait
      · obtain rfl := Except.ok.inj hcollect
        exact ⟨hroot₂, hgrown fun hn => by simp [hwait] at hn⟩
      · obtain rfl := Bool.eq_false_iff.mpr hwait
        obtain ⟨⟨b, s₄⟩, hcall, e⟩ := Outcome.bind_eq_ok.mp hcollect
        obtain rfl := Except.ok.inj e
        have hcollects : AllocCollects D s type map false :=
          ⟨rfl, usablePool_eq_some hpool, hneeded.mp hneed⟩
        obtain ⟨hroot', hsizes⟩ := collect_sizes hroot₂ hcall
        refine ⟨hroot', ?_⟩
        cases hsizes with
        | swept hs hl =>
          have hop : AllocCollects D s type map false ∧ Sweeps s 0 := ⟨hcollects, hsweeps.mp hs⟩
          exact .swept hop hl (Or.inr ⟨if_pos hop, (hneeded.mp hneed).2⟩)
        | kept hs hsize' hl hne hidle =>
          have hcompact : s₂.status = .compact := by
            cases hst : s₂.status with
            | compact => rfl
            | markRoot => exact absurd hst hroot₂
            | idle => exact absurd (Or.inr ⟨Or.inl hst, Or.inr (by decide)⟩) hs
            | markObj => exact absurd (Or.inr ⟨Or.inr hst, Or.inr (by decide)⟩) hs
            | sweep => exact absurd (Or.inl hst) hs
          exact .grown th type map false rfl (fun ha => hs (hsweeps.mpr ha.2))
            (hsize'.trans hsize) (hl.trans hlast) (fun hst => absurd hst hne)
            (Or.inr (Or.inr ⟨hstatus ▸ hcompact, hidle hcompact⟩))
    · obtain ⟨-, rfl⟩ := Prod.mk.inj (Except.ok.inj e)
      exact ⟨hroot₂, hgrown fun hn => hneed hn.1⟩

/-- INTERNAL: **every operation** does one of the three. -/
theorem step_pace (hroot : s.status ≠ .markRoot) (hs : GCStep D s op s') :
    s'.status ≠ .markRoot ∧ PaceStep D s op s' := by
  obtain ⟨hmap, refs, n, e⟩ := hs
  cases op with
  | alloc th type map waiting =>
    obtain ⟨⟨r, s₁⟩, e₁, e₂⟩ := Outcome.bind_eq_ok.mp e
    obtain rfl := Except.ok.inj e₂
    exact alloc_pace hroot e₁
  | run flags waiting =>
    have e : gcCollectObjs D refs n flags waiting s = .ok s' := e
    rw [gcCollectObjs] at e
    split_ifs at e with hwait
    · obtain rfl := Except.ok.inj e
      exact ⟨hroot, .same (fun h => by simp [OpSweeps, hwait] at h) rfl rfl id⟩
    · have hwait' := Bool.eq_false_iff.mpr hwait
      obtain ⟨⟨b, s₁⟩, e₁, e₂⟩ := Outcome.bind_eq_ok.mp e
      obtain rfl := Except.ok.inj e₂
      obtain ⟨hroot', hsizes⟩ := collect_sizes hroot e₁
      refine ⟨hroot', ?_⟩
      cases hsizes with
      | swept hs hl => exact .swept ⟨hwait', hs⟩ hl (Or.inl rfl)
      | kept hs hsize hl hne _ => exact .same (fun h => hs h.2) hsize hl fun hst => absurd hst hne
  | addObj th oid =>
    obtain ⟨self, -, -, rfl⟩ := addObj_spec e
    exact ⟨hroot, .same (fun h => h) rfl rfl id⟩
  | setNbLevel th level =>
    obtain ⟨self, -, -, rfl⟩ := setNbLevel_spec e
    exact ⟨hroot, .same (fun h => h) rfl rfl id⟩
  | setRoots ptrs =>
    obtain rfl := Except.ok.inj e
    exact ⟨hroot, .same (fun h => h) rfl rfl id⟩
  | threadEnter =>
    obtain rfl := Except.ok.inj e
    exact ⟨hroot, .same (fun h => h) rfl rfl id⟩
  | threadExit th =>
    obtain rfl := Except.ok.inj e
    exact ⟨hroot, .same (fun h => h) rfl rfl id⟩

/-! ## The work of the automatic sweeps -/

/-- What the sizes rely on between two operations. -/
structure PacedHeap (s : GCState) : Prop where
  status : s.status ≠ .markRoot
  last : s.lastAllocatedSize ≤ s.allocatedSize

/-- INTERNAL: the heap at the startup. -/
theorem PacedHeap.startup : PacedHeap gcObjStartup := ⟨by simp [gcObjStartup], le_rfl⟩

/-- INTERNAL: an operation keeps the counters right. -/
theorem step_paced (h : PacedHeap s) (hs : GCStep D s op s') : PacedHeap s' := by
  have hlast := h.last
  obtain ⟨hroot, hpace⟩ := step_pace h.status hs
  refine ⟨hroot, ?_⟩
  cases hpace with
  | same _ hsize hl _ => omega
  | grown th type map waiting _ _ hsize hl _ _ => omega
  | swept _ hl _ => omega

/-- INTERNAL: three bytes for each byte since the last sweep pay for the next one. -/
theorem step_cost (h : PacedHeap s) (hs : GCStep D s op s') :
    autoSweepBytes D s op + 3 * (s'.allocatedSize - s'.lastAllocatedSize) ≤
      3 * requestedBytes D op + 3 * (s.allocatedSize - s.lastAllocatedSize) := by
  have hlast := h.last
  cases (step_pace h.status hs).2 with
  | same hno hsize hl _ =>
    have hzero := autoSweepBytes_eq_zero hno
    omega
  | grown th type map waiting hop hno hsize hl _ _ =>
    have hzero := autoSweepBytes_eq_zero hno
    have hreq : requestedBytes D op = (D.descrs type).size := by rw [hop, requestedBytes]
    omega
  | swept _ hl hbytes =>
    rcases hbytes with hzero | ⟨hbytes, hneed⟩ <;> omega

/-- **The automatic sweeps are paid for by the allocations.** In every run, whatever the threads
do, wherever pools are mapped and whichever objects survive, the bytes in use at the starts of all
sweeps that `gc_alloc_obj` decided on sum up to at most three times the bytes that were asked for.
SOURCE: m_gc_obj.c:444-568, 571-645 -/
theorem automatic_sweeps_amortized (h : GCRun D ops σ) :
    runCost (autoSweepBytes D) σ ops ≤ 3 * (ops.map (requestedBytes D)).sum := by
  have h0 : ∀ s, s = gcObjStartup → PacedHeap s := fun s hs => hs ▸ PacedHeap.startup
  have hzero : ∀ s, s = gcObjStartup → 3 * (s.allocatedSize - s.lastAllocatedSize) = 0 := by
    rintro _ rfl
    rfl
  have hcost := h.cost_le PacedHeap _ h0 hzero (fun _ _ _ => step_paced)
    (fun _ _ _ => step_cost) ops.length le_rfl
  rw [List.take_length, List.sum_map_mul_left] at hcost
  omega

/-- A configuration in which collections begin at one byte. -/
def eagerConfig : GCConfig := { defaultConfig with beginSize := 1 }

/-- The first allocation sweeps when collections begin at one byte. -/
theorem automatic_sweeps_amortized_one : ∃ σ,
    GCRun eagerConfig [.alloc 0 .double (some 4096) false] σ ∧
    runCost (autoSweepBytes eagerConfig) σ [.alloc 0 .double (some 4096) false] = 8 ∧
    8 ≤ 3 * 8 := by
  have hok : ((GCOp.alloc 0 .double (some 4096) false).exec eagerConfig (fun _ => []) 1
      gcObjStartup).check fun _ => true := by decide +kernel
  obtain ⟨s₁, hs, -⟩ := Outcome.exists_of_check hok
  have hstep : GCStep eagerConfig gcObjStartup (.alloc 0 .double (some 4096) false) s₁ :=
    ⟨fun _ _ hb => absurd rfl hb, _, _, hs⟩
  have hrun := (gcRun_nil eagerConfig).snoc hstep
  have hcost := automatic_sweeps_amortized hrun
  exact ⟨_, hrun, rfl, hcost⟩

/-! ## The growth of the heap -/

/-- The size up to which an allocation does not collect. -/
def heapLimit (D : GCConfig) (s : GCState) : ℕ := max D.beginSize (s.lastAllocatedSize * 3 / 2)

/-- The bytes that the first `n` operations asked for while another thread ran the collector, since
the last sweep. -/
def waitingSince (D : GCConfig) (σ : ℕ → GCState) (ops : List GCOp) : ℕ → ℕ
  | 0 => 0
  | n + 1 =>
    match ops[n]? with
    | none => 0
    | some op =>
      if OpSweeps D (σ n) op then 0 else waitingSince D σ ops n + waitingBytes D op

/-- The size of the heap when `m` bytes were asked for while another thread ran the collector: when
a collection only moves the collector out of the compaction, the next one sweeps. -/
def Grown (D : GCConfig) (m : ℕ) (s : GCState) : Prop :=
  s.allocatedSize ≤ heapLimit D s + m ∨
    (s.status ≠ .compact ∧ ∃ t, s.allocatedSize ≤ heapLimit D s + (D.descrs t).size + m)

/-- INTERNAL: no collection is due below the limit.
SOURCE: m_gc_obj.c:638-640 -/
theorem allocatedSize_le_limit (h : ¬ collectionNeeded D s) :
    s.allocatedSize ≤ heapLimit D s := by
  rw [collectionNeeded, not_and_or, not_le, not_lt] at h
  rw [heapLimit]
  omega

/-- INTERNAL: **an operation keeps the bound**. -/
theorem step_grown {m : ℕ} (h : PacedHeap s) (hg : Grown D m s) (hs : GCStep D s op s') :
    Grown D (if OpSweeps D s op then 0 else m + waitingBytes D op) s' := by
  rw [Grown]
  cases (step_pace h.status hs).2 with
  | same hno hsize hl hst =>
    have hlimit : heapLimit D s' = heapLimit D s := by rw [heapLimit, heapLimit, hl]
    rw [if_neg hno, hlimit, hsize]
    rcases hg with hle | ⟨hne, t, hle⟩
    · exact Or.inl (by omega)
    · exact Or.inr ⟨fun hc => hne (hst hc), t, by omega⟩
  | grown th type map waiting hop hno hsize hl hst hwhy =>
    have hlimit : heapLimit D s' = heapLimit D s := by rw [heapLimit, heapLimit, hl]
    rw [if_neg hno]
    rcases hwhy with rfl | hneed | ⟨hcompact, hidle⟩
    · have hwait : waitingBytes D op = (D.descrs type).size := by rw [hop, waitingBytes]
      rw [hlimit, hsize, hwait]
      rcases hg with hle | ⟨hne, t, hle⟩
      · exact Or.inl (by omega)
      · exact Or.inr ⟨fun hc => hne (hst hc), t, by omega⟩
    · have hle := allocatedSize_le_limit hneed
      exact Or.inl (by omega)
    · rcases hg with hle | ⟨hne, -⟩
      · refine Or.inr ⟨by rw [hidle]; decide, type, ?_⟩
        rw [hlimit, hsize]
        omega
      · exact absurd hcompact hne
  | swept hop hl _ =>
    rw [if_pos hop]
    refine Or.inl ?_
    rw [heapLimit, hl]
    omega

/-- **The heap grows by half between two sweeps.** In every state of a run the bytes in use
exceed one and a half times what the last sweep left, or the size at which collections begin, by
one object at most, apart from the objects that were handed out since that sweep while another
thread ran the collector.
SOURCE: m_gc_obj.c:444-568, 571-645 -/
theorem heap_growth_bounded (h : GCRun D ops σ) {n : ℕ} (hn : n ≤ ops.length) :
    ∃ t, (σ n).allocatedSize ≤ max D.beginSize ((σ n).lastAllocatedSize * 3 / 2) +
      (D.descrs t).size + waitingSince D σ ops n := by
  have hg : PacedHeap (σ n) ∧ Grown D (waitingSince D σ ops n) (σ n) := by
    induction n with
    | zero =>
      rw [h.init]
      exact ⟨PacedHeap.startup, Or.inl (Nat.zero_le _)⟩
    | succ n ih =>
      obtain ⟨hp, hg⟩ := ih (Nat.le_of_succ_le hn)
      have hstep := h.step n hn
      refine ⟨step_paced hp hstep, ?_⟩
      rw [waitingSince, List.getElem?_eq_getElem hn]
      exact step_grown hp hg hstep
  rcases hg.2 with hle | ⟨-, t, hle⟩
  · exact ⟨.string, hle.trans (by rw [heapLimit]; omega)⟩
  · exact ⟨t, hle⟩

/-- A configuration in which collections begin at three words. -/
def threeWords : GCConfig := { defaultConfig with beginSize := 24 }

/-- The third allocation sweeps and frees the second cell; the fourth is made while another thread
runs the collector. -/
def growingOps : List GCOp :=
  [.alloc 0 .double (some 4096) false, .alloc 0 .double none false, .setNbLevel 0 1,
    .alloc 0 .string (some 8192) false, .alloc 0 .string none true]

/-- The size of the heap after a sweep and an allocation that does not collect. -/
theorem heap_growth_bounded_swept : ∃ σ, GCRun threeWords growingOps σ ∧
    (σ 5).allocatedSize = 40 ∧ (σ 5).lastAllocatedSize = 24 ∧
    ∃ t, 40 ≤ max 24 (24 * 3 / 2) + (threeWords.descrs t).size +
      waitingSince threeWords σ growingOps 5 := by
  have hc : runChecked threeWords (fun _ => []) (fun _ _ => true)
      (fun s => decide (s.allocatedSize = 40 ∧ s.lastAllocatedSize = 24)) growingOps
      gcObjStartup = true := by
    decide +kernel
  obtain ⟨σ, hrun, -, -, hP⟩ := run_of_checked (startup_inv threeWords) hc
  obtain ⟨hsize, hlast⟩ := of_decide_eq_true hP
  have hbound := heap_growth_bounded (n := 5) hrun le_rfl
  exact ⟨σ, hrun, hsize, hlast, by rwa [show (σ 5).allocatedSize = 40 from hsize,
    show (σ 5).lastAllocatedSize = 24 from hlast] at hbound⟩

end Ming.Analysis
