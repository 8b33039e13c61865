import Ming.Analysis.GCLinkSweep

/-!
# A collection over the links in memory

Between two operations no cell is gray and the gray stack is empty, so the mark loop is passed
in one step, over links as over lists. What is left of a collection marks the roots, which
touches no link, and sweeps.
-/

set_option autoImplicit false

namespace Ming.Analysis

open Ming.Foundation Ming.Model Ming.Interface

variable {D : GCConfig} {s s' s₁ : GCState} {m m' : GCMemory} {a : Addr} {n : ℕ}
variable {refs : Addr → List Addr} {flags : BitVec 32}

/-- Two results of a part of a collection that began with `m` and `s`: cells that are in use
were in use before, and their words are left alone. -/
def CollectedBoth (D : GCConfig) (m : GCMemory) (s : GCState) (r : Bool × GCMemory)
    (r' : Bool × GCState) : Prop :=
  r.1 = r'.1 ∧ Linked r.2 r'.2 ∧
    ∀ a, CellWord D r'.2 a → CellWord D s a ∧ r.2.links.next a = m.links.next a

/-- INTERNAL: the links do not depend on the status. -/
theorem linked_withStatus (h : Linked m s) (st : GCStatus) :
    Linked (m.withStatus st) { s with status := st } := by
  refine ⟨?_, h.pools, h.free⟩
  rw [GCMemory.withStatus, h.state]
  rfl

/-- INTERNAL: **the sweep and what follows it**.
SOURCE: m_gc_obj.c:512-521 -/
theorem collectSweep_linked (h : Linked m s) (hi : HeapInv D [] s) (hg : NoGray s)
    (hn : HeapNear D s) (flags : BitVec 32) : Outcome.RelFrom (CollectedBoth D m s)
      (fun walk => m.gcCollectSweep D walk flags) (gcCollectSweep D flags s) := by
  obtain ⟨s₁, -, e, -⟩ := sweep_spec hi hg hn
  obtain ⟨m₁, rounds, em, h₁, hwords⟩ := sweep_linked h hi hg hn e
  have hsweep : Outcome.RelFrom (fun m' s' => Linked m' s' ∧
      ∀ a, CellWord D s' a → CellWord D s a ∧ m'.links.next a = m.links.next a)
      (fun walk => m.gcSweep D walk) (gcSweep D s) := .ok rounds em e ⟨h₁, hwords⟩
  refine hsweep.bind fun m' s' hl _ => Outcome.Rel.from (Outcome.Rel.ite ?_ ?_)
  · intro _
    exact Outcome.Rel.ok ⟨rfl, linked_withStatus hl.1 .compact, hl.2⟩
  · intro _
    exact Outcome.Rel.ok ⟨rfl, linked_withStatus (linked_withStatus hl.1 .compact) .idle, hl.2⟩

/-- INTERNAL: marking is over at once.
SOURCE: m_gc_obj.c:352-376 -/
theorem markObjs_linked (h : Linked m s) (hstack : s.grayStack = [])
    (hneed : s.needScanGray = false) (walk n : ℕ) :
    m.gcMarkObjs D refs walk n = .ok (true, m) := by
  have hstack' : m.state.grayStack = [] := by
    rw [h.state]
    exact hstack
  have hneed' : m.state.needScanGray = false := by
    rw [h.state]
    exact hneed
  rw [GCMemory.gcMarkObjs, if_pos hstack', if_pos hneed']

/-- INTERNAL: **the mark loop and what follows it**.
SOURCE: m_gc_obj.c:500-521 -/
theorem collectMarkObj_linked (h : Linked m s) (hi : HeapInv D [] s) (hg : NoGray s)
    (hn : HeapNear D s) (hstack : s.grayStack = []) (hneed : s.needScanGray = false) (n : ℕ)
    (flags : BitVec 32) :
    Outcome.RelFrom (CollectedBoth D m s) (fun walk => m.gcCollectMarkObj D refs walk n flags)
      (gcCollectMarkObj D refs n flags s) := by
  have hsweep := collectSweep_linked (linked_withStatus h .sweep) (heapInv_withStatus hi .sweep)
    hg hn flags
  by_cases hc : clearing flags
  · simp only [GCMemory.gcCollectMarkObj, gcCollectMarkObj, if_pos hc]
    exact hsweep
  · simp only [GCMemory.gcCollectMarkObj, gcCollectMarkObj, if_neg hc]
    cases n with
    | zero => exact Outcome.Rel.from (Outcome.Rel.error _ _)
    | succ n =>
      simp only [GCMemory.gcMarkPhase, gcMarkPhase, markObjs_eq hstack hneed,
        markObjs_linked h hstack hneed, Outcome.ok_bind, if_true]
      by_cases hinc : incremental flags
      · simp only [if_pos hinc]
        exact Outcome.Rel.from (Outcome.Rel.ok
          ⟨rfl, linked_withStatus h .sweep, fun a ha => ⟨ha, rfl⟩⟩)
      · simp only [if_neg hinc]
        exact hsweep

/-- INTERNAL: marking the roots brings no cell into use. -/
theorem CellWord.of_blackened {P : Addr → ℕ → Prop} (hb : Blackened P s s')
    (h : CellWord D s' a) : CellWord D s a := by
  refine h.of_marks fun b p' hp' => ?_
  cases hp : s.pools b with
  | none => exact nomatch (hb.unmapped b hp).symm.trans hp'
  | some p =>
    obtain ⟨q, hq, hpool⟩ := hb.mapped b p hp
    obtain rfl := Option.some.inj (hq.symm.trans hp')
    refine ⟨p, rfl, hpool.begin_eq, hpool.type_eq, fun id hu => ?_⟩
    have hne : ¬ (poolMark p id = GC_MARK_WHITE ∧ P b id) := fun hw => by
      rw [hu] at hw
      exact absurd hw.1 (by decide)
    rw [hpool.same id hne, hu]

/-- INTERNAL: a collection that begins by marking the roots.
SOURCE: m_gc_obj.c:491-521 -/
theorem collectMarkRoot_linked (h : Linked m s) (hi : GCInv D s) (n : ℕ) (flags : BitVec 32) :
    Outcome.RelFrom (CollectedBoth D m s)
      (fun walk => (m.withStatus .markRoot).gcCollectMarkRoot D refs walk n flags)
      (gcCollectMarkRoot D refs n flags { s with status := .markRoot }) := by
  have h₀ := linked_withStatus h .markRoot
  by_cases hc : clearing flags
  · simp only [GCMemory.gcCollectMarkRoot, gcCollectMarkRoot, if_pos hc]
    exact collectMarkObj_linked (linked_withStatus h₀ .markObj)
      (heapInv_withStatus hi.heap .markObj) hi.noGray hi.near hi.stack hi.need n flags
  · simp only [GCMemory.gcCollectMarkRoot, gcCollectMarkRoot, if_neg hc]
    -- marking the roots touches no link
    have hroots : Outcome.Rel (fun m' s' => Linked m' s' ∧ m'.links = m.links)
        ((m.withStatus .markRoot).onState (gcMarkRoot D))
        (gcMarkRoot D { s with status := .markRoot }) :=
      (h₀.onState linkFree_markRoot).mono fun _ _ hl e _ =>
        ⟨hl, (onState_links e).trans rfl⟩
    refine hroots.from.bind fun m₁ s₁ hl e => ?_
    obtain ⟨-, hb, hi₁, hn₁, hg₁, hstack, hneed, -⟩ := markRoot_spec hi e
    have h₁ := linked_withStatus hl.1 .markObj
    have hwords : ∀ a, CellWord D s₁ a → CellWord D s a := fun a ha =>
      CellWord.of_blackened (s := rootsBegun s) hb ha
    by_cases hinc : incremental flags
    · simp only [if_pos hinc]
      exact Outcome.Rel.from (Outcome.Rel.ok
        ⟨rfl, h₁, fun a ha => ⟨hwords a ha, congrFun (congrArg MSListMem.next hl.2) a⟩⟩)
    · simp only [if_neg hinc]
      refine (collectMarkObj_linked h₁ (heapInv_withStatus hi₁ .markObj) hg₁ hn₁ hstack hneed
        n flags).mono fun r r' hr _ => ⟨hr.1, hr.2.1, fun a ha => ?_⟩
      obtain ⟨ha₁, e₁⟩ := hr.2.2 a ha
      exact ⟨hwords a ha₁, e₁.trans (congrFun (congrArg MSListMem.next hl.2) a)⟩

/-- INTERNAL: **a collection** does the same over links as over lists.
SOURCE: m_gc_obj.c:483-522 -/
theorem doCollect_linked (h : Linked m s) (hi : GCInv D s) (n : ℕ) (flags : BitVec 32) :
    Outcome.RelFrom (CollectedBoth D m s) (fun walk => m.gcDoCollect D refs walk n flags)
      (gcDoCollect D refs n flags s) := by
  have hst : m.state.status = s.status := by
    rw [h.state]
    rfl
  simp only [GCMemory.gcDoCollect, gcDoCollect, hst]
  cases hs : s.status with
  | idle => exact collectMarkRoot_linked h hi n flags
  | markRoot => exact absurd hs hi.status
  | markObj => exact collectMarkObj_linked h hi.heap hi.noGray hi.near hi.stack hi.need n flags
  | sweep => exact collectSweep_linked h hi.heap hi.noGray hi.near flags
  | compact =>
    exact Outcome.Rel.from (Outcome.Rel.ok
      ⟨rfl, linked_withStatus h .idle, fun a ha => ⟨ha, rfl⟩⟩)

/-- INTERNAL: **`gc_collect_objs`**.
SOURCE: m_gc_obj.c:525-568 -/
theorem collectObjs_linked (h : Linked m s) (hi : GCInv D s) (n : ℕ) (flags : BitVec 32)
    (waiting : Bool) : Outcome.RelFrom (fun m' s' => Linked m' s' ∧
        ∀ a, CellWord D s' a → CellWord D s a ∧ m'.links.next a = m.links.next a)
      (fun walk => m.gcCollectObjs D refs walk n flags waiting)
      (gcCollectObjs D refs n flags waiting s) := by
  cases waiting with
  | true => exact Outcome.Rel.from (Outcome.Rel.ok ⟨h, fun a ha => ⟨ha, rfl⟩⟩)
  | false =>
    exact (doCollect_linked h hi n flags).bind fun r r' hr _ =>
      Outcome.Rel.from (Outcome.Rel.ok hr.2)

end Ming.Analysis
