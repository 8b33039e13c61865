import Ming.Analysis.GCLinkAlloc
import Ming.Analysis.SListRuns

/-!
# The sweep over the links in memory

The sweep of a pool pushes the white cells on the free list in the pool. The free list that it
ends with is known from the sweep over lists, and every list on the way is an end of it, so no
push meets a cell that is on the list already. The loop over the pools of a type reads the link
of a pool before its body, which puts the pool on another list or unmaps it.
-/

set_option autoImplicit false

namespace Ming.Analysis

open Ming.Foundation Ming.Model Ming.Interface

variable {D : GCConfig} {s s' s₁ : GCState} {pool pool' : MGCCellPool} {base a b : ℕ}
variable {m m' : GCMemory} {live : ℕ → Bool} {last todo : List ℕ} {links : MSListMem PoolHead}
variable {type : MGCObjType} {descr : MGCObjDescr}

/-! ## The marks of a pool -/

/-- The free list that the sweep of the pool at `base` ends with can be threaded. -/
structure Threadable (live : ℕ → Bool) (base : Addr) (last : List Addr) : Prop where
  nodup : last.Nodup
  cell : ∀ c ∈ last, Access live (.addr c : MSListRef PoolHead)
  field : Access live (.addr (freeCellsAt base) : MSListRef PoolHead)
  apart : freeCellsAt base ∉ last

/-- The sweep of the pool at `base`, with the links in memory and with lists. `links` are the
links before the sweep. -/
structure SweepLinked (base : Addr) (last : List Addr) (links : MSListMem PoolHead)
    (ps : GCMemory.PoolSweep) (sw : GCSweep) : Prop where
  sweep : ps.sweep = { sw with pool := unlinkedPool sw.pool }
  free : Chain ps.links.next 0 (ps.links.next (freeCellsAt base)) sw.pool.freeCells
  heads : ps.links.head = links.head
  frame : ∀ a, a ≠ freeCellsAt base → a ∉ last → ps.links.next a = links.next a

/-- Where `g` returns it only adds to the free list, and `f` does the same in memory as long as
no cell comes that is not on the last free list. -/
def SweepSim (base : Addr) (last : List Addr) (links : MSListMem PoolHead)
    (f : GCMemory.PoolSweep → Outcome GCMemory.PoolSweep) (g : GCSweep → Outcome GCSweep) : Prop :=
  ∀ sw sw', g sw = .ok sw' → sw.pool.freeCells <:+ sw'.pool.freeCells ∧
    (sw'.pool.freeCells <:+ last → ∀ ps, SweepLinked base last links ps sw →
      ∃ ps', f ps = .ok ps' ∧ SweepLinked base last links ps' sw')

/-- INTERNAL: nothing is done on both sides. -/
theorem SweepSim.pure (base : Addr) (last : List Addr) (links : MSListMem PoolHead) :
    SweepSim base last links .ok .ok := by
  intro sw sw' e
  obtain rfl := Except.ok.inj e
  exact ⟨List.suffix_refl _, fun _ ps h => ⟨ps, rfl, h⟩⟩

/-- INTERNAL: one part of the sweep after another. -/
theorem SweepSim.bind {f f' : GCMemory.PoolSweep → Outcome GCMemory.PoolSweep}
    {g g' : GCSweep → Outcome GCSweep}
    (h : SweepSim base last links f g) (h' : SweepSim base last links f' g') :
    SweepSim base last links (fun ps => f ps >>= f') fun sw => g sw >>= g' := by
  intro sw sw' e
  obtain ⟨sw₁, e₁, e₂⟩ := Outcome.bind_eq_ok.mp e
  obtain ⟨hsuffix, hsim⟩ := h sw sw₁ e₁
  obtain ⟨hsuffix', hsim'⟩ := h' sw₁ sw' e₂
  refine ⟨hsuffix.trans hsuffix', fun hlast ps hl => ?_⟩
  obtain ⟨ps₁, p₁, hl₁⟩ := hsim (hsuffix'.trans hlast) ps hl
  obtain ⟨ps', p₂, hl'⟩ := hsim' hlast ps₁ hl₁
  exact ⟨ps', Outcome.bind_eq_ok.mpr ⟨ps₁, p₁, p₂⟩, hl'⟩

/-- INTERNAL: a branch on the same condition. -/
theorem SweepSim.ite {p : Prop} [Decidable p]
    {f f' : GCMemory.PoolSweep → Outcome GCMemory.PoolSweep}
    {g g' : GCSweep → Outcome GCSweep} (h : SweepSim base last links f g)
    (h' : SweepSim base last links f' g') :
    SweepSim base last links (fun ps => if p then f ps else f' ps)
      fun sw => if p then g sw else g' sw := by
  by_cases hp : p
  · simpa only [if_pos hp] using h
  · simpa only [if_neg hp] using h'

/-- INTERNAL: a loop with the same rounds. -/
theorem SweepSim.foldlM {α : Type} {f : GCMemory.PoolSweep → α → Outcome GCMemory.PoolSweep}
    {g : GCSweep → α → Outcome GCSweep}
    (h : ∀ x, SweepSim base last links (fun ps => f ps x) fun sw => g sw x) (l : List α) :
    SweepSim base last links (fun ps => l.foldlM f ps) fun sw => l.foldlM g sw := by
  induction l with
  | nil => exact SweepSim.pure base last links
  | cons x l ih => exact (h x).bind ih

/-- INTERNAL: a push on a list whose head is a field. -/
theorem chain_pushed_addr {m : MSListMem PoolHead} {p node : ℕ} {l : List ℕ}
    (hc : Chain m.next 0 (m.next p) l) (hne : node ≠ 0) (hnode : node ∉ l) (hp : p ∉ l)
    (hnp : node ≠ p) : Chain (pushed m (.addr p) node).next 0 ((pushed m (.addr p) node).next p)
      (node :: l) := by
  have hfield : (pushed m (.addr p) node).next p = node := Function.update_self ..
  have hlink : (pushed m (.addr p) node).next node = m.next p :=
    (Function.update_of_ne hnp _ _).trans (Function.update_self ..)
  rw [hfield]
  refine ⟨rfl, hne, ?_⟩
  rw [hlink]
  exact (hc.update_of_notMem hnode).update_of_notMem hp

/-- INTERNAL: **a white cell** is finalized and pushed on the free list.
SOURCE: m_gc_obj.c:403-413 -/
theorem sweepMark_white (ht : Threadable live base last) (n : ℕ) {ptr : Addr} (shift : ℕ)
    {ps : GCMemory.PoolSweep} {sw : GCSweep} (hl : SweepLinked base last links ps sw)
    (hlast : ptr :: sw.pool.freeCells <:+ last) : ∃ ps',
      GCMemory.gcSweepMark live base descr n ptr shift GC_MARK_WHITE ps = .ok ps' ∧
      SweepLinked base last links ps' { sw with
        log := sw.log ++ [.final sw.pool.type ptr]
        pool := { sw.pool with
          freeCells := ptr :: sw.pool.freeCells
          bitmap := sw.pool.bitmap.modify n fun w => w &&& ~~~(3#32 <<< shift) }
        allocatedSize := sw.allocatedSize - descr.size } := by
  have hmem : ptr ∈ last := hlast.subset List.mem_cons_self
  have hfree : sw.pool.freeCells ⊆ last := fun c hc =>
    hlast.subset (List.mem_cons_of_mem ptr hc)
  have hnew := (List.nodup_cons.mp (ht.nodup.sublist hlast.sublist)).1
  have hptr := ht.cell ptr hmem
  have hnp : ptr ≠ freeCellsAt base := fun e => ht.apart (e ▸ hmem)
  have hpush := slistPush_ok (m := ps.links) ht.field hptr
  obtain ⟨sweep, links'⟩ := ps
  obtain rfl : sweep = { sw with pool := unlinkedPool sw.pool } := hl.sweep
  refine ⟨⟨_, pushed links' (.addr (freeCellsAt base)) ptr⟩,
    by rw [GCMemory.gcSweepMark, if_pos rfl, hpush]; rfl, rfl,
    chain_pushed_addr hl.free hptr.1 hnew (fun hc => ht.apart (hfree hc)) hnp, hl.heads,
    fun a ha hal => ?_⟩
  have hne : a ≠ ptr := fun e => hal (e ▸ hmem)
  exact ((Function.update_of_ne ha _ _).trans (Function.update_of_ne hne _ _)).trans
    (hl.frame a ha hal)

/-- INTERNAL: **one mark** of a bitmap word.
SOURCE: m_gc_obj.c:401-421 -/
theorem sweepMark_sim (ht : Threadable live base last) (descr : MGCObjDescr) (n : ℕ) (ptr : Addr)
    (shift : ℕ) (mark : BitVec 32) : SweepSim base last links
      (GCMemory.gcSweepMark live base descr n ptr shift mark)
      (gcSweepMark descr n ptr shift mark) := by
  intro sw sw' e
  by_cases hw : mark = GC_MARK_WHITE
  · subst hw
    rw [gcSweepMark, if_pos rfl] at e
    obtain rfl := Except.ok.inj e
    exact ⟨List.suffix_cons ptr _, fun hlast ps hl => sweepMark_white ht n shift hl hlast⟩
  · -- no list is touched
    rw [gcSweepMark, if_neg hw] at e
    have hmem : ∀ ps sw₁, SweepLinked base last links ps sw →
        gcSweepMark descr n ptr shift mark { sw with pool := unlinkedPool sw.pool } = .ok sw₁ →
        GCMemory.gcSweepMark live base descr n ptr shift mark ps =
          .ok { ps with sweep := sw₁ } := by
      intro ps sw₁ hl e₁
      rw [GCMemory.gcSweepMark, if_neg hw, hl.sweep, e₁]
      rfl
    by_cases hb : mark = GC_MARK_BLACK
    · rw [if_pos hb] at e
      obtain rfl := Except.ok.inj e
      refine ⟨List.suffix_refl _, fun _ ps hl => ⟨_, hmem ps _ hl ?_, rfl, hl.free, hl.heads,
        hl.frame⟩⟩
      rw [gcSweepMark, if_neg hw, if_pos hb]
      rfl
    · rw [if_neg hb] at e
      split_ifs at e with hg
      obtain rfl := Except.ok.inj e
      refine ⟨List.suffix_refl _, fun _ ps hl => ⟨_, hmem ps _ hl ?_, rfl, hl.free, hl.heads,
        hl.frame⟩⟩
      rw [gcSweepMark, if_neg hw, if_neg hb, if_neg hg]

/-- INTERNAL: **the marks of a word**.
SOURCE: m_gc_obj.c:400-428 -/
theorem sweepWord_sim (ht : Threadable live base last) (descr : MGCObjDescr) (n k : ℕ)
    (flags : BitVec 32) (ptr : Addr) (shift : ℕ) : SweepSim base last links
      (GCMemory.gcSweepWord live base descr n k flags ptr shift)
      (gcSweepWord descr n k flags ptr shift) := by
  induction k generalizing flags ptr shift with
  | zero => exact fun _ _ e => nomatch e
  | succ k ih =>
    exact (sweepMark_sim ht descr n ptr shift (flags &&& 3)).bind
      ((SweepSim.pure base last links).ite (ih (flags >>> 2) (ptr + descr.size) (shift + 2)))

/-- INTERNAL: a word of the bitmap, also one that is skipped.
SOURCE: m_gc_obj.c:394-432 -/
theorem sweepWordAt_sim (ht : Threadable live base last) (descr : MGCObjDescr) (n : ℕ) :
    SweepSim base last links (fun ps => GCMemory.gcSweepWordAt live base descr ps n)
      fun sw => gcSweepWordAt descr sw n := by
  intro sw sw' e
  have hpool : ∀ ps, SweepLinked base last links ps sw → ps.sweep.pool.bitmap = sw.pool.bitmap ∧
      ps.sweep.pool.begin = sw.pool.begin := fun ps hl => by
    rw [hl.sweep]
    exact ⟨rfl, rfl⟩
  simp only [gcSweepWordAt] at e
  cases hword : sw.pool.bitmap[n]? with
  | none =>
    rw [hword] at e
    cases e
  | some w =>
    simp only [hword] at e
    have hmarks : SweepSim base last links _ _ :=
      sweepWord_sim ht descr n 16 w (wordAddr descr sw.pool.begin n) 0
    have hsim := hmarks.ite (p := w ≠ 0) (SweepSim.pure base last links)
    obtain ⟨hsuffix, hsim⟩ := hsim sw sw' e
    refine ⟨hsuffix, fun hlast ps hl => ?_⟩
    obtain ⟨ps', e', hl'⟩ := hsim hlast ps hl
    refine ⟨ps', ?_, hl'⟩
    obtain ⟨hbitmap, hbegin⟩ := hpool ps hl
    simp only [GCMemory.gcSweepWordAt, hbitmap, hbegin, hword]
    exact e'

/-! ## A pool -/

/-- INTERNAL: a pool is unmapped without looking at its free cells.
SOURCE: m_gc_obj.c:176-180 -/
theorem unlinked_free (s : GCState) (base : Addr) :
    gcFreePool (unlinked s) base = unlinked (gcFreePool s base) := by
  have hpools : (fun b => if b = base then none else (s.pools b).map unlinkedPool) =
      fun b => (if b = base then none else s.pools b).map unlinkedPool := by
    funext b
    split_ifs <;> rfl
  rw [gcFreePool, gcFreePool, unlinked, unlinked, hpools]

/-- INTERNAL: the state after the words of a pool. -/
theorem unlinked_wordsDone (h : m.state = unlinked s) (base : Addr) (sw : GCSweep) :
    { m.state.store base (unlinkedPool sw.pool) with
      allocatedSize := sw.allocatedSize, log := sw.log } = unlinked (wordsDone s base sw) := by
  rw [h, unlinked_store]
  rfl

/-- INTERNAL: the free list of a swept pool can be threaded. -/
theorem threadable_swept (hmapped : s.pools base ≠ none) (h : PoolInv D base pool) :
    Threadable (GCMemory.live D s) base pool.freeCells := by
  have hlive := linksLive h hmapped
  refine ⟨h.free_nodup, fun c hc => ?_, hlive.free, (header_notMem_free h).2⟩
  obtain ⟨id, hid, rfl, -⟩ := (h.mem_free c).mp hc
  exact hlive.cell id hid

/-- INTERNAL: the words of a pool, with its free list in memory.
SOURCE: m_gc_obj.c:390-432 -/
theorem sweepWords_linked (h : Linked m s) (hp : PoolInv D base pool)
    (hpool : s.pools base = some pool) (hg : ∀ id, poolMark pool id ≠ GC_MARK_GRAY)
    (hnear : ∀ id, poolMark pool id = GC_MARK_WHITE → NearAt D pool id) :
    ∃ ps sw, (List.range (D.bitmapWords pool.type)).foldlM
        (GCMemory.gcSweepWordAt (GCMemory.live D m.state) base (D.descrs pool.type))
        ⟨⟨unlinkedPool pool, false, m.state.allocatedSize, m.state.log⟩, m.links⟩ = .ok ps ∧
      (List.range (D.bitmapWords pool.type)).foldlM (gcSweepWordAt (D.descrs pool.type))
        ⟨pool, false, s.allocatedSize, s.log⟩ = .ok sw ∧
      PoolSwept D pool sw.pool ∧ SweepLinked base sw.pool.freeCells m.links ps sw := by
  obtain ⟨sw, hsw, hswept, -⟩ := sweepBitmap_eq hp hg hnear s.allocatedSize s.log
  have hmapped : m.state.pools base ≠ none := by
    rw [h.state, show (unlinked s).pools base = (s.pools base).map unlinkedPool from rfl, hpool]
    exact Option.some_ne_none _
  have hthread := threadable_swept hmapped (hswept.inv hp)
  have hsim : SweepSim base _ m.links _ _ := SweepSim.foldlM
    (sweepWordAt_sim hthread (D.descrs pool.type)) (List.range (D.bitmapWords pool.type))
  obtain ⟨ps, hps, hl⟩ := (hsim _ sw hsw).2 (List.suffix_refl _)
    ⟨⟨unlinkedPool pool, false, m.state.allocatedSize, m.state.log⟩, m.links⟩
    ⟨by rw [h.state]; rfl, h.free base pool hpool, rfl, fun _ _ _ => rfl⟩
  exact ⟨ps, sw, hps, hsw, hswept, hl⟩

/-- INTERNAL: the words of a pool and its free list are left alone by the sweep of a pool that
puts it on the list at `hd`. -/
theorem sweepLinked_pushed {ps : GCMemory.PoolSweep} {sw : GCSweep}
    (hl : SweepLinked base last links ps sw) (hd : PoolHead) (ha : a ≠ base)
    (ha' : a ≠ freeCellsAt base) (hal : a ∉ last) :
    (pushed ps.links (.var hd) base).next a = links.next a :=
  (Function.update_of_ne ha _ _).trans (hl.frame a ha' hal)

/-- INTERNAL: putting a swept pool on a list of its type.
SOURCE: m_gc_obj.c:433-437 -/
theorem sweepPool_kept (h : Linked m s) (hi : HeapInv D (base :: todo) s) (hne : base ≠ 0)
    (hp : PoolInv D base pool) {ps : GCMemory.PoolSweep} {sw : GCSweep}
    (hswept : PoolSwept D pool sw.pool)
    (hl : SweepLinked base sw.pool.freeCells m.links ps sw)
    (hout : SameOutside D base m.links ps.links) :
    Linked ⟨unlinked (wordsDone s base sw), pushed ps.links
        (.var (if sw.pool.freeCells = [] then .fullPools pool.type
          else .usablePools pool.type)) base⟩
      ((wordsDone s base sw).setStub pool.type
        (listPool sw.pool.freeCells base (s.stubs pool.type))) := by
  have hnot := notMem_poolList hi.lists (List.mem_cons_self (a := base))
  have hlists := isSLists_outside h hi hnot hout hl.heads
  have hstubs : poolList ((wordsDone s base sw).setStub pool.type
      (listPool sw.pool.freeCells base (s.stubs pool.type))).stubs =
      Function.update (poolList s.stubs) (if sw.pool.freeCells = [] then .fullPools pool.type
        else .usablePools pool.type) (base :: poolList s.stubs
          (if sw.pool.freeCells = [] then .fullPools pool.type else .usablePools pool.type)) := by
    rw [listPool]
    split_ifs
    · exact poolList_push_full s.stubs pool.type base
    · exact poolList_push_usable s.stubs pool.type base
  refine linked_of_pool h hi rfl (fun b hb => if_neg hb)
    (sameOutside_pushed hp.aligned hout _) ?_ fun p hp' => ?_
  · rw [hstubs]
    exact hlists.push hne hnot _
  · obtain rfl := Option.some.inj ((if_pos rfl).symm.trans hp')
    exact chain_pushed _ (header_notMem_free (hswept.inv hp)).1 hl.free

/-- INTERNAL: **the sweep of a pool** that is on no list. Words of cells that stay in use, and of
other pools, are left alone.
SOURCE: m_gc_obj.c:379-441 -/
theorem sweepPool_linked (h : Linked m s) (hi : HeapInv D (base :: todo) s) (hnot : base ∉ todo)
    (hne : base ≠ 0) (hpool : s.pools base = some pool)
    (hg : ∀ id, poolMark pool id ≠ GC_MARK_GRAY)
    (hnear : ∀ id, poolMark pool id = GC_MARK_WHITE → NearAt D pool id) :
    ∃ m' s', gcSweepPool D pool.type s base = .ok s' ∧
      m.gcSweepPool D pool.type base = .ok m' ∧ Linked m' s' ∧ HeapInv D todo s' ∧
      PoolsSwept D [base] s s' ∧ SameOutside D base m.links m'.links ∧
      ∀ a, CellWord D s' a → m'.links.next a = m.links.next a := by
  have hp := hi.pool hpool
  obtain ⟨ps, sw, hps, hsw, hswept, hl⟩ := sweepWords_linked h hp hpool hg hnear
  obtain ⟨s', e, hi', hdone⟩ := sweepPool_spec hi hnot hpool hg hnear
  have hrun := sweepPool_eq hpool hsw
  obtain rfl := Except.ok.inj (e.symm.trans hrun)
  have hp' := hswept.inv hp
  have hsweep : ps.sweep = { sw with pool := unlinkedPool sw.pool } := hl.sweep
  have hload : m.state.load base = .ok (unlinkedPool pool) := by
    rw [h.state, GCState.load,
      show (unlinked s).pools base = (s.pools base).map unlinkedPool from rfl, hpool]
    rfl
  have hst := unlinked_wordsDone h.state base sw
  have hinside : ∀ a, gcObjGetPool D a ≠ base → a ≠ base ∧ a ≠ freeCellsAt base ∧
      a ∉ sw.pool.freeCells := by
    intro a ha
    refine ⟨?_, ?_, fun hc => ?_⟩
    · rintro rfl
      exact ha (getPool_base hp.aligned)
    · rintro rfl
      exact ha (getPool_freeCellsAt hp.aligned)
    obtain ⟨id, hid, rfl, -⟩ := (hp'.mem_free a).mp hc
    exact ha (hp'.getPool_cellAddr hid)
  have hout : SameOutside D base m.links ps.links := fun a ha =>
    hl.frame a (hinside a ha).2.1 (hinside a ha).2.2
  have hbegin : m.gcSweepPool D pool.type base = (do
      let s := unlinked (wordsDone s base sw)
      if sw.haveBlack then
        if ← mSListEmpty (GCMemory.live D s) ps.links (.addr (freeCellsAt base)) then do
          let links ← mSListPush (GCMemory.live D s) ps.links (.var (.fullPools pool.type)) base
          pure ⟨s, links⟩
        else do
          let links ← mSListPush (GCMemory.live D s) ps.links (.var (.usablePools pool.type)) base
          pure ⟨s, links⟩
      else pure (GCMemory.gcFreePool ⟨s, ps.links⟩ base)) := by
    rw [GCMemory.gcSweepPool, hload]
    simp only [Outcome.ok_bind, hps, hsweep]
    rw [hst]
  by_cases hb : sw.haveBlack
  · have hmapped : (unlinked (wordsDone s base sw)).pools base ≠ none := by
      rw [show (unlinked (wordsDone s base sw)).pools base = some _ from
        congrArg (Option.map unlinkedPool) (if_pos rfl)]
      exact Option.some_ne_none _
    have hlive := linksLive hp hmapped
    have hempty := slistEmpty_ok (m := ps.links) hlive.free
    have hzero : ps.links.next (freeCellsAt base) = 0 ↔ sw.pool.freeCells = [] := by
      have hc := hl.free
      cases hf : sw.pool.freeCells with
      | nil =>
        rw [hf] at hc
        exact iff_of_true hc rfl
      | cons c l =>
        rw [hf] at hc
        exact iff_of_false (hc.1 ▸ hc.2.1) (by simp)
    have hpush : ∀ hd : PoolHead, mSListPush (GCMemory.live D (unlinked (wordsDone s base sw)))
        ps.links (.var hd) base = .ok (pushed ps.links (.var hd) base) := fun hd =>
      slistPush_ok (access_var _ hd) (hlive.node hne)
    simp only [if_pos hb] at e hi' hdone ⊢
    refine ⟨_, _, e, ?_, sweepPool_kept h hi hne hp hswept hl hout, hi', hdone,
      sameOutside_pushed hp.aligned hout _, fun a ha => ?_⟩
    · rw [hbegin, if_pos hb, hempty, Outcome.ok_bind, fieldOf]
      by_cases hf : sw.pool.freeCells = []
      · rw [decide_eq_true (hzero.mpr hf), if_pos hf, if_pos rfl, hpush]
        rfl
      · rw [decide_eq_false fun hz => hf (hzero.mp hz), if_neg hf, if_neg (by decide), hpush]
        rfl
    · obtain ⟨h₁, h₂, h₃⟩ : a ≠ base ∧ a ≠ freeCellsAt base ∧ a ∉ sw.pool.freeCells :=
        ha.notLink hi' (if_pos rfl)
      exact sweepLinked_pushed hl _ h₁ h₂ h₃
  · simp only [if_neg hb] at e hi' hdone ⊢
    refine ⟨GCMemory.gcFreePool ⟨unlinked (wordsDone s base sw), ps.links⟩ base, _, e, ?_, ?_, hi',
      hdone, hout, fun a ha => ?_⟩
    · rw [hbegin, if_neg hb]
      rfl
    · have hlists := isSLists_outside h hi
        (notMem_poolList hi.lists (List.mem_cons_self (a := base))) hout hl.heads
      refine linked_of_pool h hi (unlinked_free _ base)
        (fun b hb' => (if_neg hb').trans (if_neg hb')) hout hlists fun p hp₁ => ?_
      exact absurd (hp₁.symm.trans (if_pos rfl)) (Option.some_ne_none p)
    · -- the pool is unmapped, so the word lies in another one
      obtain ⟨b, q, id, k, hq, hid, -, rfl, hk⟩ := ha
      refine hout _ ?_
      rw [getPool_word (hi'.pool hq) hid hk]
      rintro rfl
      exact absurd (hq.symm.trans (if_pos rfl)) (Option.some_ne_none q)

/-! ## The pools of a type -/

/-- INTERNAL: words of cells that were in use before. -/
theorem CellWord.of_marks (hs : ∀ b p', s'.pools b = some p' → ∃ p, s.pools b = some p ∧
      p'.begin = p.begin ∧ p'.type = p.type ∧
      ∀ id, poolMark p id = GC_MARK_UNUSED → poolMark p' id = GC_MARK_UNUSED)
    (h : CellWord D s' a) : CellWord D s a := by
  obtain ⟨b, p', id, k, hp', hid, hused, rfl, hk⟩ := h
  obtain ⟨p, hp, hbegin, htype, hmark⟩ := hs b p' hp'
  rw [htype] at hid hk
  refine ⟨b, p, id, k, hp, hid, fun hu => hused (hmark id hu), ?_, hk⟩
  rw [cellAddr, cellAddr, hbegin, htype]

/-- INTERNAL: no cell comes into use in a sweep. -/
theorem CellWord.of_swept {bases : List Addr} (hs : PoolsSwept D bases s s')
    (h : CellWord D s' a) : CellWord D s a := by
  refine h.of_marks fun b p' hp' => ?_
  by_cases hb : b ∈ bases
  · obtain ⟨p, hp, hkept, hgone⟩ := hs.swept b hb
    by_cases hblack : HasBlack p
    · obtain ⟨q, hq, hswept⟩ := hkept hblack
      obtain rfl := Option.some.inj (hq.symm.trans hp')
      refine ⟨p, hp, hswept.begin_eq, hswept.type_eq, fun id hu => ?_⟩
      rw [hswept.mark, sweptMark_eq_unused]
      exact Or.inl hu
    · exact nomatch (hgone hblack).symm.trans hp'
  · exact ⟨p', (hs.other b hb).symm.trans hp', rfl, rfl, fun _ hu => hu⟩

/-- The heaps between two rounds of the loop over the pools `done ++ rest` of a type, and
before the loop over the pools of `later`. -/
structure PoolsDone (D : GCConfig) (t : MGCObjType) (m : GCMemory) (s : GCState)
    (done rest later : List Addr) (m' : GCMemory) (s' : GCState) : Prop where
  run : done.foldlM (gcSweepPool D t) s = .ok s'
  linked : Linked m' s'
  heap : HeapInv D (rest ++ later) s'
  swept : PoolsSwept D done s s'
  rest : Chain m'.links.next 0 (rest.headD 0) rest
  later : Chain m'.links.next 0 (later.headD 0) later
  words : ∀ a, CellWord D s' a → m'.links.next a = m.links.next a

/-- INTERNAL: a chain along saved links, after another pool was swept. -/
theorem chain_later {links' : MSListMem PoolHead} {l : List Addr}
    (hout : SameOutside D base links links') (hi : HeapInv D todo s)
    (hmapped : ∀ b ∈ l, ∃ pool, s.pools b = some pool) (hb : base ∉ l)
    (hc : Chain links.next 0 (l.headD 0) l) : Chain links'.next 0 (l.headD 0) l := by
  refine chain_pools hout (fun b hbl => ?_) hb hc
  obtain ⟨pool, hp⟩ := hmapped b hbl
  exact (hi.pool hp).aligned

/-- INTERNAL: one round of the loop.
SOURCE: m_gc_obj.c:467-473 -/
theorem PoolsDone.round {t : MGCObjType} {done rest later : List Addr} {m₀ : GCMemory}
    {s₀ : GCState} (h : PoolsDone D t m₀ s₀ done (base :: rest) later m s) (hg : NoGray s₀)
    (hn : HeapNear D s₀) (hnd : (done ++ base :: rest ++ later).Nodup)
    (hmapped : ∀ b ∈ done ++ base :: rest ++ later, ∃ pool, s₀.pools b = some pool ∧
      pool.type = t) :
    m.links.load (GCMemory.live D m.state) (.addr base) = .ok (rest.headD 0) ∧
      ∃ m', m.gcSweepPool D t base = .ok m' ∧
        ∃ s', PoolsDone D t m₀ s₀ (done ++ [base]) rest later m' s' := by
  have hdone : ∀ b, b ∈ base :: rest ++ later → b ∉ done := by
    rw [List.append_assoc] at hnd
    exact fun b hb hb' => (List.nodup_append.mp hnd).2.2 b hb' b hb rfl
  have hother : ∀ b ∈ base :: rest ++ later, ∃ pool, s.pools b = some pool ∧ pool.type = t := by
    intro b hb
    rw [h.swept.other b (hdone b hb)]
    exact hmapped b (by rw [List.append_assoc]; exact List.mem_append_right done hb)
  rw [List.append_assoc, List.nodup_append, List.cons_append, List.nodup_cons] at hnd
  obtain ⟨-, ⟨hnot, -⟩, -⟩ := hnd
  obtain ⟨pool, hpool, rfl⟩ := hother base List.mem_cons_self
  obtain ⟨-, hne, hlink⟩ := h.rest
  obtain ⟨m', s', e, em, hl, hi, hs, hout, hwords⟩ := sweepPool_linked h.linked h.heap hnot hne
    hpool (h.swept.noGray hg base pool hpool) ((h.swept.near hn).white hpool)
  have hmem : m.state.pools base ≠ none := by
    rw [h.linked.state, show (unlinked s).pools base = (s.pools base).map unlinkedPool from rfl,
      hpool]
    exact Option.some_ne_none _
  have hnode := (linksLive (h.heap.pool hpool) hmem).node hne
  have hnext : m.links.next base = rest.headD 0 := chain_headD_zero hlink
  have hmapped' : ∀ b ∈ rest ++ later, ∃ pool, s.pools b = some pool := fun b hb =>
    (hother b (List.mem_cons_of_mem base hb)).imp fun _ hp => hp.1
  rw [List.mem_append, not_or] at hnot
  refine ⟨(load_ok hnode).trans (congrArg _ hnext), m', em, s', ?_, hl, hi, ?_, ?_, ?_, ?_⟩
  · rw [List.foldlM_append, h.run, Outcome.ok_bind, List.foldlM_cons, e]
    rfl
  · exact h.swept.append hs fun b hb hb' =>
      hdone b (List.mem_singleton.mp hb' ▸ List.mem_cons_self) hb
  · exact chain_later hout h.heap (fun b hb => hmapped' b (List.mem_append_left _ hb)) hnot.1
      (hnext ▸ hlink)
  · exact chain_later hout h.heap (fun b hb => hmapped' b (List.mem_append_right _ hb)) hnot.2
      h.later
  · exact fun a ha => (hwords a ha).trans (h.words a (ha.of_swept hs))

/-- INTERNAL: **the loop over the pools of a saved list**.
SOURCE: m_gc_obj.c:467-473 -/
theorem sweepPools_linked {t : MGCObjType} {l later : List Addr} (h : Linked m s)
    (hi : HeapInv D (l ++ later) s) (hg : NoGray s) (hn : HeapNear D s) (hnd : (l ++ later).Nodup)
    (hmapped : ∀ b ∈ l ++ later, ∃ pool, s.pools b = some pool ∧ pool.type = t)
    (hl : Chain m.links.next 0 (l.headD 0) l)
    (hlater : Chain m.links.next 0 (later.headD 0) later) :
    ∃ m' s', (∀ walk > l.length, m.gcSweepPools D walk t (l.headD 0) = .ok m') ∧
      PoolsDone D t m s l [] later m' s' := by
  obtain ⟨m', e, -, s', hdone⟩ := slistForeachValueSafe_spec GCMemory.links
    (fun m => GCMemory.live D m.state) 0 (GCMemory.gcSweepPool D t) (s := m)
    (fun done rest m' => l = done ++ rest ∧ ∃ s', PoolsDone D t m s done rest later m' s')
    (fun b hb => Nat.pos_of_ne_zero (hl.ne_null hb))
    (fun done b rest m' hinv => by
      obtain ⟨rfl, s', hinv⟩ := hinv
      obtain ⟨hload, m'', e, hdone⟩ := hinv.round hg hn hnd hmapped
      exact ⟨hload, m'', e, by rw [List.append_assoc]; rfl, hdone⟩)
    ⟨rfl, s, rfl, h, hi, PoolsSweptAs.nil _ s, hl, hlater, fun _ _ => rfl⟩
  refine ⟨m', s', fun walk hw => ?_, hdone⟩
  rw [GCMemory.gcSweepPools, e walk hw]
  rfl

/-- INTERNAL: the heap with the lists of one type emptied.
SOURCE: m_gc_obj.c:455-466 -/
theorem linked_emptied (h : Linked m s) (t : MGCObjType) :
    Linked ⟨m.state, Interface.setField (Interface.setField m.links (.var (.fullPools t)) 0)
      (.var (.usablePools t)) 0⟩ (s.setStub t ⟨[], []⟩) := by
  refine ⟨h.state, ?_, h.free⟩
  have hstubs : poolList (s.setStub t ⟨[], []⟩).stubs = Function.update
      (Function.update (poolList s.stubs) (.fullPools t) []) (.usablePools t) [] :=
    (poolList_replace s.stubs t ⟨[], []⟩).trans (Function.update_comm (by simp) _ _ _)
  rw [hstubs]
  exact (h.pools.init (.fullPools t)).init (.usablePools t)

/-- INTERNAL: **the pools of one type**, the loops unfolded often enough.
SOURCE: m_gc_obj.c:455-474 -/
theorem sweepType_linked (h : Linked m s) (hi : HeapInv D [] s) (hg : NoGray s)
    (hn : HeapNear D s) {t : MGCObjType} (e : gcSweepType D s t = .ok s') :
    ∃ m' rounds, (∀ walk ≥ rounds, m.gcSweepType D walk t = .ok m') ∧ Linked m' s' ∧
      ∀ a, CellWord D s' a → m'.links.next a = m.links.next a := by
  have hfull := h.pools (.fullPools t)
  have husable := h.pools (.usablePools t)
  have hfull₀ := chain_headD_zero hfull
  have husable₀ := chain_headD_zero husable
  rw [hfull₀] at hfull
  rw [husable₀] at husable
  have hmapped : ∀ b ∈ (s.stubs t).fullPools ++ (s.stubs t).usablePools,
      ∃ pool, s.pools b = some pool ∧ pool.type = t := fun b hb =>
    ((hi.lists.mem_type t).mp hb).2
  have hnd := hi.lists.nodup t
  -- first the full pools
  obtain ⟨m₁, s₁, e₁, h₁⟩ := sweepPools_linked (s := s.setStub t ⟨[], []⟩) (t := t)
    (linked_emptied h t) ⟨hi.pool, hi.lists.takeAll t, hi.bytes⟩ hg hn hnd hmapped hfull husable
  have hmapped₁ : ∀ b ∈ (s.stubs t).usablePools ++ [], ∃ pool, s₁.pools b = some pool ∧
      pool.type = t := by
    intro b hb
    rw [List.append_nil] at hb
    rw [h₁.swept.other b fun hb' => (List.nodup_append.mp hnd).2.2 b hb' b hb rfl]
    exact hmapped b (List.mem_append_right _ hb)
  -- then the usable ones
  obtain ⟨m₂, s₂, e₂, h₂⟩ := sweepPools_linked (t := t) h₁.linked
    (by rw [List.append_nil]; exact h₁.heap) (h₁.swept.noGray hg) (h₁.swept.near hn)
    (by rw [List.append_nil]; exact (List.nodup_append.mp hnd).2.1) hmapped₁ h₁.later
    (l := (s.stubs t).usablePools) (show Chain m₁.links.next 0 (([] : List ℕ).headD 0) [] from rfl)
  have hrun : gcSweepType D s t = .ok s₂ := by
    rw [gcSweepType]
    exact Outcome.bind_eq_ok.mpr ⟨s₁, h₁.run, h₂.run⟩
  obtain rfl := Except.ok.inj (hrun.symm.trans e)
  refine ⟨m₂, (s.stubs t).fullPools.length + (s.stubs t).usablePools.length + 1,
    fun walk hw => ?_, h₂.linked, fun a ha => ?_⟩
  · rw [GCMemory.gcSweepType, slistInit_ok (access_var _ _), Outcome.ok_bind,
      slistInit_ok (access_var _ _), Outcome.ok_bind, hfull₀, husable₀]
    exact Outcome.bind_eq_ok.mpr ⟨m₁, e₁ walk (by omega), e₂ walk (by omega)⟩
  · exact (h₂.words a ha).trans (h₁.words a (ha.of_swept h₂.swept))

/-- INTERNAL: the pools of several types. -/
theorem sweepTypes_linked {types : List MGCObjType} (h : Linked m s) (hi : HeapInv D [] s)
    (hg : NoGray s) (hn : HeapNear D s) (e : types.foldlM (gcSweepType D) s = .ok s') :
    ∃ m' rounds, (∀ walk ≥ rounds, types.foldlM (GCMemory.gcSweepType D walk) m = .ok m') ∧
      Linked m' s' ∧ ∀ a, CellWord D s' a → CellWord D s a ∧ m'.links.next a = m.links.next a := by
  induction types generalizing m s with
  | nil =>
    obtain rfl := Except.ok.inj e
    exact ⟨m, 0, fun _ _ => rfl, h, fun a ha => ⟨ha, rfl⟩⟩
  | cons t types ih =>
    obtain ⟨s₁, bases, e₁, hi₁, -, -, hs₁⟩ := sweepType_spec hi hg hn t
    obtain ⟨m₁, rounds₁, em₁, h₁, hwords₁⟩ := sweepType_linked h hi hg hn e₁
    rw [List.foldlM_cons, e₁] at e
    obtain ⟨m₂, rounds₂, em₂, h₂, hwords₂⟩ := ih h₁ hi₁ (hs₁.noGray hg) (hs₁.near hn) e
    refine ⟨m₂, max rounds₁ rounds₂, fun walk hw => ?_, h₂, fun a ha => ?_⟩
    · rw [List.foldlM_cons, em₁ walk (le_trans (le_max_left _ _) hw)]
      exact em₂ walk (le_trans (le_max_right _ _) hw)
    · obtain ⟨ha₁, e₂⟩ := hwords₂ a ha
      exact ⟨ha₁.of_swept hs₁, e₂.trans (hwords₁ a ha₁)⟩

/-- INTERNAL: **the sweep of the heap** with its links in memory.
SOURCE: m_gc_obj.c:444-480 -/
theorem sweep_linked (h : Linked m s) (hi : HeapInv D [] s) (hg : NoGray s) (hn : HeapNear D s)
    (e : gcSweep D s = .ok s') :
    ∃ m' rounds, (∀ walk ≥ rounds, m.gcSweep D walk = .ok m') ∧ Linked m' s' ∧
      ∀ a, CellWord D s' a → CellWord D s a ∧ m'.links.next a = m.links.next a := by
  obtain ⟨s₁, e₁, e₂⟩ := Outcome.bind_eq_ok.mp e
  obtain rfl := Except.ok.inj e₂
  obtain ⟨m₁, rounds, em, h₁, hwords⟩ := sweepTypes_linked h hi hg hn e₁
  refine ⟨{ m₁ with state := { m₁.state with lastAllocatedSize := m₁.state.allocatedSize } },
    rounds, fun walk hw => ?_, ⟨?_, h₁.pools, h₁.free⟩, hwords⟩
  · rw [GCMemory.gcSweep, em walk hw]
    rfl
  · rw [h₁.state]
    rfl

end Ming.Analysis
