import Ming.Interface.ListSequence

/-!
# The doubly linked list refines a sequence

Append and prepend link a node in between the head and one of its neighbours, remove links the
two neighbours of a node to each other. Each call does to the ring what it does to the sequence,
so a whole run does. A safe loop keeps the next node across the body: the nodes that stay and
those to come form a list all the time.
-/

set_option autoImplicit false

namespace Ming.Analysis

open Ming.Foundation Ming.Model Ming.Interface

variable {m m' : MListMem} {d : MLink} {head node : Ptr} {l l₁ l₂ done rest : List Ptr} {fuel : ℕ}

/-! ## The functions -/

/-- INTERNAL: **`m_list_init`**.
SOURCE: m_list.h:129-136 -/
theorem mListInit_spec (m : MListMem) (hhead : head ≠ NULL) :
    ∃ m', mListInit m head = .ok m' ∧ IsList m' .next head [] := by
  refine ⟨(m.setLink .prev head head).setLink .next head head, ?_, ?_, ?_⟩
  · rw [mListInit, if_neg hhead, MListMem.store_ok hhead, Outcome.ok_bind,
      MListMem.store_ok hhead]
  · apply Ring.nil
    · simp [MListMem.link_setLink]
    · simp [MListMem.link_setLink]
  · intro p hp
    rwa [List.mem_singleton.mp hp]

/-- INTERNAL: **`m_list_empty`**.
SOURCE: m_list.h:119-123 -/
theorem mListEmpty_spec (h : IsList m .next head l) :
    mListEmpty m head = .ok (decide (l = [])) := by
  rw [mListEmpty, MListMem.load_ok h.head_ne_null, Outcome.ok_bind, Outcome.pure_eq_ok,
    decide_eq_decide.mpr h.ring.next_head_iff]

/-- The links after `node` was put between `p` and `q`. -/
structure LinkedIn (m m' : MListMem) (p node q : Ptr) : Prop where
  last : Linked (m'.link .next) (m'.link .prev) p node
  first : Linked (m'.link .next) (m'.link .prev) node q
  next : ∀ a, a ≠ p → a ≠ node → m'.link .next a = m.link .next a
  prev : ∀ a, a ≠ q → a ≠ node → m'.link .prev a = m.link .prev a

/-- INTERNAL: a node between two parts of a list. -/
theorem LinkedIn.isList (h : IsList m .next head (l₁ ++ l₂)) (hnode : node ≠ NULL)
    (hfresh : node ∉ head :: (l₁ ++ l₂))
    (hin : LinkedIn m m' (lastOf head l₁) node (firstOf head l₂)) :
    IsList m' .next head (l₁ ++ node :: l₂) := by
  have hne : ∀ a ∈ head :: (l₁ ++ l₂), a ≠ node := by
    rintro a ha rfl
    exact hfresh ha
  constructor
  · apply h.ring.insert hfresh hin.last hin.first
    · intro a ha hlast
      exact hin.next a hlast (hne a ha)
    · intro a ha hfirst
      exact hin.prev a hfirst (hne a ha)
  · intro p hp
    rw [← List.cons_append, List.perm_middle.mem_iff, List.mem_cons] at hp
    rcases hp with rfl | hp
    · exact hnode
    · exact h.ne_null p hp

/-- INTERNAL: **`m_list_append`** puts the node between the last one and the head.
SOURCE: m_list.h:143-152 -/
theorem mListAppend_spec (h : IsList m .next head l) (hnode : node ≠ NULL)
    (hfresh : node ∉ head :: l) :
    ∃ m', mListAppend m head node = .ok m' ∧ IsList m' .next head (l ++ [node]) := by
  have hhead := h.head_ne_null
  have hprev : m.link .prev head = lastOf head l := h.ring.prev_head
  have hne : head ≠ node := fun e => hfresh (e ▸ List.mem_cons_self)
  have hlast : lastOf head l ≠ NULL := h.ne_null _ (lastOf_mem head l)
  have hlast' : lastOf head l ≠ node := fun e => hfresh (e ▸ lastOf_mem head l)
  -- the first two stores leave the head alone
  have hprev' : ((m.setLink .prev node (lastOf head l)).setLink .next node head).link .prev head =
      lastOf head l := by simp [MListMem.link_setLink, hne, hprev]
  refine ⟨(((m.setLink .prev node (lastOf head l)).setLink .next node head).setLink .next
    (lastOf head l) node).setLink .prev head node, ?_, ?_⟩
  · rw [mListAppend, if_neg (not_or.mpr ⟨hhead, hnode⟩)]
    simp only [MListMem.load_ok hhead, MListMem.store_ok hnode, MListMem.store_ok hhead,
      MListMem.store_ok hlast, Outcome.ok_bind, hprev, hprev']
  · rw [← List.append_nil l] at h hfresh
    apply LinkedIn.isList h hnode hfresh
    constructor
    · simp [Linked, MListMem.link_setLink, hne.symm]
    · simp [Linked, MListMem.link_setLink, hlast'.symm]
    · intro a hp hn
      simp [MListMem.link_setLink, hp, hn]
    · intro a hq hn
      have hq : a ≠ head := hq
      simp [MListMem.link_setLink, hq, hn]

/-- INTERNAL: **`m_list_prepend`** puts the node between the head and the first one.
SOURCE: m_list.h:159-168 -/
theorem mListPrepend_spec (h : IsList m .next head l) (hnode : node ≠ NULL)
    (hfresh : node ∉ head :: l) :
    ∃ m', mListPrepend m head node = .ok m' ∧ IsList m' .next head (node :: l) := by
  have hhead := h.head_ne_null
  have hnext : m.link .next head = firstOf head l := h.ring.next_head
  have hne : head ≠ node := fun e => hfresh (e ▸ List.mem_cons_self)
  have hfirst : firstOf head l ≠ NULL := h.ne_null _ (firstOf_mem head l)
  have hfirst' : firstOf head l ≠ node := fun e => hfresh (e ▸ firstOf_mem head l)
  have hnext₁ : (m.setLink .prev node head).link .next head = firstOf head l := by
    simp [MListMem.link_setLink, hnext]
  have hnext₂ : ((m.setLink .prev node head).setLink .next node (firstOf head l)).link .next
      head = firstOf head l := by simp [MListMem.link_setLink, hne, hnext]
  refine ⟨(((m.setLink .prev node head).setLink .next node (firstOf head l)).setLink .prev
    (firstOf head l) node).setLink .next head node, ?_, ?_⟩
  · rw [mListPrepend, if_neg (not_or.mpr ⟨hhead, hnode⟩)]
    simp only [MListMem.load_ok hhead, MListMem.store_ok hnode, MListMem.store_ok hhead,
      MListMem.store_ok hfirst, Outcome.ok_bind, hnext₁, hnext₂]
  · rw [← List.nil_append l] at h hfresh
    apply LinkedIn.isList h hnode hfresh
    constructor
    · simp [Linked, MListMem.link_setLink, hfirst'.symm]
    · simp [Linked, MListMem.link_setLink, hne.symm]
    · intro a hp hn
      have hp : a ≠ head := hp
      simp [MListMem.link_setLink, hp, hn]
    · intro a hq hn
      simp [MListMem.link_setLink, hq, hn]

/-- INTERNAL: `m_list_remove` on a list that is read forwards.
SOURCE: m_list.h:174-179 -/
theorem unlinkNode_spec (h : IsList m .next head (l₁ ++ node :: l₂)) :
    ∃ m', mListRemove m node = .ok m' ∧ IsList m' .next head (l₁ ++ l₂) := by
  have hprev : m.link .prev node = lastOf head l₁ := h.ring.prev_eq
  have hnext : m.link .next node = firstOf head l₂ := h.ring.next_eq
  have hnode : node ≠ NULL := h.ne_null node (by simp)
  have hlast : lastOf head l₁ ≠ NULL := h.ne_null _ (lastOf_mem_append head l₁ _)
  have hfirst : firstOf head l₂ ≠ NULL := by
    apply h.ne_null
    rw [List.append_cons]
    exact firstOf_mem_append head _ l₂
  have hnd := h.ring.nodup
  rw [← List.cons_append, List.nodup_middle, List.nodup_cons, List.cons_append] at hnd
  have hne : node ≠ lastOf head l₁ := by
    intro e
    apply hnd.1
    rw [e]
    exact lastOf_mem_append head l₁ l₂
  -- the first store changes neither link of the node
  have hnext' : (m.setLink .next (lastOf head l₁) (firstOf head l₂)).link .next node =
      firstOf head l₂ := by simp [MListMem.link_setLink, hne, hnext]
  have hprev' : (m.setLink .next (lastOf head l₁) (firstOf head l₂)).link .prev node =
      lastOf head l₁ := by simp [MListMem.link_setLink, hprev]
  refine ⟨(m.setLink .next (lastOf head l₁) (firstOf head l₂)).setLink .prev (firstOf head l₂)
    (lastOf head l₁), ?_, ?_, ?_⟩
  · simp only [mListRemove, MListMem.load_ok hnode, hprev, hnext, Outcome.ok_bind,
      MListMem.store_ok hlast, hnext', hprev', MListMem.store_ok hfirst]
  · apply h.ring.unlink
    · simp [Linked, MListMem.link_setLink]
    · intro a _ ha
      simp [MListMem.link_setLink, ha]
    · intro a _ ha
      simp [MListMem.link_setLink, ha]
  · intro p hp
    apply h.ne_null p
    rw [← List.cons_append, List.perm_middle.mem_iff]
    exact List.mem_cons_of_mem _ hp

/-- INTERNAL: **`m_list_remove`**, in whichever direction the list is read.
SOURCE: m_list.h:174-179 -/
theorem mListRemove_spec (h : IsList m d head (l₁ ++ node :: l₂)) :
    ∃ m', mListRemove m node = .ok m' ∧ IsList m' d head (l₁ ++ l₂) := by
  cases d with
  | next => exact unlinkNode_spec h
  | prev =>
    have hflip : IsList m .next head (l₂.reverse ++ node :: l₁.reverse) := by
      simpa using h.flip
    obtain ⟨m', e, h'⟩ := unlinkNode_spec hflip
    refine ⟨m', e, ?_⟩
    simpa using h'.flip

/-! ## Runs -/

/-- The call of a list function. -/
def callOf (head : Ptr) (m : MListMem) : ListOp → Outcome MListMem
  | .append node => mListAppend m head node
  | .prepend node => mListPrepend m head node
  | .remove node => mListRemove m node

/-- INTERNAL: one call does to the list what it does to the sequence. -/
theorem callOf_spec {op : ListOp} (h : IsList m .next head l) (hop : op.apply l = some l₁)
    (hnull : op.node ≠ NULL) (hhead : op.node ≠ head) :
    ∃ m', callOf head m op = .ok m' ∧ IsList m' .next head l₁ := by
  cases op with
  | append node =>
    obtain ⟨hfresh, rfl⟩ : node ∉ l ∧ l ++ [node] = l₁ := by simpa [ListOp.apply] using hop
    apply mListAppend_spec h hnull
    exact List.not_mem_cons_of_ne_of_not_mem hhead hfresh
  | prepend node =>
    obtain ⟨hfresh, rfl⟩ : node ∉ l ∧ node :: l = l₁ := by simpa [ListOp.apply] using hop
    apply mListPrepend_spec h hnull
    exact List.not_mem_cons_of_ne_of_not_mem hhead hfresh
  | remove node =>
    obtain ⟨hmem, rfl⟩ : node ∈ l ∧ l.erase node = l₁ := by simpa [ListOp.apply] using hop
    obtain ⟨l₁, l₂, rfl⟩ := List.append_of_mem hmem
    have hnd := h.nodup
    rw [List.nodup_middle, List.nodup_cons, List.mem_append, not_or] at hnd
    rw [List.erase_append_right _ hnd.1.1, List.erase_cons_head]
    exact mListRemove_spec h

/-- INTERNAL: a run of calls. The induction is on the calls. -/
theorem calls_spec {ops : List ListOp} (h : IsList m .next head l)
    (hops : ops.foldlM ListOp.apply l = some l₁)
    (hnodes : ∀ op ∈ ops, op.node ≠ NULL ∧ op.node ≠ head) :
    ∃ m', ops.foldlM (callOf head) m = .ok m' ∧ IsList m' .next head l₁ := by
  induction ops generalizing m l with
  | nil =>
    obtain rfl : l = l₁ := by simpa using hops
    exact ⟨m, rfl, h⟩
  | cons op ops ih =>
    rw [List.foldlM_cons, Option.bind_eq_bind, Option.bind_eq_some_iff] at hops
    obtain ⟨l', hop, hops⟩ := hops
    have hnode := hnodes op List.mem_cons_self
    obtain ⟨m', e, h'⟩ := callOf_spec h hop hnode.1 hnode.2
    obtain ⟨m'', e', h''⟩ := ih h' hops fun op hop => hnodes op (List.mem_cons_of_mem _ hop)
    refine ⟨m'', ?_, h''⟩
    rw [List.foldlM_cons, e]
    exact e'

/-! ## Loops -/

/-- INTERNAL: the loops with a body that does not touch the list.
SOURCE: m_list.h:46-53 -/
theorem listForeachFrom_spec (h : IsList m d head l) (hf : l.length < fuel) :
    mListForeachFrom d fuel m head (fun m _ => .ok m) = .ok (m, l) := by
  have hlink : ∀ done p rest, l = done ++ p :: rest →
      m.load d p = .ok (firstOf head rest) := by
    rintro done p rest rfl
    rw [MListMem.load_ok (h.ne_null p (by simp)), h.ring.next_eq]
  rw [mListForeachFrom, MListMem.load_ok h.head_ne_null, Outcome.ok_bind, h.ring.next_head]
  exact forLoop_links (fun p hp => h.ring.ne_head hp) hlink hf

/-- A body that passes some nodes to `m_list_remove` and may then free them, so that their
memory holds anything. -/
def unlinking (removed : Ptr → Bool) (freed : Ptr → MList → MList) (m : MListMem) (node : Ptr) :
    Outcome MListMem :=
  if removed node then do
    let m ← mListRemove m node
    pure { node := Function.update m.node node (freed node (m.node node)) }
  else .ok m

/-- The list between two rounds: the visited nodes that were not removed, then those to come. -/
def ListSafeInv (d : MLink) (head : Ptr) (removed : Ptr → Bool) (done rest : List Ptr)
    (m : MListMem) : Prop :=
  IsList m d head (done.filter (!removed ·) ++ rest)

/-- INTERNAL: a body in a round of a safe loop: the node may go, and the others stay.
SOURCE: m_list.h:60-73 -/
theorem ListSafeInv.body {removed : Ptr → Bool} (freed : Ptr → MList → MList)
    (h : ListSafeInv d head removed done (node :: rest) m) :
    ∃ m', unlinking removed freed m node = .ok m' ∧
      ListSafeInv d head removed (done ++ [node]) rest m' := by
  cases hrm : removed node with
  | false =>
    refine ⟨m, by simp [unlinking, hrm], ?_⟩
    simpa [ListSafeInv, hrm] using h
  | true =>
    obtain ⟨m', e, hlist⟩ := mListRemove_spec h
    have hnd := h.ring.nodup
    rw [← List.cons_append, List.nodup_middle, List.nodup_cons, List.cons_append] at hnd
    refine ⟨_, by rw [unlinking, if_pos hrm, e, Outcome.ok_bind, Outcome.pure_eq_ok], ?_⟩
    have hkept : (done ++ [node]).filter (!removed ·) = done.filter (!removed ·) := by simp [hrm]
    rw [ListSafeInv, hkept]
    apply hlist.congr
    intro q hq
    have hne : q ≠ node := by
      rintro rfl
      exact hnd.1 hq
    exact Function.update_of_ne hne _ _

/-- INTERNAL: the safe loops, in either direction. The link of a node is read before the body.
SOURCE: m_list.h:60-73 -/
theorem listForeachSafeFrom_spec (removed : Ptr → Bool) (freed : Ptr → MList → MList)
    (h : IsList m d head l) (hf : l.length < fuel) :
    ∃ m', mListForeachSafeFrom d fuel m head (unlinking removed freed) = .ok (m', l) ∧
      IsList m' d head (l.filter (!removed ·)) := by
  obtain ⟨m', rounds, e, hmap, hfinal⟩ := forLoop_saved
    (fun m node => do
      let nnext ← m.load d node
      pure (if node = head then none else some (node, nnext)))
    (unlinking removed freed) (ListSafeInv d head removed)
    (fun done m hlist => by
      rw [MListMem.load_ok hlist.head_ne_null, Outcome.ok_bind, if_pos rfl, Outcome.pure_eq_ok])
    (fun done p rest m hlist => by
      refine ⟨?_, hlist.body freed⟩
      rw [MListMem.load_ok (hlist.ne_null p (by simp)), hlist.ring.next_eq, Outcome.ok_bind,
        if_neg (hlist.ring.ne_head (by simp)), Outcome.pure_eq_ok]
      rfl) h hf
  rw [ListSafeInv, List.append_nil] at hfinal
  refine ⟨m', ?_, hfinal⟩
  have hfirst : m.link d head = l.headD head := h.ring.next_head
  rw [mListForeachSafeFrom, MListMem.load_ok h.head_ne_null, Outcome.ok_bind, hfirst, e,
    Outcome.ok_bind, ← hmap]
  rfl

/-- **The list refines a sequence.** For every run of appends and prepends of nodes outside the
list and removals of nodes of it, after `m_list_init`: every call returns; following the forward
links visits the abstract sequence, following the backward links its reverse, and `m_list_empty`
holds exactly when it is empty; and whichever visited nodes the body removes (and frees), the
safe loops visit every node once, in the same orders, and leave the list of the nodes that were
not removed.
SOURCE: m_list.h:46-73, 119-179 -/
theorem list_refines_sequence (m₀ : MListMem) {ops : List ListOp} (hhead : head ≠ NULL)
    (hnodes : ∀ op ∈ ops, op.node ≠ NULL ∧ op.node ≠ head)
    (hops : ops.foldlM ListOp.apply [] = some l) (hf : l.length < fuel) :
    ∃ m, (mListInit m₀ head >>= ops.foldlM (callOf head)) = .ok m ∧ l.Nodup ∧
      IsList m .next head l ∧ IsList m .prev head l.reverse ∧
      mListForeach fuel m head (fun m _ => .ok m) = .ok (m, l) ∧
      mListForeachR fuel m head (fun m _ => .ok m) = .ok (m, l.reverse) ∧
      mListEmpty m head = .ok (decide (l = [])) ∧
      ∀ removed freed,
        (∃ m', mListForeachSafe fuel m head (unlinking removed freed) = .ok (m', l) ∧
          IsList m' .next head (l.filter (!removed ·))) ∧
        (∃ m', mListForeachSafeR fuel m head (unlinking removed freed) = .ok (m', l.reverse) ∧
          IsList m' .next head (l.filter (!removed ·))) := by
  obtain ⟨m₁, e₁, h₁⟩ := mListInit_spec m₀ hhead
  obtain ⟨m, e, h⟩ := calls_spec h₁ hops hnodes
  have hflip : IsList m .prev head l.reverse := h.flip
  have hf' : l.reverse.length < fuel := by rwa [List.length_reverse]
  refine ⟨m, by rw [e₁, Outcome.ok_bind, e], h.nodup, h, hflip, listForeachFrom_spec h hf,
    listForeachFrom_spec hflip hf', mListEmpty_spec h, ?_⟩
  intro removed freed
  refine ⟨listForeachSafeFrom_spec removed freed h hf, ?_⟩
  obtain ⟨m', e', h'⟩ := listForeachSafeFrom_spec removed freed hflip hf'
  refine ⟨m', e', ?_⟩
  rw [List.filter_reverse] at h'
  simpa using h'.flip

/-- Three nodes, of which the first one is removed by a call and the last one by a loop. -/
theorem list_refines_sequence_three :
    ∃ m, (mListInit ⟨fun _ => ⟨0, 0⟩⟩ 8 >>=
        [.append 16, .append 24, .prepend 32, .remove 32].foldlM (callOf 8)) = .ok m ∧
      mListForeachR 3 m 8 (fun m _ => .ok m) = .ok (m, [24, 16]) ∧
      ∃ m', mListForeachSafe 3 m 8 (unlinking (· = 24) fun _ _ => ⟨0, 0⟩) = .ok (m', [16, 24]) ∧
        IsList m' .next 8 [16] := by
  have hops : [ListOp.append 16, .append 24, .prepend 32, .remove 32].foldlM ListOp.apply [] =
      some [16, 24] := by decide
  obtain ⟨m, e, -, -, -, -, hback, -, hsafe⟩ := list_refines_sequence ⟨fun _ => ⟨0, 0⟩⟩
    (show (8 : Ptr) ≠ NULL by decide) (by decide) hops (show 2 < 3 by decide)
  exact ⟨m, e, hback, (hsafe (· = 24) fun _ _ => ⟨0, 0⟩).1⟩

end Ming.Analysis
