import Mathlib.Algebra.BigOperators.Group.List.Basic
import Mathlib.Algebra.Group.Action.Defs
import Mathlib.Algebra.Order.BigOperators.Group.List
import Mathlib.Algebra.Order.Ring.Nat
import Ming.Foundation.Runs
import Ming.Interface.ActorRecords

/-!
# Creation and shutdown of the actor threads

In every run in which no call of `m_thread_create` is under way when the flag is set, however the
threads interleave, the shutdown finds what it needs: every record on the list is allocated and
belongs to a thread that was not joined before, and a record is freed after its thread was
joined. Calls that come later find the flag set. The flag is set before the broadcast, and a
thread tests it under the lock before it waits, so no thread misses the broadcast. From there on
every step brings the end of the shutdown nearer, and at the end no record and no thread is left.
-/

set_option autoImplicit false

namespace Ming.Analysis

open Ming.Foundation Ming.Model Ming.Interface

variable {s s' : ActorState} {op : ActorOp} {L L' : List ℕ} {t : Tid} {p node nnode : ℕ}

/-! ## What is left to do -/

/-- The actions that are left to a woken thread and to the thread that joins it. -/
def threadWork : ActorPlace → ℕ
  | .ready | .waiting _ => 3
  | .ended => 2
  | .joined => 1
  | .absent => 0

/-- The actions that are left for the record at `p`. -/
def recordWork (s : ActorState) (p : ℕ) : ℕ := (s.thread p).elim 0 fun t => threadWork (s.place t)

/-- The sections that the threads of a list still have before them. -/
def workLeft (s : ActorState) (L : List ℕ) : ℕ := (L.map (recordWork s)).sum

/-- INTERNAL: a thread has at most three sections before it. -/
theorem threadWork_le (q : ActorPlace) : threadWork q ≤ 3 := by
  cases q <;> simp [threadWork]

/-- INTERNAL: three sections for each thread are enough. -/
theorem workLeft_le (s : ActorState) (L : List ℕ) : workLeft s L ≤ 3 * L.length := by
  have hle : ∀ n ∈ L.map (recordWork s), n ≤ 3 := by
    intro n hn
    obtain ⟨p, -, rfl⟩ := List.mem_map.mp hn
    rw [recordWork]
    cases s.thread p with
    | none => exact Nat.zero_le _
    | some t => exact threadWork_le _
  have hsum := List.sum_le_card_nsmul _ 3 hle
  rw [List.length_map, smul_eq_mul, mul_comm] at hsum
  exact hsum

/-- INTERNAL: a record whose work changes. -/
theorem sum_map_change {f g : ℕ → ℕ} (hL : L.Nodup) (hp : p ∈ L)
    (h : ∀ r, r ≠ p → f r = g r) : (L.map f).sum + g p = (L.map g).sum + f p := by
  have herase : (L.erase p).map f = (L.erase p).map g := by
    apply List.map_congr_left
    intro r hr
    exact h r (hL.mem_erase_iff.mp hr).1
  rw [← List.sum_map_erase f hp, ← List.sum_map_erase g hp, herase]
  omega

/-- INTERNAL: a thread that goes on changes the work of its own record. -/
theorem workLeft_goto (h : ActorInv s L) (hp : s.thread p = some t) (hL : p ∈ L)
    (q : ActorPlace) :
    workLeft (s.goto t q) L + threadWork (s.place t) = workLeft s L + threadWork q := by
  have hself : ∀ s' : ActorState, s'.thread = s.thread →
      recordWork s' p = threadWork (s'.place t) := by
    intro s' hs'
    rw [recordWork, hs', hp]
    rfl
  have hchange := sum_map_change h.chain.nodup hL (f := recordWork (s.goto t q))
    (g := recordWork s) fun r hr => by
      rw [recordWork, recordWork, show (s.goto t q).thread r = s.thread r from rfl]
      cases hu : s.thread r with
      | none => rfl
      | some u =>
        have hut : u ≠ t := by
          rintro rfl
          exact hr (h.inj r p u hu hp)
        exact congrArg threadWork (Function.update_of_ne hut _ _)
  rw [hself s rfl, hself (s.goto t q) rfl,
    show (s.goto t q).place t = q from Function.update_self ..] at hchange
  exact hchange

/-! ## Steps -/

/-- The calls of `m_thread_create`. -/
def creations (ops : List ActorOp) : ℕ := ops.count .create

/-- The steps that are not the beginning of such a call. -/
def otherSteps (ops : List ActorOp) : ℕ := ops.countP fun op => decide (op ≠ .create)

/-- The records, with the one of a call that is under way. -/
def recordCount (s : ActorState) (L : List ℕ) : ℕ :=
  L.length + if s.creator = .outside then 0 else 1

/-- A step keeps the invariant, and from the broadcast on it leaves less to do, unless it is a
call of `m_thread_create`. -/
structure ActorAdvance (s : ActorState) (op : ActorOp) (s' : ActorState) (L L' : List ℕ) :
    Prop where
  inv : ActorInv s' L'
  count : recordCount s' L' ≤ recordCount s L + creations [op]
  past : MainPlace.Past s.main →
    MainPlace.Past s'.main ∧ otherSteps [op] + workLeft s' L' ≤ workLeft s L

/-- INTERNAL: the shutdown begins when no call is under way. -/
theorem recordCount_past (h : ActorInv s L) (hp : MainPlace.Past s.main) :
    recordCount s L = L.length := by
  rw [recordCount, h.alone (past_stopped hp), if_pos rfl]
  rfl

/-- INTERNAL: while a call is under way the broadcast is still to come. -/
theorem not_past (h : ActorInv s L) (hc : s.creator ≠ .outside) : ¬ MainPlace.Past s.main :=
  fun hp => hc (h.alone (past_stopped hp))

/-- INTERNAL: **a section of `thread_entry`**.
SOURCE: m_thread.c:112-123 -/
theorem threadEntry_advance (h : ActorInv s L) (ht : s.place t = .ready ∨ s.place t = .waiting true)
    (op : ActorOp) : ActorAdvance s op (s.threadEntry t) L L := by
  have hpresent : ActorPlace.Present (s.place t) := by
    rcases ht with ht | ht <;> rw [ht] <;> exact ⟨by simp, by simp⟩
  have hsame : (s.threadEntry t).main = s.main ∧ (s.threadEntry t).creator = s.creator := by
    rw [ActorState.threadEntry]
    split <;> exact ⟨rfl, rfl⟩
  refine ⟨h.threadEntry hpresent, ?_, fun hp => ⟨by rwa [hsame.1], ?_⟩⟩
  · rw [recordCount, hsame.2]
    exact Nat.le_add_right _ _
  · obtain ⟨p, hp'⟩ := h.owned t hpresent
    have hL : p ∈ L := by
      refine ((h.records p).mp (by rw [hp']; simp)).resolve_right fun e => ?_
      exact not_past h (by rw [e]; simp) hp
    have hone : otherSteps [op] ≤ 1 := List.countP_le_length
    have hwork := workLeft_goto h hp' hL .ended
    have h3 : threadWork (s.place t) = 3 := by
      rcases ht with ht | ht <;> rw [ht] <;> rfl
    rw [ActorState.threadEntry, if_pos (h.flag.mpr (past_stopped hp))]
    rw [h3] at hwork
    have h2 : threadWork .ended = 2 := rfl
    omega

/-- INTERNAL: **a call of `m_thread_create`** begins, or returns at once.
SOURCE: m_thread.c:303-304 -/
theorem create_advance (h : ActorInv s L) (hc : s.creator = .outside) :
    ActorAdvance s .create s.mThreadCreate L L := by
  refine ⟨h.enter hc, ?_, fun hp => ?_⟩
  · rw [recordCount, recordCount, if_pos hc]
    refine Nat.add_le_add_left ?_ L.length
    split
    · exact Nat.zero_le _
    · exact le_rfl
  · rw [ActorState.mThreadCreate, if_pos (h.flag.mpr (past_stopped hp))]
    exact ⟨hp, Nat.le_of_eq (Nat.zero_add _)⟩

/-- INTERNAL: **the call** up to its push.
SOURCE: m_thread.c:306-315 -/
theorem start_advance (h : ActorInv s L) {buf : Option ℕ} {u : Option Tid}
    (hc : s.creator = .entered) (hbuf : ∀ node, buf = some node → node ≠ 0 ∧ s.thread node = none)
    (hu : ∀ t, u = some t → s.place t = .absent) :
    ActorAdvance s (.start buf u) (s.startThread buf u) L L := by
  have hnot : ¬ MainPlace.Past s.main := not_past h (by rw [hc]; simp)
  have hcount : recordCount s L = L.length + 1 := by
    rw [recordCount, hc]
    rfl
  have hleave : ActorAdvance s (.start buf u) { s with creator := .outside } L L := by
    refine ⟨h.leave hc, ?_, fun hp => absurd hp hnot⟩
    rw [hcount]
    exact Nat.le_trans (Nat.le_succ _) (Nat.le_add_right _ _)
  cases buf with
  | none => exact hleave
  | some node =>
    cases u with
    | none => exact hleave
    | some t =>
      obtain ⟨hne, hnode⟩ := hbuf node rfl
      refine ⟨h.spawn hc hne hnode (hu t rfl), ?_, fun hp => absurd hp hnot⟩
      rw [hcount]
      exact le_rfl

/-- INTERNAL: **the push** of the call.
SOURCE: m_thread.c:317-318 -/
theorem push_advance (h : ActorInv s L) (hc : s.creator = .creating node)
    (hs : s.pushThread node = .ok s') : ActorAdvance s .push s' L (node :: L) := by
  obtain ⟨hrun, hinv⟩ := h.push hc
  obtain rfl := Except.ok.inj (hrun.symm.trans hs)
  refine ⟨hinv, ?_, fun hp => absurd hp (not_past h (by rw [hc]; simp))⟩
  rw [recordCount, recordCount, hc]
  exact le_rfl

/-- INTERNAL: **a thread is joined**.
SOURCE: m_thread.c:166 -/
theorem join_advance (h : ActorInv s L) (hm : s.main = .joining node nnode)
    (hready : ∀ t, s.thread node = some t → s.place t = .ended ∨ s.place t = .joined)
    (hs : s.joinThread node nnode = .ok s') : ActorAdvance s .join s' L L := by
  obtain ⟨rest, t, rfl, -, -, ht⟩ := h.record (Or.inl hm)
  obtain ⟨hpresent, hrun, hinv⟩ := h.join hm ht
  obtain rfl := Except.ok.inj (hrun.symm.trans hs)
  have hended : s.place t = .ended := (hready t ht).resolve_right hpresent.2
  have hwork := workLeft_goto h ht List.mem_cons_self .joined
  rw [hended] at hwork
  refine ⟨hinv, Nat.le_add_right _ _, fun _ => ⟨trivial, ?_⟩⟩
  · have h2 : threadWork .ended = 2 := rfl
    have h1 : threadWork .joined = 1 := rfl
    have hone : otherSteps [.join] = 1 := rfl
    have hsame : workLeft { s.goto t .joined with main := .freeing node nnode } (node :: rest) =
        workLeft (s.goto t .joined) (node :: rest) := rfl
    omega

/-- INTERNAL: **the record of a joined thread is freed**.
SOURCE: m_thread.c:165-167 -/
theorem free_advance (h : ActorInv s L) (hm : s.main = .freeing node nnode)
    (hs : s.freeThread node nnode = .ok s') : ∃ L', ActorAdvance s .free s' L L' := by
  obtain ⟨rest, m, rfl, hrun, hpast, hnf, hinv⟩ := h.free hm
  obtain rfl := Except.ok.inj (hrun.symm.trans hs)
  obtain ⟨rest', t, e, -, hnot, ht⟩ := h.record (Or.inr hm)
  obtain rfl := (List.cons.inj e).2
  obtain ⟨t', ht', hjoined⟩ := h.freeing node nnode hm
  have hwork : workLeft s (node :: rest) = 1 + workLeft s rest := by
    rw [workLeft, List.map_cons, List.sum_cons, recordWork, ht']
    exact congrArg (fun q => threadWork q + workLeft s rest) hjoined
  have hrest : workLeft { s with thread := Function.update s.thread node none, main := m } rest =
      workLeft s rest := by
    apply congrArg List.sum
    apply List.map_congr_left
    intro r hr
    have hne : r ≠ node := fun e => hnot (e ▸ hr)
    rw [recordWork, recordWork]
    exact congrArg (fun u : Option Tid => u.elim 0 fun t => threadWork (s.place t))
      (Function.update_of_ne hne _ _)
  refine ⟨rest, hinv, ?_, fun _ => ⟨hpast, ?_⟩⟩
  · rw [recordCount_past hinv hpast, recordCount_past h (by rw [hm]; trivial), List.length_cons]
    omega
  · rw [hrest, hwork]
    exact le_rfl

/-- The flag is set when no call of `m_thread_create` is under way. -/
def StopsAlone (s : ActorState) (op : ActorOp) : Prop := op = .shutdown → s.creator = .outside

/-- INTERNAL: **every step keeps the invariant**. -/
theorem actorStep_advance (h : ActorInv s L) (ha : StopsAlone s op) (hs : ActorStep s op s') :
    ∃ L', ActorAdvance s op s' L L' := by
  cases hs with
  | create hc => exact ⟨L, create_advance h hc⟩
  | start hc hbuf hu => exact ⟨L, start_advance h hc hbuf hu⟩
  | push hc hs => exact ⟨_, push_advance h hc hs⟩
  | lock ht => exact ⟨L, threadEntry_advance h (Or.inl ht) _⟩
  | wake ht =>
    refine ⟨L, h.goto (by rw [ht]; exact ⟨by simp, by simp⟩) ⟨by simp, by simp⟩ (by simp)
      fun _ => by simp, Nat.le_add_right _ _, fun hp => absurd ht (h.awake hp _)⟩
  | again ht => exact ⟨L, threadEntry_advance h (Or.inr ht) _⟩
  | shutdown hm =>
    refine ⟨L, h.shutdown hm (ha rfl), Nat.le_add_right _ _, fun hp => ?_⟩
    rw [hm] at hp
    exact absurd hp id
  | broadcast hm hs =>
    obtain ⟨m, hrun, hpast, -, hinv⟩ := h.broadcast hm
    obtain rfl := Except.ok.inj (hrun.symm.trans hs)
    refine ⟨L, hinv, Nat.le_add_right _ _, fun hp => ?_⟩
    rw [hm] at hp
    exact absurd hp id
  | join hm hready hs => exact ⟨L, join_advance h hm hready hs⟩
  | free hm hs => exact free_advance h hm hs

/-! ## Runs -/

/-- The runs from `m_thread_startup`. -/
def ActorRun : List ActorOp → (ℕ → ActorState) → Prop :=
  Run (fun s => ∃ next, s = ActorState.startup next) ActorStep

variable {ops : List ActorOp} {r : ℕ → ActorState}

/-- No call of `m_thread_create` is under way when the flag is set: calls end before
`m_thread_shutdown` is called, or begin after it has set the flag. -/
def RunStopsAlone (ops : List ActorOp) (r : ℕ → ActorState) : Prop :=
  ∀ i (hi : i < ops.length), StopsAlone (r i) ops[i]

/-- INTERNAL: the state that `m_thread_startup` leaves. -/
theorem actorInv_startup (next : ℕ → ℕ) : ActorInv (ActorState.startup next) [] := by
  refine ⟨rfl, ?_, ?_, ?_, ?_, ?_, ?_, ?_, ?_, ?_, ?_, ?_⟩ <;>
    simp [ActorState.startup, ActorPlace.Present, MainPlace.Stopped, MainPlace.Past]

/-- INTERNAL: **the invariant holds in every state of a run.** -/
theorem actorInv_run (h : ActorRun ops r) (ha : RunStopsAlone ops r) (n : ℕ)
    (hn : n ≤ ops.length) :
    ∃ L, ActorInv (r n) L ∧ recordCount (r n) L ≤ creations (ops.take n) := by
  refine Run.inv_of (fun l s => ∃ L, ActorInv s L ∧ recordCount s L ≤ creations l)
    (fun _ s op => StopsAlone s op) ?_ ?_ h n hn fun i hi _ => ha i hi
  · rintro _ ⟨next, rfl⟩
    exact ⟨[], actorInv_startup next, le_rfl⟩
  · rintro l s op s' ⟨L, hinv, hcount⟩ hs hop
    obtain ⟨L', hinv', hcount', -⟩ := actorStep_advance hinv hop hs
    refine ⟨L', hinv', ?_⟩
    rw [creations, List.count_append]
    exact hcount'.trans (Nat.add_le_add_right hcount _)

/-- Two threads are created; the second one waits when the flag is set, and the first one has not
tested it yet. Calls of `m_thread_create` during the shutdown return at once. -/
def shutdownOps : List ActorOp :=
  [.create, .start (some 8) (some 1), .push, .create, .start (some 24) (some 2), .push, .lock 2,
    .shutdown, .create, .broadcast, .lock 1, .again 2, .join, .free, .create, .join, .free]

/-- INTERNAL: the run of these operations. -/
theorem actorRun_two : ∃ r : ℕ → ActorState, ActorRun shutdownOps r ∧
    RunStopsAlone shutdownOps r ∧ (r 10).main = .joining 24 8 ∧ (r 17).main = .done := by
  let l₀ : MSListMem Unit := ⟨fun _ => 0, id⟩
  let l₃ := pushed l₀ ActorState.head 8
  let l₆ := pushed l₃ ActorState.head 24
  let u₀ : ℕ → Option Tid := fun _ => none
  let u₂ := Function.update u₀ 8 (some 1)
  let u₅ := Function.update u₂ 24 (some 2)
  let u₁₄ := Function.update u₅ 24 none
  let p₀ : Tid → ActorPlace := fun _ => .absent
  let p₂ := Function.update p₀ 1 .ready
  let p₅ := Function.update p₂ 2 .ready
  let p₇ := Function.update p₅ 2 (.waiting false)
  let p₁₀ : Tid → ActorPlace := fun t => (p₇ t).woken
  let p₁₁ := Function.update p₁₀ 1 .ended
  let p₁₂ := Function.update p₁₁ 2 .ended
  let p₁₃ := Function.update p₁₂ 2 .joined
  let r : ℕ → ActorState
    | 0 => ActorState.startup id
    | 1 => ⟨l₀, u₀, false, p₀, .entered, .running⟩
    | 2 => ⟨l₀, u₂, false, p₂, .creating 8, .running⟩
    | 3 => ⟨l₃, u₂, false, p₂, .outside, .running⟩
    | 4 => ⟨l₃, u₂, false, p₂, .entered, .running⟩
    | 5 => ⟨l₃, u₅, false, p₅, .creating 24, .running⟩
    | 6 => ⟨l₆, u₅, false, p₅, .outside, .running⟩
    | 7 => ⟨l₆, u₅, false, p₇, .outside, .running⟩
    | 8 | 9 => ⟨l₆, u₅, true, p₇, .outside, .stopping⟩
    | 10 => ⟨l₆, u₅, true, p₁₀, .outside, .joining 24 8⟩
    | 11 => ⟨l₆, u₅, true, p₁₁, .outside, .joining 24 8⟩
    | 12 => ⟨l₆, u₅, true, p₁₂, .outside, .joining 24 8⟩
    | 13 => ⟨l₆, u₅, true, p₁₃, .outside, .freeing 24 8⟩
    | 14 | 15 => ⟨l₆, u₁₄, true, p₁₃, .outside, .joining 8 0⟩
    | 16 => ⟨l₆, u₁₄, true, Function.update p₁₃ 1 .joined, .outside, .freeing 8 0⟩
    | _ => ⟨l₆, Function.update u₁₄ 8 none, true, Function.update p₁₃ 1 .joined, .outside, .done⟩
  have hbuf : ∀ (s : ActorState) (b : ℕ), b ≠ 0 → s.thread b = none →
      ∀ node, some b = some node → node ≠ 0 ∧ s.thread node = none := by
    rintro s b hb hs _ ⟨⟩
    exact ⟨hb, hs⟩
  have hnew : ∀ (s : ActorState) (t : Tid), s.place t = .absent →
      ∀ u, some t = some u → s.place u = .absent := by
    rintro s t ht _ ⟨⟩
    exact ht
  have hended : ∀ (s : ActorState) (node : ℕ) (t : Tid), s.thread node = some t →
      s.place t = .ended → ∀ u, s.thread node = some u →
      s.place u = .ended ∨ s.place u = .joined := by
    intro s node t ht he u hu
    obtain rfl := Option.some.inj (ht.symm.trans hu)
    exact Or.inl he
  have hrun : ActorRun shutdownOps r := by
    refine ⟨⟨id, rfl⟩, fun i hi => ?_⟩
    match i, hi with
    | 0, _ => exact .create rfl
    | 1, _ => exact .start rfl (hbuf _ 8 (by decide) rfl) (hnew _ 1 rfl)
    | 2, _ => exact .push rfl rfl
    | 3, _ => exact .create rfl
    | 4, _ => exact .start rfl (hbuf _ 24 (by decide) rfl) (hnew _ 2 rfl)
    | 5, _ => exact .push rfl rfl
    | 6, _ => exact .lock rfl
    | 7, _ => exact .shutdown rfl
    | 8, _ => exact .create rfl
    | 9, _ => exact .broadcast rfl rfl
    | 10, _ => exact .lock rfl
    | 11, _ => exact .again rfl
    | 12, _ => exact .join rfl (hended _ 24 2 rfl rfl) rfl
    | 13, _ => exact .free rfl rfl
    | 14, _ => exact .create rfl
    | 15, _ => exact .join rfl (hended _ 8 1 rfl rfl) rfl
    | 16, _ => exact .free rfl rfl
    | n + 17, hi => exact absurd hi (Nat.not_lt.mpr (Nat.le_add_left 17 n))
  have honce : ∀ i (hi : i < shutdownOps.length), shutdownOps[i] = .shutdown → i = 7 := by decide
  refine ⟨r, hrun, fun i hi e => ?_, rfl, rfl⟩
  obtain rfl := honce i hi e
  rfl

/-- The calls of the creating thread return, a record that is freed belongs to a joined thread,
a thread returns only after the flag was set, and nothing is left at the end. -/
structure ShutdownSafe (s : ActorState) : Prop where
  push : ∀ node, s.creator = .creating node → ∃ s', s.pushThread node = .ok s'
  broadcast : s.main = .stopping → ∃ s', s.broadcastActive = .ok s'
  join : ∀ node nnode, s.main = .joining node nnode → ∃ s', s.joinThread node nnode = .ok s'
  free : ∀ node nnode, s.main = .freeing node nnode →
    (∃ t, s.thread node = some t ∧ s.place t = .joined) ∧ ∃ s', s.freeThread node nnode = .ok s'
  ended : ∀ t, s.place t = .ended → s.threadExitFlag = true
  done : s.main = .done → (∀ p, s.thread p = none) ∧ ∀ t, s.place t = .absent ∨ s.place t = .joined

/-- INTERNAL: the invariant at the end of the shutdown. -/
theorem actorInv_done (h : ActorInv s L) (hm : s.main = .done) :
    (∀ p, s.thread p = none) ∧ ∀ t, s.place t = .absent ∨ s.place t = .joined := by
  have hchain := h.chain
  rw [ActorState.first, hm] at hchain
  have hnil : L = [] := by
    cases L with
    | nil => rfl
    | cons a rest => exact absurd hchain.1.symm hchain.2.1
  subst hnil
  have hnone : ∀ p, s.thread p = none := by
    intro p
    by_contra hp
    have hrecord := (h.records p).mp hp
    rw [h.alone (by rw [hm]; trivial)] at hrecord
    simp at hrecord
  refine ⟨hnone, fun t => ?_⟩
  by_contra ht
  obtain ⟨p, hp⟩ := h.owned t (not_or.mp ht)
  exact absurd (hp.symm.trans (hnone p)) (Option.some_ne_none t)

/-- **The shutdown is safe.** When no call of `m_thread_create` is under way as the flag is set,
then however the threads interleave, whether the allocation of a record and the start of a thread
succeed or not, and however often a wait ends early: the operations of `m_thread_create` and
`m_thread_shutdown` read and write allocated records only, every record is freed once, after its
thread was joined, no thread is joined twice, no thread returns before the flag was set, and
after the loop no record is allocated and every thread that was started was joined.
SOURCE: m_thread.c:112-123, 150-168, 297-319 -/
theorem shutdown_safe (h : ActorRun ops r) (ha : RunStopsAlone ops r) (n : ℕ)
    (hn : n ≤ ops.length) : ShutdownSafe (r n) := by
  obtain ⟨L, hinv, -⟩ := actorInv_run h ha n hn
  refine ⟨fun node hc => ?_, fun hm => ?_, fun node nnode hm => ?_, fun node nnode hm => ?_,
    hinv.ended, actorInv_done hinv⟩
  · exact ⟨_, (hinv.push hc).1⟩
  · obtain ⟨m, hrun, -⟩ := hinv.broadcast hm
    exact ⟨_, hrun⟩
  · obtain ⟨rest, t, -, -, -, ht⟩ := hinv.record (Or.inl hm)
    exact ⟨_, (hinv.join hm ht).2.1⟩
  · obtain ⟨rest, m, -, hrun, -⟩ := hinv.free hm
    exact ⟨hinv.freeing node nnode hm, _, hrun⟩

/-- The shutdown of two threads. -/
theorem shutdown_safe_two : ∃ r : ℕ → ActorState, ActorRun shutdownOps r ∧
    (r 17).main = .done ∧ ShutdownSafe (r 17) := by
  obtain ⟨r, h, ha, -, hdone⟩ := actorRun_two
  exact ⟨r, h, hdone, shutdown_safe h ha 17 le_rfl⟩

/-- A call that has tested the flag before it is set starts a thread that is not joined.
SOURCE: m_thread.c:150-168, 303-311 -/
theorem shutdown_overlapped : ∃ ops r, ActorRun ops r ∧ ¬ ShutdownSafe (r ops.length) := by
  let l₀ : MSListMem Unit := ⟨fun _ => 0, id⟩
  let u₀ : ℕ → Option Tid := fun _ => none
  let p₀ : Tid → ActorPlace := fun _ => .absent
  let p₃ : Tid → ActorPlace := fun t => (p₀ t).woken
  let u₄ := Function.update u₀ 8 (some 1)
  let r : ℕ → ActorState
    | 0 => ActorState.startup id
    | 1 => ⟨l₀, u₀, false, p₀, .entered, .running⟩
    | 2 => ⟨l₀, u₀, true, p₀, .entered, .stopping⟩
    | 3 => ⟨l₀, u₀, true, p₃, .entered, .done⟩
    | _ => ⟨l₀, u₄, true, Function.update p₃ 1 .ready, .creating 8, .done⟩
  have hrun : ActorRun [.create, .shutdown, .broadcast, .start (some 8) (some 1)] r := by
    refine ⟨⟨id, rfl⟩, fun i hi => ?_⟩
    match i, hi with
    | 0, _ => exact .create rfl
    | 1, _ => exact .shutdown rfl
    | 2, _ => exact .broadcast rfl rfl
    | 3, _ =>
      refine .start rfl ?_ ?_
      · rintro _ ⟨⟩
        exact ⟨by decide, rfl⟩
      · rintro _ ⟨⟩
        rfl
    | n + 4, hi => exact absurd hi (Nat.not_lt.mpr (Nat.le_add_left 4 n))
  refine ⟨_, r, hrun, fun hsafe => ?_⟩
  have hnone : u₄ 8 = none := (hsafe.done rfl).1 8
  exact absurd hnone (by decide)

/-- INTERNAL: after the broadcast some thread can go on until the shutdown is over. -/
theorem actorStep_progress (h : ActorInv s L) (hp : MainPlace.Past s.main) (hm : s.main ≠ .done) :
    ∃ op s', op ≠ .create ∧ ActorStep s op s' := by
  cases e : s.main with
  | running | stopping =>
    rw [e] at hp
    exact absurd hp id
  | joining node nnode =>
    obtain ⟨rest, t, -, -, -, ht⟩ := h.record (Or.inl e)
    obtain ⟨hpresent, hrun, -⟩ := h.join e ht
    cases hpl : s.place t with
    | absent => exact absurd hpl hpresent.1
    | joined => exact absurd hpl hpresent.2
    | ready => exact ⟨.lock t, _, by simp, .lock hpl⟩
    | waiting woken =>
      cases woken with
      | false => exact absurd hpl (h.awake hp t)
      | true => exact ⟨.again t, _, by simp, .again hpl⟩
    | ended =>
      refine ⟨.join, _, by simp, .join e (fun u hu => Or.inl ?_) hrun⟩
      obtain rfl := Option.some.inj (ht.symm.trans hu)
      exact hpl
  | freeing node nnode =>
    obtain ⟨rest, m, -, hrun, -⟩ := h.free e
    exact ⟨.free, _, by simp, .free e hrun⟩
  | done => exact absurd e hm

/-- INTERNAL: **from the broadcast on every step leaves less to do**, calls of `m_thread_create`
apart. -/
theorem actorRun_past (h : ActorRun ops r) (ha : RunStopsAlone ops r) {i : ℕ}
    (hp : MainPlace.Past (r i).main) (hL : ActorInv (r i) L) (n : ℕ) (hin : i ≤ n)
    (hn : n ≤ ops.length) : ∃ L', ActorInv (r n) L' ∧ MainPlace.Past (r n).main ∧
      otherSteps ((ops.take n).drop i) + workLeft (r n) L' ≤ workLeft (r i) L := by
  induction n, hin using Nat.le_induction with
  | base =>
    refine ⟨L, hL, hp, ?_⟩
    rw [List.drop_eq_nil_of_le (List.length_take_le i ops)]
    exact Nat.le_of_eq (Nat.zero_add _)
  | succ n hin ih =>
    have hlt : n < ops.length := hn
    obtain ⟨L', hinv, hpast, hleft⟩ := ih hlt.le
    obtain ⟨L'', hinv', -, hadvance⟩ := actorStep_advance hinv (ha n hlt) (h.step n hlt)
    obtain ⟨hpast', hless⟩ := hadvance hpast
    have hsnoc : (ops.take (n + 1)).drop i = (ops.take n).drop i ++ [ops[n]] := by
      rw [List.take_succ_eq_append_getElem hlt, List.drop_append_of_le_length]
      rwa [List.length_take, Nat.min_eq_left hlt.le]
    refine ⟨L'', hinv', hpast', ?_⟩
    rw [hsnoc, otherSteps, List.countP_append, ← otherSteps, ← otherSteps]
    omega

/-- **The shutdown ends.** After the broadcast no thread is in a wait from which it was not woken,
as long as the shutdown is not over some thread can make a step, and however the threads interleave,
there are at most three steps for every call of `m_thread_create` before the broadcast, besides
later calls, which return at the flag: the thread returns, it is joined, and its record is freed.
SOURCE: m_thread.c:112-123, 150-168, 297-319 -/
theorem shutdown_ends (h : ActorRun ops r) (ha : RunStopsAlone ops r) (i : ℕ)
    (hi : i ≤ ops.length) (hp : MainPlace.Past (r i).main) :
    (∀ t, (r i).place t ≠ .waiting false) ∧
      ((r i).main ≠ .done → ∃ op s', op ≠ .create ∧ ActorStep (r i) op s') ∧
      otherSteps (ops.drop i) ≤ 3 * creations (ops.take i) := by
  obtain ⟨L, hinv, hcount⟩ := actorInv_run h ha i hi
  refine ⟨hinv.awake hp, actorStep_progress hinv hp, ?_⟩
  obtain ⟨L', -, -, hleft⟩ := actorRun_past h ha hp hinv ops.length hi le_rfl
  rw [recordCount_past hinv hp] at hcount
  rw [List.take_length] at hleft
  have hwork := workLeft_le (r i) L
  omega

/-- The shutdown of two threads is over six steps after the broadcast, besides a call of
`m_thread_create`. -/
theorem shutdown_ends_two : ∃ r : ℕ → ActorState, ActorRun shutdownOps r ∧
    (r 10).place 2 ≠ .waiting false ∧ otherSteps (shutdownOps.drop 10) = 6 ∧
    otherSteps (shutdownOps.drop 10) ≤ 3 * creations (shutdownOps.take 10) := by
  obtain ⟨r, h, ha, hm, -⟩ := actorRun_two
  obtain ⟨hawake, -, hsteps⟩ := shutdown_ends h ha 10 (by decide) (by rw [hm]; trivial)
  exact ⟨r, h, hawake 2, by decide, hsteps⟩

end Ming.Analysis
