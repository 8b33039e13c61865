import Ming.Foundation.LinkedChain
import Ming.Interface.SListSequence
import Ming.Model.ActorThread

/-!
# The records of the actor threads

The invariant that ties the list of records to the threads: the records that are left to join
are those from the place of the loop on, every thread that was not joined has one of them, and
after the broadcast no thread sleeps. No call of `m_thread_create` is under way once the flag is
set.
-/

set_option autoImplicit false

namespace Ming.Interface

open Ming.Foundation Ming.Model

/-- The thread exists and was not joined. -/
def ActorPlace.Present (p : ActorPlace) : Prop := p ≠ .absent ∧ p ≠ .joined

/-- `m_thread_shutdown` has set the flag. -/
def MainPlace.Stopped : MainPlace → Prop
  | .running => False
  | _ => True

/-- `m_thread_shutdown` has woken the threads. -/
def MainPlace.Past : MainPlace → Prop
  | .joining _ _ | .freeing _ _ | .done => True
  | _ => False

/-- The first record that is left. -/
def ActorState.first (s : ActorState) : ℕ :=
  match s.main with
  | .joining node _ | .freeing node _ => node
  | .done => 0
  | _ => s.links.head ()

/-- The records of `L` are left, and the threads belong to them. -/
structure ActorInv (s : ActorState) (L : List ℕ) : Prop where
  chain : Chain s.links.next 0 (ActorState.first s) L
  saved : ∀ node nnode, s.main = .joining node nnode ∨ s.main = .freeing node nnode →
    node ≠ 0 ∧ s.links.next node = nnode
  records : ∀ p, s.thread p ≠ none ↔ p ∈ L ∨ s.creator = .creating p
  creating : ∀ p, s.creator = .creating p → p ≠ 0 ∧ p ∉ L
  inj : ∀ p q t, s.thread p = some t → s.thread q = some t → p = q
  present : ∀ p t, s.thread p = some t → (∀ nnode, s.main ≠ .freeing p nnode) →
    ActorPlace.Present (s.place t)
  freeing : ∀ node nnode, s.main = .freeing node nnode →
    ∃ t, s.thread node = some t ∧ s.place t = .joined
  owned : ∀ t, ActorPlace.Present (s.place t) → ∃ p, s.thread p = some t
  flag : s.threadExitFlag = true ↔ MainPlace.Stopped s.main
  alone : MainPlace.Stopped s.main → s.creator = .outside
  ended : ∀ t, s.place t = .ended → s.threadExitFlag = true
  awake : MainPlace.Past s.main → ∀ t, s.place t ≠ .waiting false

variable {s s' : ActorState} {L : List ℕ} {t : Tid} {p : ℕ}

/-! ## The actor threads -/

/-- INTERNAL: behind the barriers the flag has been set. -/
theorem past_stopped {m : MainPlace} (h : MainPlace.Past m) : MainPlace.Stopped m := by
  cases m <;> trivial

/-- INTERNAL: a thread that goes on, awake when the broadcast is over. -/
theorem ActorInv.goto (h : ActorInv s L) (ht : ActorPlace.Present (s.place t)) {q : ActorPlace}
    (hq : ActorPlace.Present q) (hended : q = .ended → s.threadExitFlag = true)
    (hawake : MainPlace.Past s.main → q ≠ .waiting false) :
    ActorInv (s.goto t q) L := by
  have hplace : ∀ u, ActorPlace.Present ((s.goto t q).place u) ↔
      ActorPlace.Present (s.place u) := by
    intro u
    by_cases hu : u = t
    · subst hu
      rw [show (s.goto u q).place u = q from Function.update_self ..]
      exact iff_of_true hq ht
    · rw [show (s.goto t q).place u = s.place u from Function.update_of_ne hu _ _]
  refine ⟨h.chain, h.saved, h.records, h.creating, h.inj, fun p u hp hf =>
    (hplace u).mpr (h.present p u hp hf), fun node nnode hm => ?_,
    fun u hu => h.owned u ((hplace u).mp hu), h.flag, h.alone, fun u he => ?_, fun hp u => ?_⟩
  · obtain ⟨u, hu, hj⟩ := h.freeing node nnode hm
    refine ⟨u, hu, (Function.update_of_ne ?_ _ _).trans hj⟩
    rintro rfl
    exact ht.2 hj
  · by_cases hu : u = t
    · subst hu
      exact hended ((Function.update_self ..).symm.trans he)
    · exact h.ended u ((Function.update_of_ne hu _ _).symm.trans he)
  · by_cases hu : u = t
    · subst hu
      rw [show (s.goto u q).place u = q from Function.update_self ..]
      exact hawake hp
    · rw [show (s.goto t q).place u = s.place u from Function.update_of_ne hu _ _]
      exact h.awake hp u

/-- INTERNAL: **a section of `thread_entry`**.
SOURCE: m_thread.c:112-123 -/
theorem ActorInv.threadEntry (h : ActorInv s L) (ht : ActorPlace.Present (s.place t)) :
    ActorInv (s.threadEntry t) L := by
  rw [ActorState.threadEntry]
  by_cases hf : s.threadExitFlag = true
  · rw [if_pos hf]
    exact h.goto ht ⟨by simp, by simp⟩ (fun _ => hf) fun _ => by simp
  · rw [if_neg hf]
    exact h.goto ht ⟨by simp, by simp⟩ (fun he => nomatch he)
      fun hp => absurd (h.flag.mpr (past_stopped hp)) hf

/-! ## Creation -/

/-- INTERNAL: before the flag is set, the main thread is running. -/
theorem not_stopped {m : MainPlace} (h : ¬ MainPlace.Stopped m) : m = .running := by
  cases m with
  | running => rfl
  | stopping | joining | freeing | done => exact absurd trivial h

/-- INTERNAL: while a call of `m_thread_create` is under way the shutdown has not begun. -/
theorem ActorInv.running (h : ActorInv s L) (hc : s.creator ≠ .outside) : s.main = .running :=
  not_stopped fun hs => hc (h.alone hs)

/-- INTERNAL: a call of `m_thread_create` begins, or returns at its test of the flag.
SOURCE: m_thread.c:303-304 -/
theorem ActorInv.enter (h : ActorInv s L) (hc : s.creator = .outside) :
    ActorInv s.mThreadCreate L := by
  rw [ActorState.mThreadCreate]
  by_cases hf : s.threadExitFlag = true
  · rw [if_pos hf]
    exact h
  · rw [if_neg hf]
    have hrecords := h.records
    simp only [hc, reduceCtorEq, or_false] at hrecords
    exact ⟨h.chain, h.saved, by simpa using hrecords, by simp, h.inj, h.present, h.freeing,
      h.owned, h.flag, fun hs => absurd (h.flag.mpr hs) hf, h.ended, h.awake⟩

/-- INTERNAL: a call of `m_thread_create` that starts no thread.
SOURCE: m_thread.c:306-315 -/
theorem ActorInv.leave (h : ActorInv s L) (hc : s.creator = .entered) :
    ActorInv { s with creator := .outside } L := by
  have hrecords := h.records
  simp only [hc, reduceCtorEq, or_false] at hrecords
  exact ⟨h.chain, h.saved, by simpa using hrecords, by simp, h.inj, h.present, h.freeing,
    h.owned, h.flag, fun _ => rfl, h.ended, h.awake⟩

/-- INTERNAL: a new thread with a record that is on no list yet.
SOURCE: m_thread.c:306-315 -/
theorem ActorInv.spawn (h : ActorInv s L) (hc : s.creator = .entered) {node : ℕ} (hne : node ≠ 0)
    (hnode : s.thread node = none) (ht : s.place t = .absent) :
    ActorInv (s.startThread (some node) (some t)) L := by
  have hm : s.main = .running := h.running (by rw [hc]; simp)
  have hnot : node ∉ L := fun hL => (h.records node).mpr (Or.inl hL) hnode
  have hcases : ∀ p u, Function.update s.thread node (some t) p = some u →
      (p = node ∧ u = t) ∨ (p ≠ node ∧ u ≠ t ∧ s.thread p = some u) := by
    intro p u hp
    by_cases hpn : p = node
    · subst hpn
      rw [Function.update_self] at hp
      exact Or.inl ⟨rfl, (Option.some.inj hp).symm⟩
    · rw [Function.update_of_ne hpn] at hp
      refine Or.inr ⟨hpn, ?_, hp⟩
      rintro rfl
      exact (h.present p u hp (by rw [hm]; simp)).1 ht
  have hchain := h.chain
  rw [ActorState.first, hm] at hchain
  have hrecords := h.records
  simp only [hc, reduceCtorEq, or_false] at hrecords
  suffices hinv : ActorInv ⟨s.links, Function.update s.thread node (some t), s.threadExitFlag,
      Function.update s.place t .ready, .creating node, .running⟩ L by
    rwa [← hm] at hinv
  refine ⟨hchain, by simp, fun p => ?_, fun p hp => ?_, fun p q u hp hq => ?_, fun p u hp _ => ?_,
    by simp, fun u hu => ?_, ?_, fun hs => absurd hs id, fun u he => ?_, fun hp => absurd hp id⟩
  · by_cases hpn : p = node
    · subst hpn
      simp
    · dsimp only
      rw [Function.update_of_ne hpn, hrecords]
      simp [Ne.symm hpn]
  · obtain rfl : node = p := CreatorPlace.creating.inj hp
    exact ⟨hne, hnot⟩
  · rcases hcases p u hp with ⟨rfl, rfl⟩ | ⟨-, hut, hp⟩
    · rcases hcases q u hq with ⟨rfl, -⟩ | ⟨-, hut, -⟩
      · rfl
      · exact absurd rfl hut
    · rcases hcases q u hq with ⟨-, rfl⟩ | ⟨-, -, hq⟩
      · exact absurd rfl hut
      · exact h.inj p q u hp hq
  · rcases hcases p u hp with ⟨rfl, rfl⟩ | ⟨-, hut, hp⟩
    · dsimp only
      rw [Function.update_self]
      exact ⟨by simp, by simp⟩
    · dsimp only
      rw [Function.update_of_ne hut]
      exact h.present p u hp (by rw [hm]; simp)
  · by_cases hut : u = t
    · subst hut
      exact ⟨node, Function.update_self ..⟩
    · dsimp only at hu
      rw [Function.update_of_ne hut] at hu
      obtain ⟨p, hp⟩ := h.owned u hu
      refine ⟨p, (Function.update_of_ne ?_ _ _).trans hp⟩
      rintro rfl
      cases hnode.symm.trans hp
  · have hflag := h.flag
    rw [hm] at hflag
    exact hflag
  · refine h.ended u ((Function.update_of_ne ?_ _ _).symm.trans he)
    rintro rfl
    cases (Function.update_self ..).symm.trans he

/-- INTERNAL: the record of a new thread is pushed on the list.
SOURCE: m_thread.c:317-318 -/
theorem ActorInv.push (h : ActorInv s L) {node : ℕ} (hc : s.creator = .creating node) :
    s.pushThread node = .ok { s with
        links := pushed s.links ActorState.head node, creator := .outside } ∧
      ActorInv { s with links := pushed s.links ActorState.head node, creator := .outside }
        (node :: L) := by
  have hm : s.main = .running := h.running (by rw [hc]; simp)
  obtain ⟨hne, hnot⟩ := h.creating node hc
  have hlive : s.live node = true :=
    Option.isSome_iff_ne_none.mpr ((h.records node).mpr (Or.inr hc))
  have hchain := h.chain
  rw [ActorState.first, hm] at hchain
  have hlists : IsSLists s.links fun _ : Unit => L := fun _ => hchain
  have hpush := hlists.push hne (fun _ => hnot) () ()
  rw [Function.update_self] at hpush
  refine ⟨?_, ?_, fun p nn hp => ?_, fun p => ?_, by simp, h.inj, h.present, ?_, h.owned, h.flag,
    fun _ => rfl, h.ended, h.awake⟩
  · rw [ActorState.pushThread, ActorState.head, slistPush_ok (access_var s.live ()) ⟨hne, hlive⟩]
    rfl
  · rw [ActorState.first, hm]
    exact hpush
  · rw [hm] at hp
    simp at hp
  · rw [h.records p, hc, List.mem_cons, CreatorPlace.creating.injEq]
    simp [or_comm, eq_comm]
  · exact h.freeing

/-! ## Shutdown -/

/-- INTERNAL: the flag is set.
SOURCE: m_thread.c:150-161 -/
theorem ActorInv.shutdown (h : ActorInv s L) (hm : s.main = .running)
    (hc : s.creator = .outside) : ActorInv s.mThreadShutdown L := by
  have hchain := h.chain
  rw [ActorState.first, hm] at hchain
  refine ⟨hchain, by simp [ActorState.mThreadShutdown], h.records, h.creating, h.inj,
    fun p t hp _ => h.present p t hp (by rw [hm]; simp), by simp [ActorState.mThreadShutdown],
    h.owned, iff_of_true rfl trivial, fun _ => hc, fun _ _ => rfl, fun hp => absurd hp id⟩

/-- INTERNAL: **the test of the loop** over the records of `L`, all of threads that are awake.
SOURCE: m_thread.c:165 -/
theorem joinTest_inv {node : ℕ} (hchain : Chain s.links.next 0 node L)
    (hrecords : ∀ p, s.thread p ≠ none ↔ p ∈ L)
    (hinj : ∀ p q t, s.thread p = some t → s.thread q = some t → p = q)
    (hpresent : ∀ p t, s.thread p = some t → ActorPlace.Present (s.place t))
    (howned : ∀ t, ActorPlace.Present (s.place t) → ∃ p, s.thread p = some t)
    (hflag : s.threadExitFlag = true) (hc : s.creator = .outside)
    (hawake : ∀ t, s.place t ≠ .waiting false) :
    ∃ m, s.joinTest node = .ok { s with main := m } ∧ MainPlace.Past m ∧
      (∀ p nnode, m ≠ .freeing p nnode) ∧ ActorInv { s with main := m } L := by
  cases L with
  | nil =>
    have hnode : node = 0 := hchain
    exact ⟨.done, if_pos hnode, trivial, by simp, rfl, by simp, by simpa [hc] using hrecords,
      by simp [hc], hinj, fun p t hp _ => hpresent p t hp, by simp, howned,
      iff_of_true hflag trivial, fun _ => hc, fun _ _ => hflag, fun _ => hawake⟩
  | cons a rest =>
    obtain ⟨rfl, hne, hlink⟩ := hchain
    have hlive : s.live node = true :=
      Option.isSome_iff_ne_none.mpr ((hrecords node).mpr List.mem_cons_self)
    refine ⟨.joining node (s.links.next node), ?_, trivial, by simp, ⟨rfl, hne, hlink⟩, ?_,
      by simpa [hc] using hrecords, by simp [hc], hinj, fun p t hp _ => hpresent p t hp, by simp,
      howned, iff_of_true hflag trivial, fun _ => hc, fun _ _ => hflag, fun _ => hawake⟩
    · have hacc : Access s.live (.addr node : MSListRef Unit) := ⟨hne, hlive⟩
      rw [ActorState.joinTest, if_neg hne, load_ok hacc]
      rfl
    · rintro p nnode (hm | hm)
      · obtain ⟨rfl, rfl⟩ := MainPlace.joining.inj hm
        exact ⟨hne, rfl⟩
      · exact nomatch hm

/-- INTERNAL: a wakeup does not change whether a thread is there. -/
theorem present_woken (p : ActorPlace) :
    ActorPlace.Present p.woken ↔ ActorPlace.Present p := by
  cases p <;> simp [ActorPlace.Present, ActorPlace.woken]

/-- INTERNAL: **the broadcast** leaves no thread asleep.
SOURCE: m_thread.c:163-165 -/
theorem ActorInv.broadcast (h : ActorInv s L) (hm : s.main = .stopping) :
    ∃ m, s.broadcastActive = .ok { s with place := fun t => (s.place t).woken, main := m } ∧
      MainPlace.Past m ∧ (∀ p nnode, m ≠ .freeing p nnode) ∧
      ActorInv { s with place := fun t => (s.place t).woken, main := m } L := by
  have hchain := h.chain
  rw [ActorState.first, hm] at hchain
  have hc : s.creator = .outside := h.alone (by rw [hm]; trivial)
  have hrecords := h.records
  simp only [hc, reduceCtorEq, or_false] at hrecords
  have hflag : s.threadExitFlag = true := h.flag.mpr (by rw [hm]; trivial)
  obtain ⟨m, e, hpast, hnot, hinv⟩ := joinTest_inv
    (s := { s with place := fun t => (s.place t).woken }) hchain hrecords h.inj
    (fun p t hp => (present_woken _).mpr (h.present p t hp (by rw [hm]; simp)))
    (fun t ht => h.owned t ((present_woken _).mp ht)) hflag hc (fun t => by
      dsimp only
      cases s.place t <;> simp [ActorPlace.woken])
  refine ⟨m, ?_, hpast, hnot, hinv⟩
  rw [ActorState.broadcastActive, ActorState.head, load_ok (access_var _ ())]
  exact e

/-- INTERNAL: the record at the body of the loop. -/
theorem ActorInv.record (h : ActorInv s L) {node nnode : ℕ}
    (hm : s.main = .joining node nnode ∨ s.main = .freeing node nnode) :
    ∃ rest t, L = node :: rest ∧ Chain s.links.next 0 nnode rest ∧ node ∉ rest ∧
      s.thread node = some t := by
  obtain ⟨hne, hnext⟩ := h.saved node nnode hm
  have hchain : Chain s.links.next 0 node L := by
    have hc := h.chain
    rcases hm with hm | hm <;> rwa [ActorState.first, hm] at hc
  have hnd := hchain.nodup
  cases L with
  | nil => exact absurd hchain hne
  | cons a rest =>
    obtain ⟨rfl, -, hlink⟩ := hchain
    obtain ⟨t, ht⟩ := Option.ne_none_iff_exists'.mp
      ((h.records node).mpr (Or.inl List.mem_cons_self))
    exact ⟨rest, t, rfl, hnext ▸ hlink, (List.nodup_cons.mp hnd).1, ht⟩

/-- INTERNAL: **a thread is joined**.
SOURCE: m_thread.c:166 -/
theorem ActorInv.join (h : ActorInv s L) {node nnode : ℕ} (hm : s.main = .joining node nnode)
    (ht : s.thread node = some t) : ActorPlace.Present (s.place t) ∧
      s.joinThread node nnode = .ok { s.goto t .joined with main := .freeing node nnode } ∧
      ActorInv { s.goto t .joined with main := .freeing node nnode } L := by
  have hpresent := h.present node t ht (by rw [hm]; simp)
  have hrun : s.joinThread node nnode =
      .ok { s.goto t .joined with main := .freeing node nnode } := by
    rw [ActorState.joinThread, ht]
    cases hp : s.place t with
    | absent => exact absurd hp hpresent.1
    | joined => exact absurd hp hpresent.2
    | ready | waiting | ended => simp [hp]
  have hchain := h.chain
  rw [ActorState.first, hm] at hchain
  have hplace : ∀ u, u ≠ t → (s.goto t .joined).place u = s.place u := fun u hu =>
    Function.update_of_ne hu _ _
  have hself : (s.goto t .joined).place t = .joined := Function.update_self ..
  have hflag : s.threadExitFlag = true := h.flag.mpr (by rw [hm]; trivial)
  refine ⟨hpresent, hrun, hchain, fun p nn hp => ?_, h.records, h.creating, h.inj,
    fun p u hp hf => ?_, fun p nn hp => ?_, fun u hu => ?_, iff_of_true hflag trivial,
    fun _ => h.alone (by rw [hm]; trivial), fun _ _ => hflag, fun _ u => ?_⟩
  · obtain ⟨rfl, rfl⟩ := MainPlace.freeing.inj (hp.resolve_left (by simp))
    exact h.saved node nnode (Or.inl hm)
  · have hne : u ≠ t := by
      rintro rfl
      obtain rfl := h.inj p node u hp ht
      exact hf nnode rfl
    dsimp only
    rw [hplace u hne]
    exact h.present p u hp (by rw [hm]; simp)
  · obtain ⟨rfl, rfl⟩ := MainPlace.freeing.inj hp
    exact ⟨t, ht, hself⟩
  · dsimp only at hu
    have hne : u ≠ t := by
      rintro rfl
      exact hu.2 hself
    rw [hplace u hne] at hu
    exact h.owned u hu
  · dsimp only
    by_cases hu : u = t
    · subst hu
      rw [hself]
      simp
    · rw [hplace u hu]
      exact h.awake (by rw [hm]; trivial) u

/-- INTERNAL: **the record of a joined thread is freed**.
SOURCE: m_thread.c:165-167 -/
theorem ActorInv.free (h : ActorInv s L) {node nnode : ℕ} (hm : s.main = .freeing node nnode) :
    ∃ rest m, L = node :: rest ∧ s.freeThread node nnode =
        .ok { s with thread := Function.update s.thread node none, main := m } ∧
      MainPlace.Past m ∧ (∀ p nn, m ≠ .freeing p nn) ∧
      ActorInv { s with thread := Function.update s.thread node none, main := m } rest := by
  obtain ⟨rest, t, rfl, hchain, hnot, ht⟩ := h.record (Or.inr hm)
  obtain ⟨t', ht', hjoined⟩ := h.freeing node nnode hm
  have hcases : ∀ p u, Function.update s.thread node none p = some u →
      p ≠ node ∧ s.thread p = some u := by
    intro p u hp
    by_cases hpn : p = node
    · subst hpn
      rw [Function.update_self] at hp
      exact nomatch hp
    · exact ⟨hpn, (Function.update_of_ne hpn _ _).symm.trans hp⟩
  have hc : s.creator = .outside := h.alone (by rw [hm]; trivial)
  have hrecords := h.records
  simp only [hc, reduceCtorEq, or_false] at hrecords
  have hflag : s.threadExitFlag = true := h.flag.mpr (by rw [hm]; trivial)
  have hleft : ∀ p, Function.update s.thread node none p ≠ none ↔ p ∈ rest := by
    intro p
    by_cases hpn : p = node
    · subst hpn
      rw [Function.update_self]
      exact iff_of_false (fun hn => hn rfl) hnot
    · rw [Function.update_of_ne hpn, hrecords, List.mem_cons, or_iff_right hpn]
  have hpresent : ∀ p u, Function.update s.thread node none p = some u →
      ActorPlace.Present (s.place u) := by
    intro p u hp
    obtain ⟨hpn, hp'⟩ := hcases p u hp
    refine h.present p u hp' fun nn hf => hpn ?_
    rw [hm] at hf
    exact (MainPlace.freeing.inj hf).1.symm
  have howned : ∀ u, ActorPlace.Present (s.place u) →
      ∃ p, Function.update s.thread node none p = some u := by
    intro u hu
    obtain ⟨p, hp⟩ := h.owned u hu
    refine ⟨p, (Function.update_of_ne ?_ _ _).trans hp⟩
    rintro rfl
    obtain rfl := Option.some.inj (hp.symm.trans ht')
    exact hu.2 hjoined
  obtain ⟨m, e, hpast, hnf, hinv⟩ := joinTest_inv
    (s := { s with thread := Function.update s.thread node none }) hchain hleft
    (fun p q u hp hq => h.inj p q u (hcases p u hp).2 (hcases q u hq).2) hpresent howned hflag
    hc (h.awake (by rw [hm]; trivial))
  refine ⟨rest, m, rfl, ?_, hpast, hnf, hinv⟩
  rw [ActorState.freeThread, ht]
  exact e

end Ming.Interface
