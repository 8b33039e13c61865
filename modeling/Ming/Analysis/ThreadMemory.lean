import Ming.Analysis.HashValueTraversal
import Ming.Analysis.ListRuns
import Ming.Analysis.ThreadRuns
import Ming.Model.ThreadMemory

/-!
# The list of the threads is a list of allocated records

The records of the threads on the list of the pause protocol hang in `m_thread_list` in the same
order, and no one frees a record before it has left the list. So every section stays within
records that are allocated, and the loop of the collector meets the new-born stacks of exactly
the registered threads.
-/

set_option autoImplicit false

namespace Ming.Analysis

open Ming.Foundation Ming.Model Ming.Interface

variable {ok : Ptr → Bool} {m : MListMem} {d : MLink} {head node p : Ptr} {l l₁ l₂ : List Ptr}

/-! ## The list functions -/

/-- INTERNAL: a link of an allocated record is loaded. -/
theorem loadIf_ok (h : ok p = true) : loadIf ok m d p = m.load d p := if_pos h

/-- INTERNAL: a link of an allocated record is stored. -/
theorem storeIf_ok (h : ok p = true) (v : Ptr) : storeIf ok m d p v = m.store d p v :=
  if_pos h

/-- INTERNAL: **`m_list_append`** accesses the node, the head and the last node.
SOURCE: m_list.h:143-152 -/
theorem threadListAppend_eq (h : IsList m .next head l) (hnode : node ≠ NULL)
    (hfresh : node ∉ head :: l) (hok : ∀ p ∈ node :: head :: l, ok p = true) :
    threadListAppend ok m head node = mListAppend m head node := by
  have hhead := h.head_ne_null
  have hprev : m.link .prev head = lastOf head l := h.ring.prev_head
  have hne : head ≠ node := fun e => hfresh (e ▸ List.mem_cons_self)
  have hlast : lastOf head l ≠ NULL := h.ne_null _ (lastOf_mem head l)
  have hprev' : ((m.setLink .prev node (lastOf head l)).setLink .next node head).link .prev head =
      lastOf head l := by simp [MListMem.link_setLink, hne, hprev]
  have hoknode : ok node = true := hok node List.mem_cons_self
  have hokhead : ok head = true := hok head (by simp)
  have hoklast : ok (lastOf head l) = true := hok _ (List.mem_cons_of_mem _ (lastOf_mem head l))
  rw [threadListAppend, mListAppend, if_neg (not_or.mpr ⟨hhead, hnode⟩),
    if_neg (not_or.mpr ⟨hhead, hnode⟩)]
  simp only [loadIf_ok hokhead, storeIf_ok hoknode, storeIf_ok hokhead, storeIf_ok hoklast,
    MListMem.load_ok hhead, MListMem.store_ok hnode, Outcome.ok_bind, hprev, hprev']

/-- INTERNAL: **`m_list_remove`** accesses the node and its neighbours.
SOURCE: m_list.h:174-179 -/
theorem threadListRemove_eq (h : IsList m .next head (l₁ ++ node :: l₂))
    (hok : ∀ p ∈ head :: (l₁ ++ node :: l₂), ok p = true) :
    threadListRemove ok m node = mListRemove m node := by
  have hprev : m.link .prev node = lastOf head l₁ := h.ring.prev_eq
  have hnext : m.link .next node = firstOf head l₂ := h.ring.next_eq
  have hmem : node ∈ head :: (l₁ ++ node :: l₂) := by simp
  have hlast : lastOf head l₁ ∈ head :: (l₁ ++ node :: l₂) := lastOf_mem_append head l₁ _
  have hfirst : firstOf head l₂ ∈ head :: (l₁ ++ node :: l₂) := by
    rw [List.append_cons]
    exact firstOf_mem_append head _ l₂
  have hnd := h.ring.nodup
  rw [← List.cons_append, List.nodup_middle, List.nodup_cons, List.cons_append] at hnd
  have hne : node ≠ lastOf head l₁ := by
    intro e
    apply hnd.1
    rw [e]
    exact lastOf_mem_append head l₁ l₂
  have hnext' : (m.setLink .next (lastOf head l₁) (firstOf head l₂)).link .next node =
      firstOf head l₂ := by simp [MListMem.link_setLink, hne, hnext]
  have hprev' : (m.setLink .next (lastOf head l₁) (firstOf head l₂)).link .prev node =
      lastOf head l₁ := by simp [MListMem.link_setLink, hprev]
  simp only [threadListRemove, mListRemove, loadIf_ok (hok node hmem),
    storeIf_ok (hok _ hlast), MListMem.load_ok (h.ne_null node hmem), hprev, hnext,
    Outcome.ok_bind, MListMem.store_ok (h.ne_null _ hlast), hnext', hprev',
    storeIf_ok (hok _ hfirst)]

/-! ## The loop of the collector -/

variable {x x' : ThreadMemory} {th : Ptr → MThread} {D : GCConfig} {fuel : ℕ}

/-- INTERNAL: the head can be accessed. -/
theorem reach_head : ThreadMemory.reach x.live head head = true := by
  simp [ThreadMemory.reach]

/-- INTERNAL: an allocated record can be accessed. -/
theorem reach_live {live : Ptr → Bool} (h : live p = true) :
    ThreadMemory.reach live head p = true := by
  simp [ThreadMemory.reach, h]

/-- INTERNAL: the new-born stacks of records that are allocated.
SOURCE: m_gc_obj.c:238-253 -/
theorem markRecords_live (h : ∀ p ∈ l, x.live p = true) (s : GCState) :
    l.foldlM (fun s val => if x.live val then gcMarkNbStack D s (th val) else .error .unmapped) s =
      (l.map th).foldlM (gcMarkNbStack D) s := by
  induction l generalizing s with
  | nil => rfl
  | cons p l ih =>
    rw [List.foldlM_cons, List.map_cons, List.foldlM_cons, if_pos (h p List.mem_cons_self)]
    exact bind_congr fun s' => ih (fun q hq => h q (List.mem_cons_of_mem p hq)) s'

/-- INTERNAL: **`gc_mark_nb_stacks`** over a list of allocated records.
SOURCE: m_gc_obj.c:232-255; m_list.h:78-81 -/
theorem markThreadList_spec (h : IsList x.list .next head l) (hlive : ∀ p ∈ l, x.live p = true)
    (hf : l.length < fuel) (s : GCState) :
    x.gcMarkThreadList head th D fuel s = (l.map th).foldlM (gcMarkNbStack D) s := by
  have hlink : ∀ done p rest, l = done ++ p :: rest → (do
      let next ← loadIf (ThreadMemory.reach x.live head) x.list .next (memberOf 0 p)
      pure (mNodeValue 0 next)) = (.ok (rest.headD head) : Outcome Ptr) := by
    rintro done p rest rfl
    have hp : p ∈ done ++ p :: rest := by simp
    have hself : memberOf 0 p = p := BitVec.add_zero p
    rw [hself, loadIf_ok (reach_live (hlive p hp)),
      MListMem.load_ok (h.ne_null p (List.mem_cons_of_mem _ hp)), h.ring.next_eq, Outcome.ok_bind,
      nodeValue_zero]
    rfl
  have hloop : forLoop (fun (_ : Unit) val => .ok (if val = head then none else some val))
      (fun t _ => .ok t) (fun _ p => do
        let next ← loadIf (ThreadMemory.reach x.live head) x.list .next (memberOf 0 p)
        pure (mNodeValue 0 next)) fuel () (l.headD head) = .ok ((), l) :=
    forLoop_links (fun p hp => h.ring.ne_head hp) hlink hf
  rw [ThreadMemory.gcMarkThreadList, loadIf_ok reach_head, MListMem.load_ok h.head_ne_null,
    h.ring.next_head, Outcome.ok_bind, nodeValue_zero, nodeValue_zero]
  refine (forLoop_eq_foldlM (fun _ _ _ e => (Except.ok.inj e).symm) hloop _ s).trans ?_
  exact markRecords_live hlive s

/-! ## One section -/

variable {limit : ℕ} {s s' : ThreadState} {op : ThreadOp} {t u : Tid} {answer : Ptr}

/-- The list stays, and no record appears. -/
structure ListKept (s s' : ThreadState) : Prop where
  list : s'.threadList = s.threadList
  record : ∀ u, s'.record u ≠ none → s.record u ≠ none

/-- The sections that change the list or free a record. -/
def ChangesList (s : ThreadState) : ThreadOp → Prop
  | .register _ | .freeRecord _ => True
  | .exit t => s.record t ≠ none
  | _ => False

/-- INTERNAL: a store to the record of a thread that has one. -/
theorem listKept_setRecord (ht : s.record t ≠ none) (hlist : s'.threadList = s.threadList)
    (hr : ∀ u, u ≠ t → s'.record u = s.record u) : ListKept s s' := by
  refine ⟨hlist, fun u hu => ?_⟩
  by_cases hut : u = t
  · exact hut ▸ ht
  · rwa [hr u hut] at hu

/-- INTERNAL: a thread that has entered has a record. -/
theorem record_of_entered_ne (hI : PauseInv s) (hp : s.place t = .entered) :
    s.record t ≠ none := by
  obtain ⟨th, hr, -⟩ := record_of_entered hI hp
  rw [hr]
  exact Option.some_ne_none th

/-- INTERNAL: a thread with a flag has a record. -/
theorem record_of_flag_ne {b : Bool} (hf : pausedFlag s t = some b) : s.record t ≠ none := by
  obtain ⟨th, hr, -⟩ := record_of_pausedFlag hf
  rw [hr]
  exact Option.some_ne_none th

/-- INTERNAL: **the other sections keep the list.** -/
theorem listKept_of_section (hI : PauseInv s) (h : Section limit s op s')
    (hop : ¬ ChangesList s op) : ListKept s s' := by
  cases h with
  | move _ _ | stay _ _ => exact ⟨rfl, fun _ hu => hu⟩
  | @signal _ w _ _ => cases w <;> exact ⟨rfl, fun _ hu => hu⟩
  | grow _ _ hf =>
    exact listKept_setRecord (record_of_flag_ne hf) rfl fun _ hu => Function.update_of_ne hu ..
  | leave _ hp _ =>
    exact listKept_setRecord (record_of_entered_ne hI hp) rfl fun _ hu =>
      Function.update_of_ne hu ..
  | @check _ th w hp _ _ _ =>
    cases w <;> exact listKept_setRecord (record_of_entered_ne hI hp) rfl fun _ hu =>
      Function.update_of_ne hu ..
  | pauseAll _ hp _ _ =>
    unfold ThreadState.pauseAllLoop
    split
    · exact listKept_setRecord (record_of_entered_ne hI hp) rfl fun _ hu =>
        Function.update_of_ne hu ..
    · exact listKept_setRecord (record_of_entered_ne hI hp) rfl fun _ hu =>
        Function.update_of_ne hu ..
  | resume _ _ hf _ _ =>
    exact listKept_setRecord (record_of_flag_ne hf) rfl fun _ hu => Function.update_of_ne hu ..
  | @finish t _ hp _ =>
    have hok := hI.placeOk hp
    exact listKept_setRecord (record_of_flag_ne hok.2) rfl fun _ hu =>
      Function.update_of_ne hu ..
  | register _ | freeRecord _ => exact absurd trivial hop
  | exit _ hf => exact absurd (record_of_flag_ne hf) hop
  | @freeStack t _ =>
    refine ⟨rfl, fun u hu hnone => hu ?_⟩
    change Function.update s.record t _ u = none
    by_cases hut : u = t
    · subst hut
      rw [Function.update_self, hnone]
      rfl
    · exact (Function.update_of_ne hut ..).trans hnone

/-- INTERNAL: the steps that change the list or free a record. -/
theorem changesList_cases (h : ThreadStep limit s op s') (hop : ChangesList s op) :
    (∃ t, op = .register t ∧ s.place t = .register ∧ s' = s.threadRegister t) ∨
    (∃ t, op = .exit t ∧ s.record t ≠ none ∧
      (s.place t = .outside ∨ s.place t = .entered ∨ s.place t = .left) ∧
      s' = s.threadKeyDestructor t) ∨
    ∃ t, op = .freeRecord t ∧ s.place t = .freeRecord ∧ s' = s.freeThread t := by
  cases h with
  | register hp => exact Or.inl ⟨_, rfl, hp, rfl⟩
  | exit hp => exact Or.inr (Or.inl ⟨_, rfl, hop, hp, rfl⟩)
  | freeRecord hp => exact Or.inr (Or.inr ⟨_, rfl, hp, rfl⟩)
  | create _ _ | enter _ _ | leave _ _ | signal _ _ | check _ _ _ | alloc _ _ _ | run _ _ _
  | wakeEnter _ | wakeCheck _ | wakePause _ | enterAgain _ _ | checkAgain _ _ | pauseAgain _
  | finish _ _ | freeStack _ => exact False.elim hop

/-- The listed records hang in the list in memory, every record is allocated, and no two threads
have the same. -/
structure ThreadMemInv (head : Ptr) (x : ThreadMemory) : Prop where
  pause : PauseInv x.state
  ring : IsList x.list .next head (x.state.threadList.map x.self)
  live : ∀ u, x.state.record u ≠ none → x.live (x.self u) = true ∧ x.self u ≠ head
  inj : ∀ u v, x.state.record u ≠ none → x.state.record v ≠ none → x.self u = x.self v → u = v

/-- INTERNAL: a listed thread has a record. -/
theorem record_of_listed (hI : PauseInv s) (hu : u ∈ s.threadList) : s.record u ≠ none := by
  have hok := hI.place u
  intro hr
  rw [pausedFlag_eq_none.mpr hr] at hok
  cases hp : s.place u <;> rw [hp] at hok <;> simp_all [PlaceOk]

/-- INTERNAL: the records of the listed threads are allocated. -/
theorem ThreadMemInv.listed_live (h : ThreadMemInv head x) :
    ∀ p ∈ x.state.threadList.map x.self, x.live p = true := by
  intro p hp
  obtain ⟨u, hu, rfl⟩ := List.mem_map.mp hp
  exact (h.live u (record_of_listed h.pause hu)).1

/-- INTERNAL: a thread is registered.
SOURCE: m_thread.c:80-110 -/
theorem ThreadMemInv.register (h : ThreadMemInv head x) (hp : x.state.place t = .register)
    (hnull : answer ≠ NULL) (hhead : answer ≠ head) (hfresh : x.live answer = false)
    (hI : PauseInv (x.state.threadRegister t)) :
    ∃ x', x.register head t answer (x.state.threadRegister t) = .ok x' ∧
      x'.state = x.state.threadRegister t ∧ ThreadMemInv head x' := by
  obtain ⟨hunlisted, hflag⟩ := h.pause.placeOk hp
  have hrecord := pausedFlag_eq_none.mp hflag
  have hlisted := h.listed_live
  have hold : ∀ p, x.live p = true → p ≠ answer := by
    rintro p hlive rfl
    rw [hfresh] at hlive
    exact Bool.false_ne_true hlive
  have hsame : ∀ p, x.live p = true → Function.update x.live answer true p = true := fun p hlive =>
    (Function.update_of_ne (hold p hlive) ..).trans hlive
  have hout : answer ∉ head :: x.state.threadList.map x.self := by
    intro hm
    rcases List.mem_cons.mp hm with e | hm
    · exact hhead e
    · exact hold answer (hlisted answer hm) rfl
  have hok : ∀ p ∈ answer :: head :: x.state.threadList.map x.self,
      ThreadMemory.reach (Function.update x.live answer true) head p = true := by
    intro p hp
    rcases List.mem_cons.mp hp with rfl | hp
    · exact reach_live (Function.update_self ..)
    · rcases List.mem_cons.mp hp with rfl | hp
      · simp [ThreadMemory.reach]
      · exact reach_live (hsame p (hlisted p hp))
  obtain ⟨list, e, hring⟩ := mListAppend_spec h.ring hnull hout
  have hself : ∀ u, u ≠ t → Function.update x.self t answer u = x.self u :=
    fun u hu => Function.update_of_ne hu ..
  have hother : ∀ u, u ≠ t → (x.state.threadRegister t).record u ≠ none →
      x.state.record u ≠ none := fun u hu hr hnone => hr ((Function.update_of_ne hu ..).trans hnone)
  have hregister : x.register head t answer (x.state.threadRegister t) =
      .ok ⟨x.state.threadRegister t, list, Function.update x.self t answer,
        Function.update x.live answer true⟩ := by
    rw [ThreadMemory.register, if_neg hnull]
    dsimp only
    rw [threadListAppend_eq h.ring hnull hout hok, e]
    rfl
  refine ⟨_, hregister, rfl, hI, ?_, fun u hu => ?_, fun u v hu hv huv => ?_⟩
  · have hmap : (x.state.threadRegister t).threadList.map (Function.update x.self t answer) =
        x.state.threadList.map x.self ++ [answer] := by
      change (x.state.threadList ++ [t]).map _ = _
      rw [List.map_append, List.map_singleton, Function.update_self]
      refine congrArg (· ++ [answer]) (List.map_congr_left fun u hu => hself u ?_)
      rintro rfl
      exact hunlisted hu
    exact hmap ▸ hring
  · by_cases hut : u = t
    · subst hut
      dsimp only
      rw [Function.update_self]
      exact ⟨Function.update_self .., hhead⟩
    · obtain ⟨hlive, hne⟩ := h.live u (hother u hut hu)
      dsimp only
      rw [hself u hut]
      exact ⟨hsame _ hlive, hne⟩
  · dsimp only at huv
    by_cases hut : u = t
    · by_cases hvt : v = t
      · exact hut.trans hvt.symm
      · rw [hut, Function.update_self, hself v hvt] at huv
        exact absurd huv.symm (hold _ (h.live v (hother v hvt hv)).1)
    · by_cases hvt : v = t
      · rw [hvt, Function.update_self, hself u hut] at huv
        exact absurd huv (hold _ (h.live u (hother u hut hu)).1)
      · rw [hself u hut, hself v hvt] at huv
        exact h.inj u v (hother u hut hu) (hother v hvt hv) huv

/-- INTERNAL: a registered thread exits.
SOURCE: m_thread.c:50-68 -/
theorem ThreadMemInv.exit (h : ThreadMemInv head x) (hr : x.state.record t ≠ none)
    (ht : t ∈ x.state.threadList) (hI : PauseInv (x.state.threadKeyDestructor t)) :
    ∃ x', x.exit head t (x.state.threadKeyDestructor t) = .ok x' ∧
      x'.state = x.state.threadKeyDestructor t ∧ ThreadMemInv head x' := by
  obtain ⟨th, hth⟩ := Option.ne_none_iff_exists'.mp hr
  obtain ⟨l₁, l₂, -, hl, herase⟩ := List.exists_erase_eq ht
  have hring := h.ring
  rw [hl, List.map_append, List.map_cons] at hring
  have hok : ∀ p ∈ head :: (l₁.map x.self ++ x.self t :: l₂.map x.self),
      ThreadMemory.reach x.live head p = true := by
    intro p hp
    rcases List.mem_cons.mp hp with rfl | hp
    · exact reach_head
    · refine reach_live (h.listed_live p ?_)
      rw [hl, List.map_append, List.map_cons]
      exact hp
  obtain ⟨list, e, hring'⟩ := mListRemove_spec hring
  have hrecord : (x.state.threadKeyDestructor t).record = x.state.record := by
    rw [threadKeyDestructor_eq hth]
    rfl
  have hlist : (x.state.threadKeyDestructor t).threadList = l₁ ++ l₂ := by
    rw [threadKeyDestructor_eq hth]
    exact herase
  refine ⟨_, by rw [ThreadMemory.exit, if_neg hr, threadListRemove_eq hring hok, e,
    Outcome.ok_bind, Outcome.pure_eq_ok], rfl, hI, ?_, ?_, ?_⟩
  · dsimp only
    rw [hlist, List.map_append]
    exact hring'
  · dsimp only
    rw [hrecord]
    exact h.live
  · dsimp only
    rw [hrecord]
    exact h.inj

/-- INTERNAL: a record is freed, after it has left the list.
SOURCE: m_thread.c:75 -/
theorem ThreadMemInv.freeRecord (h : ThreadMemInv head x) (hp : x.state.place t = .freeRecord)
    (hI : PauseInv (x.state.freeThread t)) :
    ∃ x', x.freeRecord t (x.state.freeThread t) = .ok x' ∧ x'.state = x.state.freeThread t ∧
      ThreadMemInv head x' := by
  obtain ⟨-, hflag⟩ := h.pause.placeOk hp
  have hr : x.state.record t ≠ none := fun hr => hflag (pausedFlag_eq_none.mpr hr)
  have hleft : ∀ u, (x.state.freeThread t).record u ≠ none → u ≠ t ∧ x.state.record u ≠ none := by
    intro u hu
    have hut : u ≠ t := by
      rintro rfl
      exact hu (Function.update_self ..)
    exact ⟨hut, fun hnone => hu ((Function.update_of_ne hut ..).trans hnone)⟩
  refine ⟨_, if_pos (h.live t hr).1, rfl, hI, h.ring, fun u hu => ?_, fun u v hu hv huv => ?_⟩
  · obtain ⟨hut, hru⟩ := hleft u hu
    obtain ⟨hlive, hne⟩ := h.live u hru
    have hself : x.self u ≠ x.self t := fun e => hut (h.inj u t hru hr e)
    exact ⟨(Function.update_of_ne hself ..).trans hlive, hne⟩
  · exact h.inj u v (hleft u hu).2 (hleft v hv).2 huv

/-- INTERNAL: the other sections do nothing to the list. -/
theorem exec_kept (hop : ¬ ChangesList x.state op) :
    x.exec head answer s' op = .ok { x with state := s' } := by
  cases op with
  | exit t => exact if_pos (not_not.mp hop)
  | register _ | freeRecord _ => exact absurd trivial hop
  | create _ | enter _ | leave _ | signal _ _ | check _ _ | alloc _ _ _ _ _ | run _ _ | wake _
  | enterAgain _ | checkAgain _ | pauseAgain _ | finish _ | freeStack _ => rfl

/-- INTERNAL: **a section stays within records that are allocated** and keeps the invariant. -/
theorem ThreadMemInv.exec (h : ThreadMemInv head x) (hs : ThreadStep limit x.state op s')
    (hnull : answer ≠ NULL) (hhead : answer ≠ head) (hfresh : x.live answer = false) :
    ∃ x', x.exec head answer s' op = .ok x' ∧ x'.state = s' ∧ ThreadMemInv head x' := by
  have hsection := section_of_step h.pause hs
  have hI := pauseInv_section h.pause hsection
  by_cases hop : ChangesList x.state op
  · rcases changesList_cases hs hop with
      ⟨t, rfl, hp, rfl⟩ | ⟨t, rfl, hr, hp, rfl⟩ | ⟨t, rfl, hp, rfl⟩
    · exact h.register hp hnull hhead hfresh hI
    · refine h.exit hr ?_ hI
      rcases hp with hp | hp | hp
      · exact absurd (pausedFlag_eq_none.mp (h.pause.placeOk hp).2) hr
      · exact (h.pause.placeOk hp).1
      · exact (h.pause.placeOk hp).1
    · exact h.freeRecord hp hI
  · obtain ⟨hlist, hrecord⟩ := listKept_of_section h.pause hsection hop
    refine ⟨{ x with state := s' }, exec_kept hop, rfl, hI, ?_, fun u hu => h.live u (hrecord u hu),
      fun u v hu hv => h.inj u v (hrecord u hu) (hrecord v hv)⟩
    dsimp only
    rw [hlist]
    exact h.ring

/-! ## Runs -/

/-- A step of the system: a section, with the address that `malloc` returns when it allocates,
or a store to memory that is not a record of the list. -/
inductive ThreadMemOp where
  | thread (op : ThreadOp) (answer : Ptr)
  | write (list : MListMem)

/-- The step of a section that returns, and a store that leaves the head and the listed records
alone. -/
inductive ThreadMemStep (limit : ℕ) (head : Ptr) : ThreadMemory → ThreadMemOp → ThreadMemory → Prop
  | thread {x x' : ThreadMemory} {op : ThreadOp} {answer : Ptr} {s' : ThreadState} :
      ThreadStep limit x.state op s' → answer ≠ NULL → answer ≠ head → x.live answer = false →
      x.exec head answer s' op = .ok x' → ThreadMemStep limit head x (.thread op answer) x'
  | write {x : ThreadMemory} {list : MListMem} :
      (∀ p ∈ head :: x.state.threadList.map x.self, list.node p = x.list.node p) →
      ThreadMemStep limit head x (.write list) { x with list := list }

/-- The runs from `m_thread_startup`. -/
def ThreadMemRun (limit : ℕ) (head : Ptr) : List ThreadMemOp → (ℕ → ThreadMemory) → Prop :=
  Run (fun x => ∃ t answer m self, answer ≠ head ∧
    ThreadMemory.mThreadStartup head t answer m self = .ok x) (ThreadMemStep limit head)

variable {ops : List ThreadMemOp} {xs : ℕ → ThreadMemory} {n : ℕ}

/-- INTERNAL: the startup establishes the invariant.
SOURCE: m_thread.c:124-147 -/
theorem threadMemInv_startup {self : Tid → Ptr} (hhead : answer ≠ head)
    (e : ThreadMemory.mThreadStartup head t answer m self = .ok x) : ThreadMemInv head x := by
  obtain ⟨list, e₁, e₂⟩ := Outcome.bind_eq_ok.mp e
  have hne : head ≠ NULL := by
    rintro rfl
    cases e₁
  have hnull : answer ≠ NULL := by
    rintro rfl
    cases e₂
  obtain ⟨list', e₃, hring⟩ := mListInit_spec m hne
  obtain rfl := Except.ok.inj (e₁.symm.trans e₃)
  have hbefore : ThreadMemInv head ⟨beforeStartup t, list, self, fun _ => false⟩ :=
    ⟨pauseInv_beforeStartup t, hring, fun _ hu => absurd rfl hu, fun _ _ hu => absurd rfl hu⟩
  have hstate : (beforeStartup t).threadRegister t = ThreadState.mThreadStartup t := by
    unfold ThreadState.mThreadStartup ThreadState.threadRegister ThreadState.goto
    simp only [ThreadState.setRecord, beforeStartup, ThreadState.goto, Function.update_idem]
  obtain ⟨x', e₄, -, hx'⟩ := hbefore.register (goto_place_self (s := ⟨[], 0, 0, false, none,
    fun _ => none, fun _ => .absent⟩)) hnull hhead rfl (hstate ▸ pauseInv_startup t)
  dsimp only at e₄
  rw [hstate] at e₄
  obtain rfl := Except.ok.inj (e₂.symm.trans e₄)
  exact hx'

/-- INTERNAL: the invariant over a whole run. -/
theorem threadMemInv_run (h : ThreadMemRun limit head ops xs) (hn : n ≤ ops.length) :
    ThreadMemInv head (xs n) := by
  refine Run.inv (fun _ x => ThreadMemInv head x) ?_ ?_ h n hn
  · rintro x ⟨t, answer, m, self, hhead, e⟩
    exact threadMemInv_startup hhead e
  · intro _ x op x' hx hs
    cases hs with
    | thread hs hnull hhead hfresh e =>
      obtain ⟨x₁, e₁, -, hx₁⟩ := hx.exec hs hnull hhead hfresh
      obtain rfl := Except.ok.inj (e.symm.trans e₁)
      exact hx₁
    | write hlist => exact ⟨hx.pause, hx.ring.congr hlist, hx.live, hx.inj⟩

/-! ## Two records -/

/-- The list with its head at `8`, after the append of a node behind `last`. -/
def appendedList (m : MListMem) (last node : Ptr) : MListMem :=
  (((m.setLink .prev node last).setLink .next node 8).setLink .next last node).setLink .prev 8 node

/-- The list of thread 0. -/
def startupList : MListMem :=
  appendedList (((MListMem.mk fun _ => ⟨NULL, NULL⟩).setLink .prev 8 8).setLink .next 8 8) 8 16

/-- The memory in which thread 1 enters for the first time. -/
def joiningMemory : ℕ → ThreadMemory
  | 0 => ⟨joiningStates 0, startupList, Function.update (fun _ => NULL) 0 16,
      Function.update (fun _ => false) 16 true⟩
  | 1 => ⟨joiningStates 1, startupList, Function.update (fun _ => NULL) 0 16,
      Function.update (fun _ => false) 16 true⟩
  | 2 => ⟨joiningStates 2, startupList, Function.update (fun _ => NULL) 0 16,
      Function.update (fun _ => false) 16 true⟩
  | _ => ⟨joiningStates 3, appendedList startupList 16 24,
      Function.update (Function.update (fun _ => NULL) 0 16) 1 24,
      Function.update (Function.update (fun _ => false) 16 true) 24 true⟩

/-- INTERNAL: the startup of the run of two threads. -/
theorem joining_startup : ThreadMemory.mThreadStartup 8 0 16 ⟨fun _ => ⟨NULL, NULL⟩⟩
    (fun _ => NULL) = .ok (joiningMemory 0) := rfl

/-- INTERNAL: the run in which thread 1 enters. -/
theorem memory_joining : ThreadMemRun 2 8
    [.thread (.create 1) 24, .thread (.enter 1) 24, .thread (.register 1) 24] joiningMemory := by
  refine ⟨⟨0, 16, _, _, by decide, joining_startup⟩, fun i hi => ?_⟩
  match i, hi with
  | 0, _ => exact .thread (run_joining.step 0 (by decide)) (by decide) (by decide) rfl rfl
  | 1, _ => exact .thread (run_joining.step 1 (by decide)) (by decide) (by decide) rfl rfl
  | 2, _ => exact .thread (run_joining.step 2 (by decide)) (by decide) (by decide) rfl rfl

/-! ## The list of a run -/

/-- **The thread list is a list of allocated records.** In every state of every run of the
threads, with stores of anyone to memory that is not a listed record: each section that the pause
protocol allows returns, and accesses allocated records only; every thread with a record has one
that is allocated, and no two the same; and the loop of the collector over the list marks the
new-born stacks of exactly the registered threads, in the order in which they registered.
SOURCE: m_thread.c:50-110, 124-147; m_gc_obj.c:232-255; m_list.h:78-81, 129-179 -/
theorem thread_list_memory (h : ThreadMemRun limit head ops xs) (hn : n ≤ ops.length) :
    (∀ op answer s', ThreadStep limit (xs n).state op s' → answer ≠ NULL → answer ≠ head →
      (xs n).live answer = false →
      ∃ x', (xs n).exec head answer s' op = .ok x' ∧ x'.state = s') ∧
    (∀ u, (xs n).state.record u ≠ none → (xs n).live ((xs n).self u) = true ∧
      ∀ v, (xs n).state.record v ≠ none → (xs n).self u = (xs n).self v → u = v) ∧
    ∀ th D fuel s, (xs n).state.threadList.length < fuel →
      s.threadList = (xs n).state.threadList.map (fun u => th ((xs n).self u)) →
      (xs n).gcMarkThreadList head th D fuel s = gcMarkNbStacks D s := by
  have hinv := threadMemInv_run h hn
  refine ⟨fun op answer s' hs hnull hhead hfresh => ?_, fun u hu => ⟨(hinv.live u hu).1, ?_⟩,
    fun th D fuel s hf hlist => ?_⟩
  · obtain ⟨x', e, hstate, -⟩ := hinv.exec hs hnull hhead hfresh
    exact ⟨x', e, hstate⟩
  · exact fun v hv => hinv.inj u v hu hv
  · have hlen : ((xs n).state.threadList.map (xs n).self).length < fuel := by
      rwa [List.length_map]
    rw [markThreadList_spec hinv.ring hinv.listed_live hlen, List.map_map, gcMarkNbStacks, hlist]
    rfl

/-- With two records listed, the second thread exits and the collector meets both stacks. -/
theorem thread_list_memory_joined :
    (∃ x', (joiningMemory 3).exec 8 32 ((joiningStates 3).threadKeyDestructor 1) (.exit 1) =
      .ok x' ∧ x'.state = (joiningStates 3).threadKeyDestructor 1) ∧
    (joiningMemory 3).gcMarkThreadList 8 (fun _ => ⟨[], 0, 0⟩) defaultConfig 3
        { gcObjStartup with threadList := [⟨[], 0, 0⟩, ⟨[], 0, 0⟩] } =
      gcMarkNbStacks defaultConfig
        { gcObjStartup with threadList := [⟨[], 0, 0⟩, ⟨[], 0, 0⟩] } := by
  obtain ⟨hsections, -, hloop⟩ := thread_list_memory memory_joining le_rfl
  refine ⟨?_, hloop _ _ _ _ (by decide) rfl⟩
  exact hsections _ 32 _ (.exit (.inr (.inl rfl))) (by decide) (by decide) rfl

end Ming.Analysis
