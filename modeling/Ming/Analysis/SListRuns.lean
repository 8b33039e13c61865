import Mathlib.Data.Set.Insert
import Ming.Foundation.Simulation
import Ming.Interface.SListSequence

/-!
# Singly linked lists as stacks

A program with several lists moves its nodes between them: a node is on one list, or belongs to
the program. The lists are stacks throughout every run. A loop over values visits the values
whose members are the nodes of the list. The safe loop reads the next node before its body,
which may then do with the node what it likes: push it on another list, or give its memory back.
-/

set_option autoImplicit false

namespace Ming.Analysis

open Ming.Foundation Ming.Model Ming.Interface

variable {η σ : Type} {mem : σ → MSListMem η} {live : σ → ℕ → Bool} {s : σ} {off : ℕ}
variable {body : σ → ℕ → Outcome σ} {l : List ℕ} {p : ℕ}

/-- INTERNAL: a list begins at its first node. -/
theorem chain_headD_zero {next : ℕ → ℕ} (h : Chain next 0 p l) : p = l.headD 0 := by
  cases l with
  | nil => exact h
  | cons a l => exact h.1

/-- INTERNAL: the value of the first node of what is to come. -/
theorem sNodeValue_headD (off : ℕ) (l : List ℕ) (h : ∀ a ∈ l, a ≠ 0) :
    sNodeValue off (l.headD 0) = (l.map fun a => a - off).headD 0 := by
  cases l with
  | nil => rfl
  | cons a l => exact if_neg (h a List.mem_cons_self)

/-- INTERNAL: **a safe loop over values.** The invariant has the visited nodes, those to come and
the state; it gives the link of the node that is visited next, before the body.
SOURCE: m_list.h:219-223 -/
theorem slistForeachValueSafe_spec (mem : σ → MSListMem η) (live : σ → ℕ → Bool) (off : ℕ)
    (body : σ → ℕ → Outcome σ) (Inv : List ℕ → List ℕ → σ → Prop) (hl : ∀ a ∈ l, off < a)
    (hround : ∀ done a rest s, Inv done (a :: rest) s →
      (mem s).load (live s) (.addr a) = .ok (rest.headD 0) ∧
        ∃ s', body s (a - off) = .ok s' ∧ Inv (done ++ [a]) rest s')
    (h : Inv [] l s) : ∃ s', (∀ fuel > l.length,
      mSListForeachValueSafe mem live off fuel body s (l.headD 0) =
        .ok (s', l.map fun a => a - off)) ∧ Inv l [] s' := by
  have hne : ∀ a ∈ l, a ≠ 0 := fun a ha => Nat.ne_of_gt (Nat.zero_lt_of_lt (hl a ha))
  obtain ⟨s', k, rounds, e, hmap, hfinal, -⟩ := forLoop_visits
    (fun s val => do
      let nval ← (if val ≠ 0 then do
          let next ← (mem s).load (live s) (.addr (val + off))
          pure (sNodeValue off next)
        else pure 0)
      pure (if val = 0 then none else some (val, nval)))
    (fun s i => body s i.1) (fun _ i => .ok i.2)
    (fun done rest s k => Inv done rest s ∧ k = (rest.map fun a => a - off).headD 0 ∧
      l = done ++ rest) (fun i => i.1 + off)
    (fun done s k hinv => by
      rw [hinv.2.1]
      rfl)
    (fun done a rest s k hinv => by
      obtain ⟨hinv, hk, hsplit⟩ := hinv
      obtain rfl : k = a - off := hk
      have ha : off < a := hl a (by rw [hsplit]; simp)
      have hadd : a - off + off = a := Nat.sub_add_cancel ha.le
      have hval : a - off ≠ 0 := Nat.sub_ne_zero_of_lt ha
      obtain ⟨hload, s', hbody, hinv'⟩ := hround done a rest s hinv
      have hrest : ∀ b ∈ rest, b ≠ 0 := fun b hb => hne b (by rw [hsplit]; simp [hb])
      refine ⟨(a - off, (rest.map fun a => a - off).headD 0), s', _, ?_, hadd, hbody, rfl,
        hinv', rfl, by rw [hsplit, List.append_assoc]; rfl⟩
      simp only [if_pos hval, if_neg hval, hadd, hload, Outcome.ok_bind, Outcome.pure_eq_ok,
        sNodeValue_headD off rest hrest])
    (s := s) (k := sNodeValue off (l.headD 0)) ⟨h, sNodeValue_headD off l hne, rfl⟩
    (Nat.lt_succ_self l.length)
  refine ⟨s', fun fuel hfuel => ?_, hfinal⟩
  have hrounds : rounds.map Prod.fst = l.map fun a => a - off := by
    rw [← hmap, List.map_map]
    exact List.map_congr_left fun i _ => (Nat.add_sub_cancel i.1 off).symm
  rw [mSListForeachValueSafe, forLoop_of_le e hfuel]
  exact congrArg (fun values => Except.ok (s', values)) hrounds

/-! ## Stacks -/

section Stacks

variable {η : Type} {s : SListState η} {L : η → List ℕ} {free : Set ℕ} {todo : List ℕ}
variable {node : ℕ} {rest : List ℕ}

/-- The nodes of a program: on a list, its own, or on the saved list `todo`. -/
structure Stacked (s : SListState η) (L : η → List ℕ) (free : Set ℕ) (todo : List ℕ) : Prop where
  lists : IsSLists s.links L
  saved : Chain s.links.next 0 (todo.headD 0) todo
  once : ∀ h h' a, a ∈ L h → a ∈ L h' → h = h'
  unsaved : ∀ h, ∀ a ∈ L h, a ∉ todo
  apart : ∀ a ∈ free, a ∉ todo ∧ ∀ h, a ∉ L h
  mapped : ∀ a, a ∈ free ∨ a ∈ todo ∨ (∃ h, a ∈ L h) → a ≠ 0 ∧ s.mapped a = true

/-- INTERNAL: the saved nodes go to the program. -/
theorem Stacked.drop (h : Stacked s L free todo) : Stacked s L (free ∪ {a | a ∈ todo}) [] := by
  refine ⟨h.lists, rfl, h.once, fun _ _ _ => List.not_mem_nil, fun a ha => ⟨List.not_mem_nil,
    fun h' ha' => ?_⟩, fun a ha => ?_⟩
  · exact ha.elim (fun ha => (h.apart a ha).2 h' ha') (h.unsaved h' a ha')
  · rcases ha with (ha | ha) | ha | ha
    · exact h.mapped a (Or.inl ha)
    · exact h.mapped a (Or.inr (Or.inl ha))
    · exact absurd ha List.not_mem_nil
    · exact h.mapped a (Or.inr (Or.inr ha))

/-- INTERNAL: the saved node that comes next is taken. -/
theorem Stacked.advance (h : Stacked s L free (node :: todo)) :
    Stacked s L free todo ∧ node ∉ todo ∧ (∀ h', node ∉ L h') ∧ node ∉ free ∧
      s.links.next node = todo.headD 0 := by
  have hnot := (List.nodup_cons.mp h.saved.nodup).1
  obtain ⟨-, -, hlink⟩ := h.saved
  have hnext := chain_headD_zero hlink
  refine ⟨⟨h.lists, hnext ▸ hlink, h.once, fun h' a ha hat => ?_, fun a ha => ⟨fun hat => ?_,
    (h.apart a ha).2⟩, fun a ha => ?_⟩, hnot,
    fun h' ha => h.unsaved h' node ha List.mem_cons_self,
    fun ha => (h.apart node ha).1 List.mem_cons_self, hnext⟩
  · exact h.unsaved h' a ha (List.mem_cons_of_mem node hat)
  · exact (h.apart a ha).1 (List.mem_cons_of_mem node hat)
  · exact h.mapped a (ha.imp id (Or.imp (List.mem_cons_of_mem node) id))

/-- INTERNAL: the memory of a node that is on no list is given back. -/
theorem Stacked.unmap (h : Stacked s L free todo) (hnot : ∀ h', node ∉ L h')
    (htodo : node ∉ todo) : Stacked { s with mapped := Function.update s.mapped node false } L
      (free \ {node}) todo := by
  refine ⟨h.lists, h.saved, h.once, h.unsaved, fun a ha => h.apart a ha.1, fun a ha => ?_⟩
  have hne : a ≠ node := by
    rintro rfl
    rcases ha with ha | ha | ⟨h', ha⟩
    · exact ha.2 rfl
    · exact htodo ha
    · exact hnot h' ha
  obtain ⟨hzero, hmap⟩ := h.mapped a (ha.imp And.left id)
  exact ⟨hzero, (Function.update_of_ne hne _ _).trans hmap⟩

/-- INTERNAL: the program gets a node. -/
theorem Stacked.map (h : Stacked s L free todo) (hne : node ≠ 0) (hnot : ∀ h', node ∉ L h')
    (htodo : node ∉ todo) : Stacked { s with mapped := Function.update s.mapped node true } L
      (insert node free) todo := by
  refine ⟨h.lists, h.saved, h.once, h.unsaved, ?_, fun a ha => ?_⟩
  · rintro a (rfl | ha)
    · exact ⟨htodo, hnot⟩
    · exact h.apart a ha
  · by_cases he : a = node
    · subst he
      exact ⟨hne, Function.update_self ..⟩
    · obtain ⟨hzero, hmap⟩ := h.mapped a (ha.imp (fun ha => ha.resolve_left he) id)
      exact ⟨hzero, (Function.update_of_ne he _ _).trans hmap⟩

variable [DecidableEq η]

/-- INTERNAL: the program stores into a node that is on no list. -/
theorem Stacked.write (h : Stacked s L free todo) (hnot : ∀ h', node ∉ L h')
    (htodo : node ∉ todo) (v : ℕ) :
    Stacked { s with links := setField s.links (.addr node) v } L free todo :=
  ⟨fun h' => (h.lists h').update_of_notMem (hnot h'), h.saved.update_of_notMem htodo, h.once,
    h.unsaved, h.apart, h.mapped⟩

omit [DecidableEq η] in
/-- INTERNAL: the nodes of the lists after one list has changed. -/
theorem mem_update [DecidableEq η] {hd h' : η} {l : List ℕ} {a : ℕ} :
    a ∈ Function.update L hd l h' ↔ (h' = hd ∧ a ∈ l) ∨ (h' ≠ hd ∧ a ∈ L h') := by
  by_cases he : h' = hd
  · subst he
    rw [Function.update_self]
    simp
  · rw [Function.update_of_ne he]
    simp [he]

/-- INTERNAL: a list is emptied, its nodes are saved. -/
theorem Stacked.init (h : Stacked s L free []) (hd : η) :
    Stacked { s with links := setField s.links (.var hd) 0 } (Function.update L hd []) free
      (L hd) := by
  have hmem : ∀ h' a, a ∈ Function.update L hd [] h' → h' ≠ hd ∧ a ∈ L h' := fun h' a ha =>
    (mem_update.mp ha).resolve_left fun hn => absurd hn.2 List.not_mem_nil
  have hsaved := h.lists hd
  rw [chain_headD_zero hsaved] at hsaved
  refine ⟨h.lists.init hd, hsaved, fun h₁ h₂ a h₁' h₂' => ?_, fun h' a ha hat => ?_,
    fun a ha => ?_, fun a ha => ?_⟩
  · exact h.once h₁ h₂ a (hmem h₁ a h₁').2 (hmem h₂ a h₂').2
  · exact (hmem h' a ha).1 (h.once h' hd a (hmem h' a ha).2 hat)
  · exact ⟨(h.apart a ha).2 hd, fun h' ha' => (h.apart a ha).2 h' (hmem h' a ha').2⟩
  · rcases ha with ha | ha | ⟨h', ha⟩
    · exact h.mapped a (Or.inl ha)
    · exact h.mapped a (Or.inr (Or.inr ⟨hd, ha⟩))
    · exact h.mapped a (Or.inr (Or.inr ⟨h', (hmem h' a ha).2⟩))

/-- INTERNAL: a node that is on no list is pushed on one. -/
theorem Stacked.push (h : Stacked s L free todo) (hne : node ≠ 0) (hmap : s.mapped node = true)
    (hnot : ∀ h', node ∉ L h') (htodo : node ∉ todo) (hd : η) :
    Stacked { s with links := pushed s.links (.var hd) node } (Function.update L hd (node :: L hd))
      (free \ {node}) todo := by
  have hmem : ∀ h' a, a ∈ Function.update L hd (node :: L hd) h' →
      (h' = hd ∧ a = node) ∨ (a ∈ L h' ∧ a ≠ node) := by
    intro h' a ha
    rcases mem_update.mp ha with ⟨rfl, ha⟩ | ⟨-, ha⟩
    · rcases List.mem_cons.mp ha with rfl | ha
      · exact Or.inl ⟨rfl, rfl⟩
      · exact Or.inr ⟨ha, fun e => hnot h' (e ▸ ha)⟩
    · exact Or.inr ⟨ha, fun e => hnot h' (e ▸ ha)⟩
  refine ⟨h.lists.push hne hnot hd, h.saved.update_of_notMem htodo, fun h₁ h₂ a h₁' h₂' => ?_,
    fun h' a ha => ?_, fun a ha => ⟨(h.apart a ha.1).1, fun h' ha' => ?_⟩, fun a ha => ?_⟩
  · rcases hmem h₁ a h₁' with ⟨rfl, rfl⟩ | ⟨ha₁, hn₁⟩
    · rcases hmem h₂ a h₂' with ⟨rfl, -⟩ | ⟨-, hn₂⟩
      · rfl
      · exact absurd rfl hn₂
    · rcases hmem h₂ a h₂' with ⟨-, rfl⟩ | ⟨ha₂, -⟩
      · exact absurd rfl hn₁
      · exact h.once h₁ h₂ a ha₁ ha₂
  · rcases hmem h' a ha with ⟨-, rfl⟩ | ⟨ha, -⟩
    · exact htodo
    · exact h.unsaved h' a ha
  · rcases hmem h' a ha' with ⟨-, rfl⟩ | ⟨ha', -⟩
    · exact ha.2 rfl
    · exact (h.apart a ha.1).2 h' ha'
  · rcases ha with ha | ha | ⟨h', ha⟩
    · exact h.mapped a (Or.inl ha.1)
    · exact h.mapped a (Or.inr (Or.inl ha))
    · rcases hmem h' a ha with ⟨-, rfl⟩ | ⟨ha, -⟩
      · exact ⟨hne, hmap⟩
      · exact h.mapped a (Or.inr (Or.inr ⟨h', ha⟩))

/-- INTERNAL: the first node of a list is popped, and belongs to the program then. -/
theorem Stacked.pop (h : Stacked s L free []) {hd : η} (hl : L hd = node :: rest) :
    Stacked { s with links := setField s.links (.var hd) (s.links.next node) }
      (Function.update L hd rest) (insert node free) [] := by
  have hnode : node ∈ L hd := by
    rw [hl]
    exact List.mem_cons_self
  have hnd := (h.lists hd).nodup
  rw [hl, List.nodup_cons] at hnd
  have hmem : ∀ h' a, a ∈ Function.update L hd rest h' → a ∈ L h' ∧ a ≠ node := by
    intro h' a ha
    rcases mem_update.mp ha with ⟨rfl, hr⟩ | ⟨hne, hr⟩
    · exact ⟨hl ▸ List.mem_cons_of_mem node hr, fun e => hnd.1 (e ▸ hr)⟩
    · exact ⟨hr, fun e => hne (h.once h' hd a hr (e ▸ hnode))⟩
  refine ⟨(h.lists.pop hl).2, rfl, fun h₁ h₂ a h₁' h₂' => ?_, fun _ _ _ => List.not_mem_nil, ?_,
    fun a ha => ?_⟩
  · exact h.once h₁ h₂ a (hmem h₁ a h₁').1 (hmem h₂ a h₂').1
  · rintro a (rfl | ha)
    · exact ⟨List.not_mem_nil, fun h' ha' => (hmem h' a ha').2 rfl⟩
    · exact ⟨List.not_mem_nil, fun h' ha' => (h.apart a ha).2 h' (hmem h' a ha').1⟩
  · rcases ha with (rfl | ha) | ha | ⟨h', ha⟩
    · exact h.mapped a (Or.inr (Or.inr ⟨hd, hnode⟩))
    · exact h.mapped a (Or.inl ha)
    · exact absurd ha List.not_mem_nil
    · exact h.mapped a (Or.inr (Or.inr ⟨h', (hmem h' a ha).1⟩))

/-! ## Runs of the operations -/

/-- What a program with several lists knows: the stacks, and the nodes that are on none. -/
structure Stacks (η : Type) where
  lists : η → List ℕ
  free : Set ℕ

/-- An operation on the stacks with the value that it returns. The program pushes, stores into
and gives back nodes of its own only. -/
inductive StackStep (S : Stacks η) : SListOp η × ℕ → Stacks η → Prop where
  | init (hd : η) : StackStep S (.init hd, 0)
      ⟨Function.update S.lists hd [], S.free ∪ {a | a ∈ S.lists hd}⟩
  | empty (hd : η) : StackStep S (.empty hd, (decide (S.lists hd = [])).toNat) S
  | push (hd : η) {node : ℕ} (h : node ∈ S.free) : StackStep S (.push hd node, 0)
      ⟨Function.update S.lists hd (node :: S.lists hd), S.free \ {node}⟩
  | popEmpty {hd : η} (h : S.lists hd = []) : StackStep S (.pop hd, 0) S
  | pop {hd : η} {node : ℕ} {rest : List ℕ} (h : S.lists hd = node :: rest) :
      StackStep S (.pop hd, node) ⟨Function.update S.lists hd rest, insert node S.free⟩
  | write {node : ℕ} (v : ℕ) (h : node ∈ S.free) : StackStep S (.write node v, 0) S
  | map {node : ℕ} (hne : node ≠ 0) (h : ∀ hd, node ∉ S.lists hd) :
      StackStep S (.map node, 0) ⟨S.lists, insert node S.free⟩
  | unmap {node : ℕ} (h : node ∈ S.free) : StackStep S (.unmap node, 0)
      ⟨S.lists, S.free \ {node}⟩

/-- One operation in memory, with the value that it returns. -/
def SListStep (s : SListState η) (op : SListOp η × ℕ) (s' : SListState η) : Prop :=
  op.1.exec s = .ok (op.2, s')

/-- INTERNAL: **one operation** does to the memory what it does to the stacks.
SOURCE: m_list.h:229-280 -/
theorem stackStep_linked {S S' : Stacks η} {op : SListOp η × ℕ}
    (h : Stacked s S.lists S.free []) (hs : StackStep S op S') :
    ∃ s', SListStep s op s' ∧ Stacked s' S'.lists S'.free [] := by
  have hvar : ∀ hd : η, Access s.mapped (.var hd) := access_var s.mapped
  have hacc : ∀ node ∈ S.free, Access s.mapped (.addr node : MSListRef η) := fun node hn =>
    h.mapped node (Or.inl hn)
  cases hs with
  | init hd =>
    refine ⟨_, ?_, (h.init hd).drop⟩
    rw [SListStep, SListOp.exec, slistInit_ok (hvar hd)]
    rfl
  | empty hd =>
    refine ⟨s, ?_, h⟩
    have hiff : decide (fieldOf s.links (.var hd) = 0) = decide (S.lists hd = []) :=
      decide_eq_decide.mpr (h.lists.head_eq_zero hd)
    rw [SListStep, SListOp.exec, slistEmpty_ok (hvar hd), hiff]
    rfl
  | @push hd node hn =>
    obtain ⟨hne, hmap⟩ := hacc node hn
    refine ⟨_, ?_, h.push hne hmap (h.apart node hn).2 List.not_mem_nil hd⟩
    rw [SListStep, SListOp.exec, slistPush_ok (hvar hd) ⟨hne, hmap⟩]
    rfl
  | @popEmpty hd hl =>
    refine ⟨s, ?_, h⟩
    rw [SListStep, SListOp.exec, slistPop_empty (hvar hd) ((h.lists.head_eq_zero hd).mpr hl)]
    rfl
  | @pop hd node rest hl =>
    have hnode : Access s.mapped (.addr node : MSListRef η) :=
      h.mapped node (Or.inr (Or.inr ⟨hd, by rw [hl]; exact List.mem_cons_self⟩))
    refine ⟨_, ?_, h.pop hl⟩
    rw [SListStep, SListOp.exec, slistPop_ok (hvar hd) (h.lists.pop hl).1 hnode]
    rfl
  | @write node v hn =>
    refine ⟨_, ?_, h.write (h.apart node hn).2 List.not_mem_nil v⟩
    rw [SListStep, SListOp.exec, store_ok (hacc node hn)]
    rfl
  | @map node hne hnot => exact ⟨_, rfl, h.map hne hnot List.not_mem_nil⟩
  | @unmap node hn => exact ⟨_, rfl, h.unmap (h.apart node hn).2 List.not_mem_nil⟩

/-- The memory before the first operation: heads of static storage, and no node. -/
def SListState.start (next : ℕ → ℕ) : SListState η := ⟨⟨fun _ => 0, next⟩, fun _ => false⟩

/-- **Singly linked lists are stacks.** In every run of a program that pushes nodes of its own
only, each operation on memory returns, with the value that the same operation on the stacks has,
and after it the links represent the stacks; no node is on two lists, and a node that was popped
or whose list was emptied may be overwritten and given back.
SOURCE: m_list.h:186-280 -/
theorem slists_refine_stacks {ops : List (SListOp η × ℕ)} {τ : ℕ → Stacks η}
    (h : Run (fun S => S = ⟨fun _ => [], ∅⟩) StackStep ops τ) (next : ℕ → ℕ) :
    ∃ σ, Run (fun s => s = SListState.start next) SListStep ops σ ∧ ∀ n ≤ ops.length,
      IsSLists (σ n).links (τ n).lists ∧
      (∀ h h' a, a ∈ (τ n).lists h → a ∈ (τ n).lists h' → h = h') ∧
      ∀ a ∈ (τ n).free, ∀ h, a ∉ (τ n).lists h := by
  obtain ⟨σ, hσ, hrep⟩ := h.simulate (fun s => s = SListState.start next) SListStep
    (fun S s => Stacked s S.lists S.free [])
    (by
      rintro S rfl
      refine ⟨_, rfl, fun _ => rfl, rfl, fun _ _ _ ha => absurd ha List.not_mem_nil,
        fun _ _ _ => List.not_mem_nil, fun _ ha => absurd ha (Set.notMem_empty _), ?_⟩
      rintro a (ha | ha | ⟨_, ha⟩)
      · exact absurd ha (Set.notMem_empty _)
      · exact absurd ha List.not_mem_nil
      · exact absurd ha List.not_mem_nil)
    fun S s op S' hr hs => stackStep_linked hr hs
  exact ⟨σ, hσ, fun n hn => ⟨(hrep n hn).lists, (hrep n hn).once, fun a ha =>
    ((hrep n hn).apart a ha).2⟩⟩

/-- Three nodes on two lists: one moves to the other list, is popped and given back, and the
list that it came from is emptied. -/
def movingOps : List (SListOp Bool × ℕ) :=
  [(.map 8, 0), (.map 16, 0), (.map 24, 0), (.push true 8, 0), (.push true 16, 0),
    (.push false 24, 0), (.pop true, 16), (.write 16 7, 0), (.push false 16, 0), (.pop false, 16),
    (.unmap 16, 0), (.init true, 0), (.empty true, 1)]

/-- The run in memory, in the middle and at the end. -/
theorem slists_refine_stacks_moved : ∃ (τ : ℕ → Stacks Bool) (σ : ℕ → SListState Bool),
    Run (fun s => s = SListState.start id) SListStep movingOps σ ∧
    IsSLists (σ 9).links (τ 9).lists ∧ (τ 9).lists true = [8] ∧ (τ 9).lists false = [16, 24] ∧
    IsSLists (σ 13).links (τ 13).lists ∧ (τ 13).lists true = [] ∧ (τ 13).lists false = [24] := by
  obtain ⟨τ, hτ, hmid⟩ : ∃ τ : ℕ → Stacks Bool,
      Run (fun S => S = ⟨fun _ => [], ∅⟩) StackStep movingOps τ ∧
      ((τ 9).lists true = [8] ∧ (τ 9).lists false = [16, 24]) ∧
      (τ 13).lists true = [] ∧ (τ 13).lists false = [24] := by
    exact ⟨_,
      .cons rfl (.map (by decide) fun _ => List.not_mem_nil) <|
      .cons rfl (.map (by decide) fun _ => List.not_mem_nil) <|
      .cons rfl (.map (by decide) fun _ => List.not_mem_nil) <|
      .cons rfl (.push true (by simp)) <|
      .cons rfl (.push true (by simp)) <|
      .cons rfl (.push false (by simp)) <|
      .cons rfl (.pop rfl) <|
      .cons rfl (.write 7 (by simp)) <|
      .cons rfl (.push false (by simp)) <|
      .cons rfl (.pop rfl) <|
      .cons rfl (.unmap (by simp)) <|
      .cons rfl (.init true) <|
      .cons rfl (.empty true) <|
      .nil rfl, ⟨rfl, rfl⟩, rfl, rfl⟩
  obtain ⟨σ, hσ, hrep⟩ := slists_refine_stacks hτ id
  exact ⟨τ, σ, hσ, (hrep 9 (by decide)).1, hmid.1.1, hmid.1.2, (hrep 13 (by decide)).1, hmid.2⟩

/-! ## Moving the nodes of a list -/

/-- The lists after the nodes of `done` were placed. -/
def placed (choose : ℕ → Option η) (L : η → List ℕ) (done : List ℕ) (hd : η) : List ℕ :=
  (done.filter fun a => choose a = some hd).reverse ++ L hd

/-- INTERNAL: one more node, placed on a list. -/
theorem placed_some {choose : ℕ → Option η} {hd : η} (hc : choose node = some hd)
    (done : List ℕ) : placed choose L (done ++ [node]) =
      Function.update (placed choose L done) hd (node :: placed choose L done hd) := by
  funext hd'
  by_cases he : hd' = hd
  · subst he
    rw [Function.update_self, placed, placed, List.filter_append]
    simp [hc]
  · rw [Function.update_of_ne he, placed, placed, List.filter_append]
    simp [hc, Ne.symm he]

/-- INTERNAL: one more node, given back. -/
theorem placed_none {choose : ℕ → Option η} (hc : choose node = none) (done : List ℕ) :
    placed choose L (done ++ [node]) = placed choose L done := by
  funext hd'
  rw [placed, placed, List.filter_append]
  simp [hc]

/-- INTERNAL: one round of the loop. -/
theorem placeNode_spec {choose : ℕ → Option η} {done : List ℕ}
    (h : Stacked s (placed choose L done) free (node :: todo)) (hoff : off < node) :
    s.links.load s.mapped (.addr node) = .ok (todo.headD 0) ∧
      ∃ s', placeNode choose off s (node - off) = .ok s' ∧
        Stacked s' (placed choose L (done ++ [node])) free todo := by
  have hacc : Access s.mapped (.addr node : MSListRef η) :=
    h.mapped node (Or.inr (Or.inl List.mem_cons_self))
  obtain ⟨h', htodo, hnot, hfree, hnext⟩ := h.advance
  have hadd : node - off + off = node := Nat.sub_add_cancel hoff.le
  have hsame : free \ {node} = free := Set.ext fun a =>
    ⟨And.left, fun ha => ⟨ha, fun e => hfree (e ▸ ha)⟩⟩
  refine ⟨(load_ok hacc).trans (congrArg _ hnext), ?_⟩
  cases hc : choose node with
  | some hd =>
    have hpush := h'.push hacc.1 hacc.2 hnot htodo hd
    rw [hsame, ← placed_some hc] at hpush
    refine ⟨_, ?_, hpush⟩
    rw [placeNode, hadd, hc]
    simp only [slistPush_ok (access_var s.mapped hd) hacc, Outcome.ok_bind, Outcome.pure_eq_ok]
  | none =>
    have hunmap := h'.unmap hnot htodo
    rw [hsame, ← placed_none hc] at hunmap
    refine ⟨_, ?_, hunmap⟩
    rw [placeNode, hadd, hc]

/-- **The safe loop over values may move and free what it visits.** For every offset of the
member, the loop over a list that was copied and emptied visits the values of the list in order
and reads no node after its body; its nodes are then on the lists that were chosen for them, the
last one visited in front, before the nodes that were there.
SOURCE: m_list.h:219-261 -/
theorem slist_placed (h : Stacked s L free []) (choose : ℕ → Option η) (hd : η)
    (hoff : ∀ a ∈ L hd, off < a) :
    ∃ s', (∀ fuel > (L hd).length, placeList choose off fuel s hd =
        .ok (s', (L hd).map fun a => a - off)) ∧
      Stacked s' (placed choose (Function.update L hd []) (L hd)) free [] := by
  have hinit := h.init hd
  have hstart : placed choose (Function.update L hd []) [] = Function.update L hd [] := rfl
  rw [← hstart] at hinit
  obtain ⟨s', e, -, hfinal⟩ := slistForeachValueSafe_spec SListState.links SListState.mapped off
    (placeNode choose off)
    (fun done rest s => L hd = done ++ rest ∧
      Stacked s (placed choose (Function.update L hd []) done) free rest) hoff
    (fun done a rest s hinv => by
      obtain ⟨hload, s', hbody, hs'⟩ := placeNode_spec hinv.2
        (hoff a (by rw [hinv.1]; simp))
      exact ⟨hload, s', hbody, by rw [hinv.1, List.append_assoc]; rfl, hs'⟩)
    ⟨rfl, hinit⟩
  refine ⟨s', fun fuel hfuel => ?_, hfinal⟩
  rw [placeList, slistInit_ok (access_var _ _), Outcome.ok_bind, chain_headD_zero (h.lists hd)]
  exact e fuel hfuel

/-- Two values with a member at offset 8; the first one is moved, the second one given back. -/
theorem slist_placed_two : ∃ s' : SListState Bool,
    placeList (fun a => if a = 24 then some true else none) 8 3
      ⟨⟨fun hd => if hd then 0 else 24, fun a => if a = 24 then 16 else 0⟩,
        fun a => a = 24 || a = 16⟩ false = .ok (s', [16, 8]) ∧
      IsSLists s'.links fun hd => if hd then [24] else [] := by
  have hmem : ∀ a ∈ [24, 16], 8 < a ∧ (a = 24 || a = 16) = true := by decide
  have hstart : Stacked (⟨⟨fun hd => if hd then 0 else 24, fun a => if a = 24 then 16 else 0⟩,
      fun a => a = 24 || a = 16⟩ : SListState Bool)
      (fun hd => if hd then [] else [24, 16]) ∅ [] := by
    refine ⟨?_, rfl, ?_, fun _ _ _ => List.not_mem_nil, fun _ ha => absurd ha (Set.notMem_empty _),
      ?_⟩
    · rintro (_ | _)
      · exact ⟨rfl, by decide, rfl, by decide, rfl⟩
      · rfl
    · rintro (_ | _) (_ | _) a ha ha'
      · rfl
      · exact absurd ha' List.not_mem_nil
      · exact absurd ha List.not_mem_nil
      · rfl
    · rintro a (ha | ha | ⟨_ | _, ha⟩)
      · exact absurd ha (Set.notMem_empty _)
      · exact absurd ha List.not_mem_nil
      · exact ⟨Nat.ne_of_gt (Nat.zero_lt_of_lt (hmem a ha).1), (hmem a ha).2⟩
      · exact absurd ha List.not_mem_nil
  obtain ⟨s', e, hs'⟩ := slist_placed hstart (fun a => if a = 24 then some true else none) false
    fun a ha => (hmem a ha).1
  refine ⟨s', e 3 (by decide), fun hd => ?_⟩
  have hlists := hs'.lists hd
  cases hd <;> exact hlists

end Stacks

end Ming.Analysis
