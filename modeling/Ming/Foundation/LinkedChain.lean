import Mathlib.Data.List.Basic
import Mathlib.Data.List.Perm.Basic
import Mathlib.Logic.Function.Basic

/-!
# Singly linked chains and tables of buckets

A chain is a list of addresses that a `next` function visits one after the other up to a
null address. The lemmas say which chains an update of `next` leaves alone and what it does
to the chain that holds the updated address. A table of buckets is a list of lists; its
nodes are those of the flattened table.
-/

set_option autoImplicit false

namespace Ming.Foundation

section Chain

variable {α : Type} {next : α → α} {null p : α} {l r : List α}

/-- From `p` the links lead through `l` to `null`. -/
def Chain (next : α → α) (null : α) : α → List α → Prop
  | p, [] => p = null
  | p, a :: l => p = a ∧ a ≠ null ∧ Chain next null (next a) l

/-- INTERNAL: a chain of no nodes. -/
@[simp] theorem chain_nil : Chain next null p [] ↔ p = null := Iff.rfl

/-- INTERNAL: a chain from its first node on. -/
@[simp] theorem chain_cons {a : α} :
    Chain next null p (a :: l) ↔ p = a ∧ a ≠ null ∧ Chain next null (next a) l := Iff.rfl

/-- INTERNAL: a chain only looks at the links of its own nodes. -/
theorem Chain.congr {next' : α → α} (h : ∀ a ∈ l, next' a = next a)
    (hl : Chain next null p l) : Chain next' null p l := by
  induction l generalizing p with
  | nil => exact hl
  | cons a l ih =>
    obtain ⟨rfl, ha, hc⟩ := hl
    refine ⟨rfl, ha, ?_⟩
    rw [h p (by simp)]
    exact ih (fun b hb => h b (by simp [hb])) hc

/-- INTERNAL: the null address is not a node. -/
theorem Chain.ne_null (hl : Chain next null p l) {a : α} (ha : a ∈ l) : a ≠ null := by
  induction l generalizing p with
  | nil => simp at ha
  | cons b l ih =>
    obtain ⟨rfl, hb, hc⟩ := hl
    rcases List.mem_cons.mp ha with rfl | ha
    · exact hb
    · exact ih hc ha

/-- INTERNAL: the chain behind a node. -/
theorem Chain.tail {a : α} (hl : Chain next null p (l ++ a :: r)) :
    Chain next null (next a) r := by
  induction l generalizing p with
  | nil => exact hl.2.2
  | cons b l ih => exact ih hl.2.2

/-- INTERNAL: an address starts one chain. -/
theorem Chain.unique (hl : Chain next null p l) (hr : Chain next null p r) : l = r := by
  induction l generalizing p r with
  | nil =>
    cases r with
    | nil => rfl
    | cons b r => exact absurd (hr.1.symm.trans hl) hr.2.1
  | cons a l ih =>
    cases r with
    | nil => exact absurd (hl.1.symm.trans hr) hl.2.1
    | cons b r =>
      obtain ⟨rfl, -, hl⟩ := hl
      obtain ⟨rfl, -, hr⟩ := hr
      rw [ih hl hr]

/-- INTERNAL: a chain that ends meets no node twice. -/
theorem Chain.nodup (hl : Chain next null p l) : l.Nodup := by
  induction l generalizing p with
  | nil => exact List.nodup_nil
  | cons a l ih =>
    obtain ⟨-, -, hc⟩ := hl
    refine List.nodup_cons.mpr ⟨fun ha => ?_, ih hc⟩
    -- the links from `a` on would lead to `a` again and again
    obtain ⟨l₁, l₂, rfl⟩ := List.append_of_mem ha
    have hlen := congrArg List.length (hc.unique hc.tail)
    simp only [List.length_append, List.length_cons] at hlen
    omega

variable [DecidableEq α]

/-- INTERNAL: a store into a node that is not on the chain. -/
theorem Chain.update_of_notMem {a v : α} (ha : a ∉ l) (hl : Chain next null p l) :
    Chain (Function.update next a v) null p l :=
  hl.congr fun b hb => Function.update_of_ne (by rintro rfl; exact ha hb) _ _

/-- INTERNAL: unlinking the node after `b`. -/
theorem Chain.unlink {a b : α} (hnd : (l ++ b :: a :: r).Nodup)
    (hl : Chain next null p (l ++ b :: a :: r)) :
    Chain (Function.update next b (next a)) null p (l ++ b :: r) := by
  induction l generalizing p with
  | nil =>
    obtain ⟨rfl, hb, rfl, -, hr⟩ := hl
    simp only [List.nil_append, List.nodup_cons, List.mem_cons, not_or] at hnd
    refine ⟨rfl, hb, ?_⟩
    rw [Function.update_self]
    exact hr.update_of_notMem hnd.1.2
  | cons c l ih =>
    obtain ⟨rfl, hc, hl⟩ := hl
    simp only [List.cons_append, List.nodup_cons] at hnd
    refine ⟨rfl, hc, ?_⟩
    have hpb : p ≠ b := by
      rintro rfl
      exact hnd.1 (by simp)
    rw [Function.update_of_ne hpb]
    exact ih hnd.2 hl

end Chain

/-! ## Tables of buckets -/

section Buckets

variable {α : Type} {B : List (List α)} {i : ℕ} {l : List α}

/-- INTERNAL: the nodes of a table are those of one bucket and some others, whatever stands
in that bucket. -/
theorem flatten_set_perm (h : i < B.length) :
    ∃ rest : List α, ∀ l : List α, (B.set i l).flatten.Perm (l ++ rest) := by
  induction B generalizing i with
  | nil => simp at h
  | cons b B ih =>
    cases i with
    | zero => exact ⟨B.flatten, fun l => by simp⟩
    | succ i =>
      obtain ⟨rest, hrest⟩ := ih (i := i) (by simpa using h)
      refine ⟨b ++ rest, fun l => ?_⟩
      simp only [List.set_cons_succ, List.flatten_cons]
      refine ((hrest l).append_left b).trans ?_
      rw [← List.append_assoc, ← List.append_assoc]
      exact List.perm_append_comm.append_right rest

/-- INTERNAL: replacing one bucket of a table. -/
theorem flatten_perm_of_get (h : B[i]? = some l) :
    ∃ rest : List α, B.flatten.Perm (l ++ rest) ∧
      ∀ l' : List α, (B.set i l').flatten.Perm (l' ++ rest) := by
  obtain ⟨hi, rfl⟩ := List.getElem?_eq_some_iff.mp h
  obtain ⟨rest, hrest⟩ := flatten_set_perm hi
  refine ⟨rest, ?_, hrest⟩
  have := hrest B[i]
  rwa [List.set_getElem_self] at this

/-- INTERNAL: an element of one list is an element of all. -/
theorem mem_flatten_of_get (h : B[i]? = some l) {a : α} (ha : a ∈ l) : a ∈ B.flatten :=
  List.mem_flatten.mpr ⟨l, List.mem_of_getElem? h, ha⟩

/-- INTERNAL: in a table without repetitions a node is in one bucket. -/
theorem bucket_unique (hnd : B.flatten.Nodup) {j : ℕ} {l' : List α} (h : B[i]? = some l)
    (h' : B[j]? = some l') {a : α} (ha : a ∈ l) (ha' : a ∈ l') : i = j := by
  induction B generalizing i j with
  | nil => simp at h
  | cons b B ih =>
    simp only [List.flatten_cons, List.nodup_append] at hnd
    obtain ⟨-, hndB, hdisj⟩ := hnd
    cases i with
    | zero =>
      cases j with
      | zero => rfl
      | succ j =>
        obtain rfl : b = l := by simpa using h
        exact absurd rfl (hdisj a ha a (mem_flatten_of_get (by simpa using h') ha'))
    | succ i =>
      cases j with
      | zero =>
        obtain rfl : b = l' := by simpa using h'
        exact absurd rfl (hdisj a ha' a (mem_flatten_of_get (by simpa using h) ha))
      | succ j =>
        have hij : i = j := ih hndB (by simpa using h) (by simpa using h')
        rw [hij]

end Buckets

end Ming.Foundation
