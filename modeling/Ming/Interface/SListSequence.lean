import Ming.Foundation.LinkedChain
import Ming.Model.SList

/-!
# What singly linked lists represent

The value of a place and the store to it, without the tests for an access that goes wrong, and
what the functions of m_list.h do where every access is good. Several lists over one memory
represent as many sequences without a common node.
-/

set_option autoImplicit false

namespace Ming.Interface

open Ming.Foundation Ming.Model

variable {η : Type} {live : ℕ → Bool} {m : MSListMem η} {ref : MSListRef η} {node v : ℕ}

/-! ## Places -/

/-- The value of `ref->next`. -/
def fieldOf (m : MSListMem η) : MSListRef η → ℕ
  | .var h => m.head h
  | .addr p => m.next p

/-- The place can be accessed. -/
def Access (live : ℕ → Bool) : MSListRef η → Prop
  | .var _ => True
  | .addr p => p ≠ 0 ∧ live p = true

/-- INTERNAL: a variable is always there. -/
theorem access_var (live : ℕ → Bool) (h : η) : Access live (.var h) := trivial

/-- INTERNAL: a link that can be accessed is loaded. -/
theorem load_ok (h : Access live ref) : m.load live ref = .ok (fieldOf m ref) := by
  cases ref with
  | var _ => rfl
  | addr p => rw [MSListMem.load, if_neg h.1, if_pos h.2, fieldOf]

/-- INTERNAL: what can be accessed is not null. -/
theorem Access.ne_null (h : Access live ref) : ref ≠ .addr 0 := by
  rintro rfl
  exact h.1 rfl

variable [DecidableEq η]

/-- The memory after `ref->next = v`. -/
def setField (m : MSListMem η) (ref : MSListRef η) (v : ℕ) : MSListMem η :=
  match ref with
  | .var h => { m with head := Function.update m.head h v }
  | .addr p => { m with next := Function.update m.next p v }

/-- INTERNAL: a link that can be accessed is stored. -/
theorem store_ok (h : Access live ref) : m.store live ref v = .ok (setField m ref v) := by
  cases ref with
  | var _ => rfl
  | addr p => rw [MSListMem.store, if_neg h.1, if_pos h.2, setField]

/-- INTERNAL: a store into a head keeps the nodes. -/
@[simp] theorem setField_var_next (m : MSListMem η) (h : η) (v : ℕ) :
    (setField m (.var h) v).next = m.next := rfl

/-- INTERNAL: a store into a node keeps the heads. -/
@[simp] theorem setField_addr_head (m : MSListMem η) (p v : ℕ) :
    (setField m (.addr p) v).head = m.head := rfl

/-- INTERNAL: a store into a head. -/
@[simp] theorem setField_var_head (m : MSListMem η) (h : η) (v : ℕ) :
    (setField m (.var h) v).head = Function.update m.head h v := rfl

/-- INTERNAL: a store into a node. -/
@[simp] theorem setField_addr_next (m : MSListMem η) (p v : ℕ) :
    (setField m (.addr p) v).next = Function.update m.next p v := rfl

/-- The memory after `node` was pushed. -/
def pushed (m : MSListMem η) (ref : MSListRef η) (node : ℕ) : MSListMem η :=
  setField (setField m (.addr node) (fieldOf m ref)) ref node

/-! ## The functions -/

/-- INTERNAL: **`m_slist_init`**.
SOURCE: m_list.h:229-235 -/
theorem slistInit_ok (h : Access live ref) : mSListInit live m ref = .ok (setField m ref 0) := by
  rw [mSListInit, if_neg h.ne_null, store_ok h]

omit [DecidableEq η] in
/-- INTERNAL: **`m_slist_empty`**.
SOURCE: m_list.h:243-247 -/
theorem slistEmpty_ok (h : Access live ref) :
    mSListEmpty live m ref = .ok (decide (fieldOf m ref = 0)) := by
  rw [mSListEmpty, load_ok h]
  rfl

/-- INTERNAL: **`m_slist_push`** of a node.
SOURCE: m_list.h:254-261 -/
theorem slistPush_ok (h : Access live ref) (hnode : Access live (.addr node : MSListRef η)) :
    mSListPush live m ref node = .ok (pushed m ref node) := by
  rw [mSListPush, if_neg (not_or.mpr ⟨h.ne_null, hnode.1⟩), load_ok h, Outcome.ok_bind,
    store_ok hnode, Outcome.ok_bind, store_ok h]
  rfl

/-- INTERNAL: **`m_slist_pop`** of an empty list.
SOURCE: m_list.h:268-280 -/
theorem slistPop_empty (h : Access live ref) (hempty : fieldOf m ref = 0) :
    mSListPop live m ref = .ok (0, m) := by
  rw [mSListPop, if_neg h.ne_null, load_ok h, Outcome.ok_bind, hempty]
  rfl

/-- INTERNAL: **`m_slist_pop`** of the first node.
SOURCE: m_list.h:268-280 -/
theorem slistPop_ok (h : Access live ref) (hfirst : fieldOf m ref = node)
    (hnode : Access live (.addr node : MSListRef η)) :
    mSListPop live m ref = .ok (node, setField m ref (m.next node)) := by
  rw [mSListPop, if_neg h.ne_null, load_ok h, Outcome.ok_bind, hfirst, if_pos hnode.1,
    load_ok hnode, Outcome.ok_bind, store_ok h]
  rfl

/-! ## Several lists -/

variable {L : η → List ℕ} {h : η} {rest : List ℕ}

/-- The lists of all heads lie in one memory. -/
def IsSLists {η : Type} (m : MSListMem η) (L : η → List ℕ) : Prop :=
  ∀ h, Chain m.next 0 (m.head h) (L h)

omit [DecidableEq η] in
/-- INTERNAL: lists only look at their heads and at the links of their nodes. -/
theorem IsSLists.congr {m' : MSListMem η} (hm : IsSLists m L) (hhead : m'.head = m.head)
    (hnext : ∀ h, ∀ p ∈ L h, m'.next p = m.next p) : IsSLists m' L := by
  intro h
  rw [hhead]
  exact (hm h).congr (hnext h)

/-- INTERNAL: a node that is on no list is pushed on one. -/
theorem IsSLists.push (hm : IsSLists m L) (hne : node ≠ 0) (hnot : ∀ h', node ∉ L h') (h : η) :
    IsSLists (pushed m (.var h) node) (Function.update L h (node :: L h)) := by
  intro h'
  have hold : Chain (pushed m (.var h) node).next 0 (m.head h') (L h') :=
    (hm h').update_of_notMem (hnot h')
  by_cases he : h' = h
  · subst he
    have hhead : (pushed m (.var h') node).head h' = node := Function.update_self ..
    have hnext : (pushed m (.var h') node).next node = m.head h' := Function.update_self ..
    rw [Function.update_self, hhead]
    refine ⟨rfl, hne, ?_⟩
    rwa [hnext]
  · have hhead : (pushed m (.var h) node).head h' = m.head h' := Function.update_of_ne he _ _
    rw [Function.update_of_ne he, hhead]
    exact hold

/-- INTERNAL: the first node is popped. -/
theorem IsSLists.pop (hm : IsSLists m L) (hl : L h = node :: rest) :
    m.head h = node ∧
      IsSLists (setField m (.var h) (m.next node)) (Function.update L h rest) := by
  have hh := hm h
  rw [hl] at hh
  refine ⟨hh.1, fun h' => ?_⟩
  by_cases he : h' = h
  · subst he
    rw [setField_var_head, Function.update_self, Function.update_self]
    exact hh.2.2
  · rw [setField_var_head, Function.update_of_ne he, Function.update_of_ne he]
    exact hm h'

/-- INTERNAL: a head is emptied. -/
theorem IsSLists.init (hm : IsSLists m L) (h : η) :
    IsSLists (setField m (.var h) 0) (Function.update L h []) := by
  intro h'
  by_cases he : h' = h
  · subst he
    rw [setField_var_head, Function.update_self, Function.update_self]
    rfl
  · rw [setField_var_head, Function.update_of_ne he, Function.update_of_ne he]
    exact hm h'

omit [DecidableEq η] in
/-- INTERNAL: an empty list. -/
theorem IsSLists.head_eq_zero (hm : IsSLists m L) (h : η) : m.head h = 0 ↔ L h = [] := by
  have hh := hm h
  cases hl : L h with
  | nil =>
    rw [hl] at hh
    exact iff_of_true hh rfl
  | cons a l =>
    rw [hl] at hh
    exact iff_of_false (hh.1 ▸ hh.2.1) (by simp)

end Ming.Interface
