import Ming.Foundation.LinkedRing
import Ming.Model.List

/-!
# The list as a sequence of nodes

What a list is for: a sequence of distinct nodes that grows at both ends and loses single nodes.
`IsList` relates the memory to such a sequence, read along either link; the other link leads the
other way.
-/

set_option autoImplicit false

namespace Ming.Interface

open Ming.Foundation Ming.Model

/-! ## Sequences -/

/-- A call of a list function, with the node it gets. -/
inductive ListOp where
  | append (node : Ptr)
  | prepend (node : Ptr)
  | remove (node : Ptr)
  deriving DecidableEq, Repr

/-- The node of a call. -/
def ListOp.node : ListOp → Ptr
  | .append node => node
  | .prepend node => node
  | .remove node => node

/-- The sequence after a call: only a node that is not in it is added, and only a node that is
in it is removed. -/
def ListOp.apply (l : List Ptr) : ListOp → Option (List Ptr)
  | .append node => if l.contains node then none else some (l ++ [node])
  | .prepend node => if l.contains node then none else some (node :: l)
  | .remove node => if l.contains node then some (l.erase node) else none

/-! ## What the memory represents -/

/-- The links `d` lead from `head` through `l` and back, the other links the other way. -/
structure IsList (m : MListMem) (d : MLink) (head : Ptr) (l : List Ptr) : Prop where
  ring : Ring (m.link d) (m.link d.flip) head l
  ne_null : ∀ p ∈ head :: l, p ≠ NULL

namespace IsList

variable {m m' : MListMem} {d : MLink} {head : Ptr} {l : List Ptr}

/-- INTERNAL: the head is not the null address. -/
theorem head_ne_null (h : IsList m d head l) : head ≠ NULL := h.ne_null head List.mem_cons_self

/-- INTERNAL: no node is twice on a list. -/
theorem nodup (h : IsList m d head l) : l.Nodup := (List.nodup_cons.mp h.ring.nodup).2

/-- INTERNAL: the list the other way round. -/
theorem flip (h : IsList m d head l) : IsList m d.flip head l.reverse := by
  constructor
  · rw [MLink.flip_flip]
    exact h.ring.symm
  · intro p hp
    apply h.ne_null p
    simpa using hp

/-- INTERNAL: a list looks at the records of its own nodes only. -/
theorem congr (h : IsList m d head l) (hn : ∀ p ∈ head :: l, m'.node p = m.node p) :
    IsList m' d head l := by
  have hlink : ∀ e, ∀ p ∈ head :: l, m'.link e p = m.link e p := by
    intro e p hp
    cases e with
    | prev => exact congrArg MList.prev (hn p hp)
    | next => exact congrArg MList.next (hn p hp)
  exact ⟨h.ring.congr (hlink d) (hlink d.flip), h.ne_null⟩

end IsList

end Ming.Interface
