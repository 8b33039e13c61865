import Ming.Foundation.LinkedChain
import Ming.Model.Hash

/-!
# What the memory of a hash table represents

`Table` relates a buffer of heads and the `next` fields to a list of buckets, and `Buckets`
does so for a whole table, with its counters. Where a node stands is not part of it:
`PlacedBy` says that separately, since a caller may insert under any hash value.
-/

set_option autoImplicit false

namespace Ming.Interface

open Ming.Foundation Ming.Model

/-- The heads and links represent the buckets `B`. -/
structure Table (next : Ptr → Ptr) (lists : List Ptr) (B : List (List Ptr)) : Prop where
  length : lists.length = B.length
  chains : ∀ (i : ℕ) (head : Ptr) (l : List Ptr), lists[i]? = some head → B[i]? = some l →
    Chain next NULL head l

/-- Every node stands in the bucket that `f` names. -/
def PlacedBy (f : Ptr → ℕ) (B : List (List Ptr)) : Prop :=
  ∀ (i : ℕ) (l : List Ptr), B[i]? = some l → ∀ p ∈ l, f p = i

/-- `m` holds the buckets `B`: the chains, no node twice, and both counters; `size` counts
modulo `2 ^ 32`. -/
structure Buckets (m : HashMem) (B : List (List Ptr)) : Prop where
  table : Table m.next m.hash.lists B
  nlist : m.hash.nlist.toNat = B.length
  nodup : B.flatten.Nodup
  size : m.hash.size = BitVec.ofNat 32 B.flatten.length

namespace Table

variable {next : Ptr → Ptr} {lists : List Ptr} {B : List (List Ptr)} {i : ℕ}

/-- INTERNAL: the head and the nodes of one list. -/
theorem at_pos (h : Table next lists B) (hi : i < B.length) :
    ∃ head l, lists[i]? = some head ∧ B[i]? = some l ∧ Chain next NULL head l := by
  have hi' : i < lists.length := h.length ▸ hi
  refine ⟨lists[i], B[i], List.getElem?_eq_getElem hi', List.getElem?_eq_getElem hi, ?_⟩
  exact h.chains i _ _ (List.getElem?_eq_getElem hi') (List.getElem?_eq_getElem hi)

/-- INTERNAL: `NULL` is not a node. -/
theorem ne_null (h : Table next lists B) {p : Ptr} (hp : p ∈ B.flatten) : p ≠ NULL := by
  obtain ⟨l, hl, hpl⟩ := List.mem_flatten.mp hp
  obtain ⟨i, hi, rfl⟩ := List.mem_iff_getElem.mp hl
  obtain ⟨head, l, -, hB, hc⟩ := h.at_pos hi
  rw [List.getElem?_eq_getElem hi, Option.some.injEq] at hB
  rw [hB] at hpl
  exact hc.ne_null hpl

/-- INTERNAL: links that agree on the nodes make the same table. -/
theorem congr {next' : Ptr → Ptr} (h : Table next lists B)
    (hn : ∀ p ∈ B.flatten, next' p = next p) : Table next' lists B := by
  refine ⟨h.length, fun i head l hl hB => ?_⟩
  exact (h.chains i head l hl hB).congr fun p hp => hn p (mem_flatten_of_get hB hp)

/-- INTERNAL: a cleared buffer. -/
theorem replicate (n : ℕ) : Table next (List.replicate n NULL) (List.replicate n []) := by
  refine ⟨by simp, fun i head l hl hB => ?_⟩
  rw [List.getElem?_replicate] at hl hB
  split_ifs at hl hB
  cases hl
  cases hB
  rfl

/-- INTERNAL: a bucket whose chain, head and links changed together. -/
theorem set {next' : Ptr → Ptr} {head : Ptr} {l l' : List Ptr} (h : Table next lists B)
    (hB : B[i]? = some l) (hnd : B.flatten.Nodup)
    (hc : Chain next' NULL head l') (hn : ∀ p ∈ B.flatten, p ∉ l → next' p = next p) :
    Table next' (lists.set i head) (B.set i l') := by
  have hi : i < B.length := (List.getElem?_eq_some_iff.mp hB).1
  refine ⟨by simpa using h.length, fun j head₁ l₁ hl₁ hB₁ => ?_⟩
  rw [List.getElem?_set] at hl₁ hB₁
  by_cases hij : i = j
  · subst hij
    rw [if_pos rfl] at hl₁ hB₁
    rw [if_pos (h.length ▸ hi)] at hl₁
    rw [if_pos hi] at hB₁
    cases hl₁
    cases hB₁
    exact hc
  · rw [if_neg hij] at hl₁ hB₁
    refine (h.chains j head₁ l₁ hl₁ hB₁).congr fun p hp => ?_
    exact hn p (mem_flatten_of_get hB₁ hp) fun hpl => hij (bucket_unique hnd hB hB₁ hpl hp)

/-- INTERNAL: a new node linked in front of a bucket. -/
theorem push {node head : Ptr} {l : List Ptr} (h : Table next lists B) (hn : node ≠ NULL)
    (hfresh : node ∉ B.flatten) (hnd : B.flatten.Nodup) (hl : lists[i]? = some head)
    (hB : B[i]? = some l) :
    Table (Function.update next node head) (lists.set i node) (B.set i (node :: l)) := by
  refine h.set hB hnd ⟨rfl, hn, ?_⟩ fun p hp _ => Function.update_of_ne ?_ _ _
  · rw [Function.update_self]
    exact (h.chains i head l hl hB).update_of_notMem fun hm => hfresh (mem_flatten_of_get hB hm)
  · rintro rfl
    exact hfresh hp

end Table

/-- INTERNAL: a memory holds one table of buckets. -/
theorem Buckets.unique {m : HashMem} {B B' : List (List Ptr)} (h : Buckets m B)
    (h' : Buckets m B') : B = B' := by
  refine List.ext_getElem (h.nlist.symm.trans h'.nlist) fun i hi hi' => ?_
  obtain ⟨head, l, hl, hB, hc⟩ := h.table.at_pos hi
  have hc' := h'.table.chains i head _ hl (List.getElem?_eq_getElem hi')
  rw [List.getElem?_eq_getElem hi, Option.some.injEq] at hB
  rw [hB]
  exact hc.unique hc'

namespace PlacedBy

variable {f : Ptr → ℕ} {B : List (List Ptr)} {i : ℕ}

/-- INTERNAL: a bucket replaced by nodes that belong there. -/
theorem set {l : List Ptr} (h : PlacedBy f B) (hl : ∀ p ∈ l, f p = i) :
    PlacedBy f (B.set i l) := by
  intro j l' hj p hp
  rw [List.getElem?_set] at hj
  by_cases hij : i = j
  · subst hij
    rw [if_pos rfl] at hj
    split_ifs at hj
    cases hj
    exact hl p hp
  · rw [if_neg hij] at hj
    exact h j l' hj p hp

/-- INTERNAL: a node of the table is in the bucket named for it. -/
theorem mem {p : Ptr} (h : PlacedBy f B) (hp : p ∈ B.flatten) :
    ∃ l, B[f p]? = some l ∧ p ∈ l := by
  obtain ⟨l, hl, hpl⟩ := List.mem_flatten.mp hp
  obtain ⟨i, hi, rfl⟩ := List.mem_iff_getElem.mp hl
  have hB : B[i]? = some B[i] := List.getElem?_eq_getElem hi
  rw [h i _ hB p hpl]
  exact ⟨_, hB, hpl⟩

/-- INTERNAL: places that agree on the nodes. -/
theorem congr {f' : Ptr → ℕ} (h : PlacedBy f B) (hf : ∀ p ∈ B.flatten, f' p = f p) :
    PlacedBy f' B := by
  intro i l hB p hp
  rw [hf p (mem_flatten_of_get hB hp)]
  exact h i l hB p hp

end PlacedBy

end Ming.Interface
