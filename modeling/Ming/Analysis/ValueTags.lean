import Ming.Foundation.TaggedWord
import Ming.Model.Value

/-!
# The tags of values

A word that a constructor has built is recognised by the classifier of its kind and by no
other one, and the getter of its kind returns what went in. `m_value_from_double` does not put
the tag of a double into the word, so this holds of every kind but the doubles.
-/

set_option autoImplicit false

namespace Ming.Analysis

open Ming.Foundation Ming.Model

/-- The kinds that the classifiers tell apart. -/
inductive ValueKind where
  | bool
  | int
  | double
  | string
  | null
  | object
  | closure
  | array
  deriving DecidableEq

/-- What a value can be built from. -/
inductive ValuePayload where
  | bool (b : Bool)
  | int (i : BitVec 32)
  | double (d : BitVec 64)
  | string (str : Ptr)
  | object (obj : Ptr)
  | closure (clos : Ptr)
  | array (array : Ptr)

/-- The kind of what a value holds. -/
def ValuePayload.kind : ValuePayload → ValueKind
  | .bool _ => .bool
  | .int _ => .int
  | .double _ => .double
  | .string _ => .string
  | .object _ => .object
  | .closure _ => .closure
  | .array _ => .array

/-- Strings are eight-byte aligned, the targets of pointers four-byte aligned; none is NULL. -/
def ValuePayload.Aligned : ValuePayload → Prop
  | .string p => p ≠ 0 ∧ p &&& M_VALUE_TYPE_MASK = 0
  | .object p | .closure p | .array p => p ≠ 0 ∧ p &&& M_PTR_TYPE_MASK = 0
  | _ => True

/-- The constructor of the payload's kind. -/
def buildValue (mem : ValueMem) (cell : Ptr) : ValuePayload → Outcome (ValueMem × MValue)
  | .bool b => pure (mem, mValueFromBool b)
  | .int i => pure (mem, mValueFromInt i)
  | .double d => mValueFromDouble mem cell d
  | .string p => pure (mem, mValueFromString p)
  | .object p => mValueFromObject mem cell p
  | .closure p => mValueFromClosure mem cell p
  | .array p => mValueFromArray mem cell p

/-- The classifier of a kind. -/
def isKind (mem : ValueMem) (v : MValue) : ValueKind → Outcome Bool
  | .bool => pure (mValueIsBool v)
  | .int => pure (mValueIsInt v)
  | .double => pure (mValueIsDouble v)
  | .string => pure (mValueIsString v)
  | .null => mValueIsNull mem v
  | .object => mValueIsObject mem v
  | .closure => mValueIsClosure mem v
  | .array => mValueIsArray mem v

/-- The getter of the payload's kind, applied to the word. -/
def readBack (mem : ValueMem) (v : MValue) : ValuePayload → Outcome ValuePayload
  | .bool _ => do
    let b ← mValueGetBool v
    pure (.bool b)
  | .int _ => do
    let i ← mValueGetInt v
    pure (.int i)
  | .double _ => do
    let d ← mValueGetDouble mem v
    pure (.double d)
  | .string _ => do
    let p ← mValueGetString v
    pure (.string p)
  | .object _ => do
    let p ← mValueGetObject mem v
    pure (.object p)
  | .closure _ => do
    let p ← mValueGetClosure mem v
    pure (.closure p)
  | .array _ => do
    let p ← mValueGetArray mem v
    pure (.array p)

/-- The word is of the payload's kind only, and reads back, integers apart. -/
structure Unambiguous (mem : ValueMem) (v : MValue) (p : ValuePayload) : Prop where
  kind : ∀ k, isKind mem v k = .ok (decide (k = p.kind))
  payload : p.kind ≠ .int → readBack mem v p = .ok p

variable {mem mem' mem₁ : ValueMem} {v : MValue} {cell p x type : UIntPtr}

/-! ## Words with a tag of their own -/

/-- INTERNAL: the tag decides the classifiers that look at the word only. -/
theorem isBool_of_tag (h : v &&& M_VALUE_TYPE_MASK ≠ 4) : mValueIsBool v = false := by
  have ht : v ≠ M_VALUE_TRUE := ne_of_tag_ne h
  have hf : v ≠ M_VALUE_FALSE := ne_of_tag_ne h
  unfold mValueIsBool
  rw [beq_false_of_ne ht, beq_false_of_ne hf]
  rfl

/-- INTERNAL: a word with a tag that is not that of a pointer is not dereferenced. -/
theorem isPtr_of_tag (h : v &&& M_VALUE_TYPE_MASK ≠ M_VALUE_TYPE_PTR) :
    mValueIsNull mem v = .ok false ∧ mValueIsPtr mem v = .ok false ∧
      mValueIsPtrType type mem v = .ok false := by
  have h0 : v ≠ 0 := ne_of_tag_ne h
  have hptr : mValueIsPtr mem v = .ok false := by
    unfold mValueIsPtr
    rw [if_neg h0, if_pos h]
    rfl
  refine ⟨?_, hptr, ?_⟩
  · unfold mValueIsNull
    rw [if_neg h0, if_pos h]
    rfl
  · unfold mValueIsPtrType
    rw [hptr]
    rfl

/-- INTERNAL: the classifiers on a word that has a tag. -/
theorem isKind_of_tag {t : MValue} (ht : v &&& M_VALUE_TYPE_MASK = t) (h4 : t ≠ 4)
    (h0 : t ≠ M_VALUE_TYPE_PTR) (k : ValueKind) :
    isKind mem v k = .ok (match k with
      | .int => t == M_VALUE_TYPE_INT
      | .double => t == M_VALUE_TYPE_DOUBLE
      | .string => t == M_VALUE_TYPE_STRING
      | _ => false) := by
  subst ht
  cases k with
  | bool => exact congrArg Except.ok (isBool_of_tag h4)
  | int | double | string => rfl
  | null => exact (@isPtr_of_tag mem v 0 h0).1
  | object | closure | array => exact (isPtr_of_tag h0).2.2

/-! ## Words that point to a cell -/

/-- INTERNAL: the pointer classifiers follow the word. -/
theorem isPtr_of_cell (hv : v ≠ 0) (ht : v &&& M_VALUE_TYPE_MASK = M_VALUE_TYPE_PTR)
    (hx : mem v = some x) :
    mValueIsNull mem v = .ok (x == 0) ∧ mValueIsPtr mem v = .ok (x != 0) := by
  unfold mValueIsNull mValueIsPtr loadWord
  rw [if_neg hv, if_neg hv, if_neg (not_not.mpr ht), if_neg (not_not.mpr ht), hx]
  exact ⟨rfl, rfl⟩

/-- INTERNAL: the classifiers on a word that points to a cell. -/
theorem isKind_of_cell (hv : v ≠ 0) (ht : v &&& M_VALUE_TYPE_MASK = M_VALUE_TYPE_PTR)
    (hx : mem v = some x) (hx0 : x ≠ 0) (k : ValueKind) :
    isKind mem v k = .ok (match k with
      | .object => x &&& M_PTR_TYPE_MASK == M_PTR_TYPE_OBJECT
      | .closure => x &&& M_PTR_TYPE_MASK == M_PTR_TYPE_CLOSURE
      | .array => x &&& M_PTR_TYPE_MASK == M_PTR_TYPE_ARRAY
      | _ => false) := by
  obtain ⟨hnull, hptr⟩ := isPtr_of_cell hv ht hx
  have hptr : mValueIsPtr mem v = .ok true := by rw [hptr, bne_iff_ne.mpr hx0]
  have htype : ∀ type, mValueIsPtrType type mem v = .ok (x &&& M_PTR_TYPE_MASK == type) := by
    intro type
    unfold mValueIsPtrType loadWord
    rw [hptr, hx]
    rfl
  cases k with
  | bool => exact congrArg Except.ok (isBool_of_tag (by rw [ht]; decide))
  | int | double | string =>
    refine congrArg Except.ok (beq_false_of_ne ?_)
    rw [ht]
    decide
  | null => exact hnull.trans (congrArg Except.ok (beq_false_of_ne hx0))
  | object | closure | array => exact htype _

/-- INTERNAL: a typed pointer comes back from its cell. -/
theorem getPtrType_of_cell (hv : v ≠ 0) (ht : v &&& M_VALUE_TYPE_MASK = M_VALUE_TYPE_PTR)
    (hx : mem v = some x) (hx0 : x ≠ 0) (htype : x &&& M_PTR_TYPE_MASK = type) :
    mValueGetPtrType type mem v = .ok (x &&& ~~~M_PTR_TYPE_MASK) := by
  have hptr : mValueIsPtr mem v = .ok true := by
    rw [(isPtr_of_cell hv ht hx).2, bne_iff_ne.mpr hx0]
  unfold mValueGetPtrType mValueIsPtrType mValueGetPtr loadWord
  rw [hptr, hx]
  simp only [Outcome.ok_bind, Outcome.pure_eq_ok, if_true]
  rw [if_pos (beq_iff_eq.mpr htype)]

/-! ## The constructors -/

/-- INTERNAL: a constructor that uses a cell. -/
theorem storeCell_eq_ok (h : storeCell mem cell x = .ok (mem', v)) (hm : mem₁ cell = mem' cell) :
    v = cell ∧ cell ≠ 0 ∧ mem₁ cell = some x := by
  unfold storeCell at h
  split at h
  · exact nomatch h
  · rename_i hc
    obtain ⟨rfl, rfl⟩ := Prod.mk.inj (Except.ok.inj h)
    exact ⟨rfl, hc, by rw [hm, Function.update_self]⟩

/-- INTERNAL: a typed pointer is not NULL, and its parts can be told apart. -/
theorem typed_pointer (hp : p ≠ 0) (hm : p &&& M_PTR_TYPE_MASK = 0)
    (ht : type &&& M_PTR_TYPE_MASK = type) :
    p ||| type ≠ 0 ∧ (p ||| type) &&& M_PTR_TYPE_MASK = type ∧
      (p ||| type) &&& ~~~M_PTR_TYPE_MASK = p := by
  refine ⟨fun h => hp ?_, tag_or hm ht, payload_or hm ht⟩
  have hpay := payload_or hm ht
  rw [h] at hpay
  exact hpay.symm.trans BitVec.zero_and

/-- INTERNAL: the tag of an integer. -/
theorem tag_fromInt (i : BitVec 32) :
    mValueFromInt i &&& M_VALUE_TYPE_MASK = M_VALUE_TYPE_INT :=
  tag_or shiftLeft_and_low (by decide)

/-- INTERNAL: the tag of a string. -/
theorem tag_fromString {str : Ptr} (h : str &&& M_VALUE_TYPE_MASK = 0) :
    mValueFromString str &&& M_VALUE_TYPE_MASK = M_VALUE_TYPE_STRING :=
  tag_or h (by decide)

/-- INTERNAL: a boolean is nothing else. -/
theorem unambiguous_bool (b : Bool) : Unambiguous mem (mValueFromBool b) (.bool b) := by
  refine ⟨fun k => ?_, fun _ => ?_⟩
  · cases b <;> cases k <;> rfl
  · cases b <;> rfl

/-- INTERNAL: an integer is nothing else. -/
theorem unambiguous_int (i : BitVec 32) : Unambiguous mem (mValueFromInt i) (.int i) := by
  refine ⟨fun k => ?_, fun h => absurd rfl h⟩
  rw [isKind_of_tag (tag_fromInt i) (by decide) (by decide)]
  cases k <;> rfl

/-- INTERNAL: strings. -/
theorem unambiguous_string {str : Ptr} (h : str &&& M_VALUE_TYPE_MASK = 0) :
    Unambiguous mem (mValueFromString str) (.string str) := by
  refine ⟨fun k => ?_, fun _ => ?_⟩
  · rw [isKind_of_tag (tag_fromString h) (by decide) (by decide)]
    cases k <;> rfl
  · have hs : mValueIsString (mValueFromString str) = true := beq_iff_eq.mpr (tag_fromString h)
    have hpay : mValueFromString str &&& ~~~M_VALUE_TYPE_MASK = str := payload_or h (by decide)
    unfold readBack mValueGetString
    rw [if_pos hs, hpay]
    rfl

/-- INTERNAL: typed pointers. -/
theorem unambiguous_cell {p : ValuePayload} {q type : UIntPtr}
    (hp : p = .object q ∧ type = M_PTR_TYPE_OBJECT ∨ p = .closure q ∧ type = M_PTR_TYPE_CLOSURE ∨
      p = .array q ∧ type = M_PTR_TYPE_ARRAY) (hq : q ≠ 0) (hqm : q &&& M_PTR_TYPE_MASK = 0)
    (hcell : cell &&& M_VALUE_TYPE_MASK = 0)
    (hb : mValueFromPtrType type mem cell q = .ok (mem', v)) (hm : mem₁ cell = mem' cell) :
    Unambiguous mem₁ v p := by
  obtain ⟨rfl, hc, hx⟩ := storeCell_eq_ok hb hm
  have ht : type &&& M_PTR_TYPE_MASK = type := by
    rcases hp with ⟨-, rfl⟩ | ⟨-, rfl⟩ | ⟨-, rfl⟩ <;> decide
  obtain ⟨hx0, htype, hpay⟩ := typed_pointer hq hqm ht
  have hget := getPtrType_of_cell hc hcell hx hx0 htype
  rw [hpay] at hget
  refine ⟨fun k => ?_, fun _ => ?_⟩
  · rw [isKind_of_cell hc hcell hx hx0, htype]
    rcases hp with ⟨rfl, rfl⟩ | ⟨rfl, rfl⟩ | ⟨rfl, rfl⟩ <;> cases k <;> rfl
  · rcases hp with ⟨rfl, rfl⟩ | ⟨rfl, rfl⟩ | ⟨rfl, rfl⟩
    · exact congrArg (· >>= fun p => pure (ValuePayload.object p)) hget
    · exact congrArg (· >>= fun p => pure (ValuePayload.closure p)) hget
    · exact congrArg (· >>= fun p => pure (ValuePayload.array p)) hget

/-- INTERNAL: the word of a double is taken for a pointer. -/
theorem not_unambiguous_double {d : BitVec 64} (hcell : cell &&& M_VALUE_TYPE_MASK = 0) :
    ¬ Unambiguous mem cell (.double d) := by
  intro h
  have hk := Except.ok.inj (h.kind .double)
  have hd : mValueIsDouble cell = false := by
    refine beq_false_of_ne ?_
    rw [hcell]
    decide
  exact nomatch hd.symm.trans hk

/-- **Values are unambiguous exactly when they are not doubles.** The word that a constructor
builds is recognised by the classifier of its kind and no other one, and the matching getter
returns the payload (integers apart), if and only if the payload is not a double. The cell is
eight-byte aligned and is not overwritten between construction and use.
SOURCE: m_value.h:63-500 -/
theorem value_tags_iff {p : ValuePayload} (hp : p.Aligned)
    (hcell : cell &&& M_VALUE_TYPE_MASK = 0) (hb : buildValue mem cell p = .ok (mem', v))
    (hm : mem₁ cell = mem' cell) : Unambiguous mem₁ v p ↔ p.kind ≠ .double := by
  cases p with
  | bool b =>
    obtain ⟨rfl, rfl⟩ := Prod.mk.inj (Except.ok.inj hb)
    exact iff_of_true (unambiguous_bool b) nofun
  | int i =>
    obtain ⟨rfl, rfl⟩ := Prod.mk.inj (Except.ok.inj hb)
    exact iff_of_true (unambiguous_int i) nofun
  | double d =>
    obtain ⟨rfl, -, -⟩ := storeCell_eq_ok hb hm
    exact iff_of_false (not_unambiguous_double hcell) fun h => h rfl
  | string str =>
    obtain ⟨rfl, rfl⟩ := Prod.mk.inj (Except.ok.inj hb)
    exact iff_of_true (unambiguous_string hp.2) nofun
  | object q =>
    exact iff_of_true (unambiguous_cell (.inl ⟨rfl, rfl⟩) hp.1 hp.2 hcell hb hm) nofun
  | closure q =>
    exact iff_of_true (unambiguous_cell (.inr (.inl ⟨rfl, rfl⟩)) hp.1 hp.2 hcell hb hm) nofun
  | array q =>
    exact iff_of_true (unambiguous_cell (.inr (.inr ⟨rfl, rfl⟩)) hp.1 hp.2 hcell hb hm) nofun

/-- A closure keeps its kind. -/
theorem value_tags_closure :
    ∃ mem v, mValueFromClosure (fun _ => none) 0x1000 0x2004 = .ok (mem, v) ∧
      Unambiguous mem v (.closure 0x2004) :=
  ⟨_, _, rfl, (value_tags_iff (p := .closure 0x2004) ⟨by decide, by decide⟩
    (show (0x1000 : Ptr) &&& M_VALUE_TYPE_MASK = 0 by decide) rfl rfl).mpr nofun⟩

/-- The word of the double `1.0` is not recognised as one. -/
theorem value_tags_counterexample :
    ¬ ∀ (p : ValuePayload) (mem mem' mem₁ : ValueMem) (cell : Ptr) (v : MValue), p.Aligned →
      cell &&& M_VALUE_TYPE_MASK = 0 → buildValue mem cell p = .ok (mem', v) →
      mem₁ cell = mem' cell → Unambiguous mem₁ v p := by
  intro hall
  exact not_unambiguous_double (show (0x1000 : Ptr) &&& M_VALUE_TYPE_MASK = 0 by decide)
    (hall (.double (Binary64.ofInt 1)) (fun _ => none) _ _ 0x1000 _ trivial (by decide) rfl rfl)

end Ming.Analysis
