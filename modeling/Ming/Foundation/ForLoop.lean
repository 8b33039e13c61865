import Mathlib.Data.List.Basic
import Ming.Foundation.Outcome

/-!
# The `for` statement

`for (…; test; step) body` over a state: the test may store into the locals of the loop, so it
returns what the body and the step find there, and the cursor is what only the test and the
step see. The loop returns the locals of every round in order. An invariant speaks about the
elements that were visited and those that are still to come.
-/

set_option autoImplicit false

namespace Ming.Foundation

variable {σ κ ι α : Type}

/-- `for (…; test; step) body`, with the state and the cursor at the first test. -/
def forLoop (test : σ → κ → Outcome (Option ι)) (body : σ → ι → Outcome σ)
    (step : σ → ι → Outcome κ) : ℕ → σ → κ → Outcome (σ × List ι)
  | 0, _, _ => .error .outOfFuel
  | n + 1, s, k => do
    match ← test s k with
    | none => pure (s, [])
    | some i => do
      let s ← body s i
      let k ← step s i
      let (s, rounds) ← forLoop test body step n s k
      pure (s, i :: rounds)

variable {test : σ → κ → Outcome (Option ι)} {body : σ → ι → Outcome σ}
variable {step : σ → ι → Outcome κ} {s s' : σ} {k k' : κ} {i : ι} {n : ℕ}

/-- INTERNAL: a loop whose test says to stop. -/
theorem forLoop_end (ht : test s k = .ok none) :
    forLoop test body step (n + 1) s k = .ok (s, []) := by
  rw [forLoop, ht]
  rfl

/-- INTERNAL: one round, and the rounds after it. -/
theorem forLoop_round {rounds : List ι} (ht : test s k = .ok (some i)) (hb : body s i = .ok s')
    (hk : step s' i = .ok k') {s'' : σ} (hr : forLoop test body step n s' k' = .ok (s'', rounds)) :
    forLoop test body step (n + 1) s k = .ok (s'', i :: rounds) := by
  rw [forLoop, ht]
  simp only [Outcome.ok_bind, hb, hk, hr, Outcome.pure_eq_ok]

/-- INTERNAL: one round more. -/
theorem forLoop_approx (n : ℕ) (s : σ) (k : κ) :
    Outcome.Approx (forLoop test body step n s k) (forLoop test body step (n + 1) s k) := by
  induction n generalizing s k with
  | zero => exact Outcome.Approx.outOfFuel _
  | succ n ih =>
    rw [forLoop, forLoop]
    refine (Outcome.Approx.refl _).bind fun o => ?_
    cases o with
    | none => exact Outcome.Approx.refl _
    | some i =>
      refine (Outcome.Approx.refl _).bind fun s' => (Outcome.Approx.refl _).bind fun k' => ?_
      exact (ih s' k').bind fun r => Outcome.Approx.refl _

/-- INTERNAL: a loop that returned returns in the same way with more rounds to go. -/
theorem forLoop_of_le {r : σ × List ι} {m : ℕ} (h : forLoop test body step n s k = .ok r)
    (hm : n ≤ m) : forLoop test body step m s k = .ok r :=
  (Outcome.Approx.of_succ (fun i => forLoop_approx i s k) hm).eq_ok h

section Visits

variable (test body step) (Inv : List α → List α → σ → κ → Prop) (elem : ι → α)

/-- INTERNAL: a loop that visits the elements of a list in order, from the middle on. The
induction is on the elements to come. -/
theorem forLoop_visits_from
    (hend : ∀ done s k, Inv done [] s k → test s k = .ok none)
    (hround : ∀ done a rest s k, Inv done (a :: rest) s k → ∃ i s' k', test s k = .ok (some i) ∧
      elem i = a ∧ body s i = .ok s' ∧ step s' i = .ok k' ∧ Inv (done ++ [a]) rest s' k')
    {done rest : List α} (h : Inv done rest s k) (hn : rest.length < n) :
    ∃ s' k' rounds, forLoop test body step n s k = .ok (s', rounds) ∧ rounds.map elem = rest ∧
      Inv (done ++ rest) [] s' k' := by
  induction rest generalizing done s k n with
  | nil =>
    obtain ⟨n, rfl⟩ := Nat.exists_eq_add_of_lt hn
    refine ⟨s, k, [], ?_, rfl, by simpa using h⟩
    rw [List.length_nil, Nat.zero_add]
    exact forLoop_end (hend done s k h)
  | cons a rest ih =>
    obtain ⟨n, rfl⟩ : ∃ j, n = j + 1 := ⟨n - 1, by omega⟩
    obtain ⟨i, s', k', ht, ha, hb, hk, h'⟩ := hround done a rest s k h
    have hlen : rest.length < n := by simpa using hn
    obtain ⟨s'', k'', rounds, hr, hmap, hfinal⟩ := ih h' hlen
    refine ⟨s'', k'', i :: rounds, forLoop_round ht hb hk hr, ?_, ?_⟩
    · rw [List.map_cons, ha, hmap]
    · simpa using hfinal

/-- INTERNAL: **a loop over the elements of a list.** The invariant has the visited elements,
those to come, the state and the cursor. -/
theorem forLoop_visits
    (hend : ∀ done s k, Inv done [] s k → test s k = .ok none)
    (hround : ∀ done a rest s k, Inv done (a :: rest) s k → ∃ i s' k', test s k = .ok (some i) ∧
      elem i = a ∧ body s i = .ok s' ∧ step s' i = .ok k' ∧ Inv (done ++ [a]) rest s' k')
    {items : List α} (h : Inv [] items s k) (hn : items.length < n) :
    ∃ s' k' rounds, forLoop test body step n s k = .ok (s', rounds) ∧ rounds.map elem = items ∧
      Inv items [] s' k' :=
  forLoop_visits_from test body step Inv elem hend hround h hn

end Visits

section Links

variable {stop : κ} {items : List κ}

/-- INTERNAL: **a loop along links** that looks at the state only. -/
theorem forLoop_links [DecidableEq κ] {link : σ → κ → Outcome κ} (hne : ∀ a ∈ items, a ≠ stop)
    (hlink : ∀ done a rest, items = done ++ a :: rest → link s a = .ok (rest.headD stop))
    (hn : items.length < n) :
    forLoop (fun _ k => .ok (if k = stop then none else some k)) (fun s _ => .ok s) link n s
      (items.headD stop) = .ok (s, items) := by
  obtain ⟨s', k, rounds, e, hmap, rfl, -⟩ := forLoop_visits
    (fun _ k => .ok (if k = stop then none else some k)) (fun s _ => .ok s) link
    (fun done rest s' k => s' = s ∧ k = rest.headD stop ∧ items = done ++ rest) id
    (fun done s' k hinv => by
      rw [hinv.2.1]
      exact congrArg _ (if_pos rfl))
    (fun done a rest s' k hinv => by
      obtain ⟨rfl, hk, hsplit⟩ := hinv
      obtain rfl : k = a := hk
      have hstop : k ≠ stop := hne k (by rw [hsplit]; simp)
      refine ⟨k, s', rest.headD stop, congrArg _ (if_neg hstop), rfl, rfl,
        hlink done k rest hsplit, rfl, rfl, ?_⟩
      rw [hsplit, List.append_assoc]
      rfl) ⟨rfl, rfl, rfl⟩ hn
  rw [e, ← hmap, List.map_id]

/-- INTERNAL: **a loop along links that are read before the body.** The body may change the
state as it likes, as long as the saved element is the next one to come. -/
theorem forLoop_saved (test : σ → κ → Outcome (Option (κ × κ))) (body : σ → κ → Outcome σ)
    (Inv : List κ → List κ → σ → Prop)
    (hend : ∀ done s, Inv done [] s → test s stop = .ok none)
    (hround : ∀ done a rest s, Inv done (a :: rest) s →
      test s a = .ok (some (a, rest.headD stop)) ∧
        ∃ s', body s a = .ok s' ∧ Inv (done ++ [a]) rest s')
    (h : Inv [] items s) (hn : items.length < n) :
    ∃ s' rounds, forLoop test (fun s i => body s i.1) (fun _ i => .ok i.2) n s
      (items.headD stop) = .ok (s', rounds) ∧ rounds.map Prod.fst = items ∧ Inv items [] s' := by
  obtain ⟨s', k, rounds, e, hmap, hfinal, -⟩ := forLoop_visits test (fun s i => body s i.1)
    (fun _ i => .ok i.2) (fun done rest s k => Inv done rest s ∧ k = rest.headD stop) Prod.fst
    (fun done s k hinv => by
      rw [hinv.2]
      exact hend done s hinv.1)
    (fun done a rest s k hinv => by
      obtain ⟨hinv, hk⟩ := hinv
      obtain rfl : k = a := hk
      obtain ⟨htest, s', hbody, hinv'⟩ := hround done k rest s hinv
      exact ⟨(k, rest.headD stop), s', _, htest, rfl, hbody, rfl, hinv', rfl⟩) ⟨h, rfl⟩ hn
  exact ⟨s', rounds, e, hmap, hfinal⟩

end Links

/-- INTERNAL: **a loop that counts up to a bound**, which the body does not move. -/
theorem forLoop_count {w N : ℕ} (Inv : ℕ → σ → Prop) (bound : σ → BitVec w)
    (body : σ → BitVec w → Outcome σ) (hbound : ∀ i s, Inv i s → (bound s).toNat = N)
    (hbody : ∀ i s, i < N → Inv i s → ∃ s', body s (BitVec.ofNat w i) = .ok s' ∧ Inv (i + 1) s')
    (h : Inv 0 s) (hn : N < n) :
    ∃ s', forLoop (fun s pos => .ok (if pos < bound s then some pos else none)) body
      (fun _ pos => .ok (pos + 1)) n s 0 = .ok (s', (List.range N).map (BitVec.ofNat w)) ∧
      Inv N s' := by
  have hlt : N < 2 ^ w := hbound 0 s h ▸ (bound s).isLt
  have hinit : [] ++ List.range N = List.range N ∧ (0 : BitVec w) = BitVec.ofNat w 0 ∧ Inv 0 s :=
    ⟨rfl, rfl, h⟩
  obtain ⟨s', pos, rounds, e, hmap, -, -, hfinal⟩ := forLoop_visits
    (fun s pos => .ok (if pos < bound s then some pos else none)) body
    (fun _ pos => .ok (pos + 1))
    (fun done rest s pos => done ++ rest = List.range N ∧ pos = BitVec.ofNat w done.length ∧
      Inv done.length s) BitVec.toNat
    (fun done s pos hinv => by
      obtain ⟨hsplit, rfl, hinv⟩ := hinv
      have hlen : done.length = N := by simpa using congrArg List.length hsplit
      refine congrArg _ (if_neg ?_)
      rw [BitVec.lt_def, hbound _ _ hinv, hlen, BitVec.toNat_ofNat, Nat.mod_eq_of_lt hlt]
      exact lt_irrefl _)
    (fun done a rest s pos hinv => by
      obtain ⟨hsplit, rfl, hinv⟩ := hinv
      have hlen : done.length < N := by
        have := congrArg List.length hsplit
        simp only [List.length_append, List.length_cons, List.length_range] at this
        omega
      have ha : a = done.length := by
        have := congrArg (fun l => l[done.length]?) hsplit
        simpa [List.getElem?_range hlen] using this
      have hpos : (BitVec.ofNat w done.length).toNat = done.length := by
        rw [BitVec.toNat_ofNat]
        exact Nat.mod_eq_of_lt (hlen.trans hlt)
      obtain ⟨s', e, hinv'⟩ := hbody done.length s hlen hinv
      refine ⟨_, s', _, congrArg _ (if_pos ?_), hpos.trans ha.symm, e, rfl, ?_, ?_, ?_⟩
      · rw [BitVec.lt_def, hpos, hbound _ _ hinv]
        exact hlen
      · rw [List.append_assoc]
        exact hsplit
      · rw [List.length_append, List.length_singleton, BitVec.ofNat_add]
        rfl
      · rw [List.length_append, List.length_singleton]
        exact hinv') hinit (n := n) (by rw [List.length_range]; exact hn)
  have hrounds : rounds = (rounds.map BitVec.toNat).map (BitVec.ofNat w) := by
    rw [List.map_map]
    refine (List.map_id rounds).symm.trans (List.map_congr_left fun x _ => ?_)
    exact ((BitVec.ofNat_toNat w x).trans (BitVec.setWidth_eq x)).symm
  refine ⟨s', ?_, by rwa [List.length_range] at hfinal⟩
  rw [e, hrounds, hmap]

/-- INTERNAL: the positions that such a loop goes through. -/
theorem forLoop_positions {w : ℕ} (bound : BitVec w) (hn : bound.toNat < n) :
    forLoop (fun _ pos => .ok (if pos < bound then some pos else none)) (fun s _ => .ok s)
      (fun _ pos => .ok (pos + 1)) n s 0 =
        .ok (s, (List.range bound.toNat).map (BitVec.ofNat w)) := by
  obtain ⟨s', e, rfl⟩ := forLoop_count (fun _ s' => s' = s) (fun _ => bound) (fun s _ => .ok s)
    (fun _ _ _ => rfl) (fun _ s' _ hs => ⟨s', rfl, hs⟩) rfl hn
  exact e

/-- INTERNAL: a loop that returned has ended at once, or after a first round. -/
theorem forLoop_eq_ok {r : σ × List ι} (h : forLoop test body step (n + 1) s k = .ok r) :
    (test s k = .ok none ∧ r = (s, [])) ∨ ∃ i s' k' r', test s k = .ok (some i) ∧
      body s i = .ok s' ∧ step s' i = .ok k' ∧ forLoop test body step n s' k' = .ok r' ∧
      r = (r'.1, i :: r'.2) := by
  rw [forLoop] at h
  obtain ⟨o, ht, h⟩ := Outcome.bind_eq_ok.mp h
  cases o with
  | none => exact Or.inl ⟨ht, (Except.ok.inj h).symm⟩
  | some i =>
    obtain ⟨s', hb, h⟩ := Outcome.bind_eq_ok.mp h
    obtain ⟨k', hk, h⟩ := Outcome.bind_eq_ok.mp h
    obtain ⟨r', hr, h⟩ := Outcome.bind_eq_ok.mp h
    exact Or.inr ⟨i, s', k', r', ht, hb, hk, hr, (Except.ok.inj h).symm⟩

/-- INTERNAL: a loop that returned has returned from the state after a known first round. -/
theorem forLoop_after_round (ht : test s k = .ok (some i)) (hb : body s i = .ok s')
    (hk : step s' i = .ok k') {r : σ × List ι} (h : forLoop test body step n s k = .ok r) :
    ∃ j r', forLoop test body step j s' k' = .ok r' := by
  cases n with
  | zero => cases h
  | succ n =>
    rcases forLoop_eq_ok h with ⟨ht', -⟩ | ⟨i', s₁, k₁, r', ht', hb', hk', hr, -⟩
    · cases ht.symm.trans ht'
    · obtain rfl := Option.some.inj (Except.ok.inj (ht.symm.trans ht'))
      obtain rfl := Except.ok.inj (hb.symm.trans hb')
      obtain rfl := Except.ok.inj (hk.symm.trans hk')
      exact ⟨n, r', hr⟩

/-- INTERNAL: **a loop that does not look at its state** folds its body over the rounds, which are
those of a loop that returned with a body that changes nothing. -/
theorem forLoop_eq_foldlM {τ : Type} {scan : τ → κ → Outcome (Option ι)} {look : τ → ι → Outcome τ}
    {link : τ → ι → Outcome κ} {t t' : τ} {rounds : List ι}
    (hlook : ∀ t i t', look t i = .ok t' → t' = t)
    (h : forLoop scan look link n t k = .ok (t', rounds)) (body : σ → ι → Outcome σ) (s : σ) :
    (do
      let r ← forLoop (fun _ k => scan t k) body (fun _ i => link t i) n s k
      pure r.1) = rounds.foldlM body s := by
  induction n generalizing s k t' rounds with
  | zero => cases h
  | succ n ih =>
    rw [forLoop]
    rcases forLoop_eq_ok h with ⟨ht, e⟩ | ⟨i, t₁, k', r', ht, hb, hk, hr, e⟩
    · obtain rfl : rounds = [] := congrArg Prod.snd e
      rw [ht]
      rfl
    · obtain rfl : rounds = i :: r'.2 := congrArg Prod.snd e
      obtain rfl := hlook t i t₁ hb
      rw [ht, List.foldlM_cons, Outcome.ok_bind]
      dsimp only
      cases body s i with
      | error e => rfl
      | ok s' =>
        have hrest := ih hr s'
        rw [Outcome.ok_bind, Outcome.ok_bind, hk, Outcome.ok_bind, ← hrest]
        cases forLoop (fun _ k => scan t₁ k) body (fun _ i => link t₁ i) n s' k' <;> rfl

/-- INTERNAL: a loop whose test goes wrong does not return. -/
theorem forLoop_fault {e : Fault} (ht : test s k = .error e) (r : σ × List ι) :
    forLoop test body step n s k ≠ .ok r := by
  intro h
  cases n with
  | zero => cases h
  | succ n =>
    rcases forLoop_eq_ok h with ⟨ht', -⟩ | ⟨i', s', k', r', ht', -⟩
    · cases ht.symm.trans ht'
    · cases ht.symm.trans ht'

/-- INTERNAL: a body that leaves the state alone. -/
theorem forLoop_state (hbody : ∀ s i s', body s i = .ok s' → s' = s) {r : σ × List ι}
    (h : forLoop test body step n s k = .ok r) : r.1 = s := by
  induction n generalizing s k r with
  | zero => cases h
  | succ n ih =>
    rcases forLoop_eq_ok h with ⟨-, rfl⟩ | ⟨i, s', k', r', -, hb, -, hr, rfl⟩
    · rfl
    · exact (ih hr).trans (hbody s i s' hb)

end Ming.Foundation
