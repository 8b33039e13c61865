import Ming.Model.GCOps

/-!
# The cases of a collection

`gc_do_collect` runs without `m_gc_lock`. The registered threads are paused meanwhile, but a thread
that registers itself late is not, and it can take the lock. So a case of the switch is a step of
its own here, and between two cases every thread may perform any operation; inside of a case
nothing else happens.
-/

set_option autoImplicit false

namespace Ming.Model

open Ming.Foundation

/-- One case of the switch, and whether the call returns behind it.
SOURCE: m_gc_obj.c:483-522 -/
def gcCollectCase (D : GCConfig) (refs : Addr → List Addr) (fuel : ℕ) (flags : BitVec 32)
    (s : GCState) : Outcome (Bool × GCState) :=
  match s.status with
  | .idle | .markRoot =>
    if clearing flags then .ok (false, { s with status := .markObj })
    else do
      let s ← gcMarkRoot D { s with status := .markRoot }
      pure (decide (incremental flags), { s with status := .markObj })
  | .markObj =>
    if clearing flags then .ok (false, { s with status := .sweep })
    else do
      let (_, s) ← gcMarkPhase D refs flags fuel s
      pure (decide (incremental flags), s)
  | .sweep => do
    let s ← gcSweep D s
    pure (decide (incremental flags), { s with status := .compact })
  | .compact => .ok (gcCollectCompact s)

/-- At most so many cases, until the call returns. -/
def gcCollectCases (D : GCConfig) (refs : Addr → List Addr) (fuel : ℕ) (flags : BitVec 32) :
    ℕ → GCState → Outcome GCState
  | 0, _ => .error .outOfFuel
  | n + 1, s => do
    let (done, s) ← gcCollectCase D refs fuel flags s
    if done then pure s else gcCollectCases D refs fuel flags n s

/-- The effect of an operation up to the call of `gc_do_collect`, with the flags of the call if
there is one.
SOURCE: m_gc_obj.c:525-540, 571-645 -/
def GCOp.start (D : GCConfig) (s : GCState) : GCOp → Outcome (Option (BitVec 32) × GCState)
  | .alloc th type map waiting =>
    match gcUsablePool D s type map with
    | none => .ok (none, s)
    | some (base, s) => do
      let (_, _, s) ← gcTakeCell D s th type base
      pure (if collectionNeeded D s ∧ waiting = false then some 0 else none, s)
  | .run flags waiting => .ok (if waiting then none else some flags, s)
  | op => do
    let s ← op.exec D (fun _ => []) 0 s
    pure (none, s)

/-- The heap, and the flags of the collection that is running (`gc_thread` is not `NULL`). -/
structure GCWorld where
  heap : GCState
  collecting : Option (BitVec 32)

/-- The state after `m_gc_startup` and `m_thread_startup`. -/
def gcWorldStartup : GCWorld := ⟨gcObjStartup, none⟩

/-- A step: an operation of some thread, or a case of the collection that is running. -/
inductive GCAction where
  | op (o : GCOp)
  | case

/-- An operation waits for the collector when another thread runs it. -/
def GCOp.waitsFor (collecting : Bool) : GCOp → Prop
  | .alloc _ _ _ waiting => waiting = collecting
  | .run _ waiting => waiting = collecting
  | _ => True

/-- The two flags decide whether an operation waits. -/
instance (collecting : Bool) (o : GCOp) : Decidable (o.waitsFor collecting) :=
  match o with
  | .alloc _ _ _ waiting => inferInstanceAs (Decidable (waiting = collecting))
  | .run _ waiting => inferInstanceAs (Decidable (waiting = collecting))
  | .addObj _ _ | .setNbLevel _ _ | .setRoots _ | .threadEnter | .threadExit _ =>
    inferInstanceAs (Decidable True)

/-- One step. -/
inductive GCWorldStep (D : GCConfig) : GCWorld → GCAction → GCWorld → Prop where
  | op {w : GCWorld} {o : GCOp} {flags : Option (BitVec 32)} {s : GCState} :
    o.waitsFor w.collecting.isSome → o.mapsFresh D w.heap →
      o.start D w.heap = .ok (flags, s) →
      GCWorldStep D w (.op o) ⟨s, flags.or w.collecting⟩
  | case {w : GCWorld} {flags : BitVec 32} {refs : Addr → List Addr} {fuel : ℕ} {done : Bool}
    {s : GCState} : w.collecting = some flags →
      gcCollectCase D refs fuel flags w.heap = .ok (done, s) →
      GCWorldStep D w .case ⟨s, if done then none else some flags⟩

/-- The step meets what the collector does not check. -/
def GCAction.placed (D : GCConfig) (s : GCState) : GCAction → Prop
  | .op o => o.placed D s
  | .case => True

end Ming.Model
