import Ming.Model.GCObj

/-!
# The operations on the cell heap

What the threads do to the heap, one operation at a time: the world is stopped during a
collection, and everything else happens under `m_gc_lock`. Between two operations the program
may change what its objects reference, so every collection has its own reference relation.
-/

set_option autoImplicit false

namespace Ming.Model

open Ming.Foundation

/-- An operation. `map` is what `gc_mmap` returns if the allocation asks for a pool, and
`waiting` says that another thread runs the collector. -/
inductive GCOp where
  | alloc (th : ℕ) (type : MGCObjType) (map : Option Addr) (waiting : Bool)
  | run (flags : BitVec 32) (waiting : Bool)
  | addObj (th : ℕ) (oid : ℕ)
  | setNbLevel (th : ℕ) (level : ℕ)
  | setRoots (ptrs : List Addr)
  | threadEnter
  | threadExit (th : ℕ)

/-- The effect of an operation on the heap. `thread_register` appends a record without a
new-born stack, and `thread_key_destructor` takes the record off the list.
SOURCE: m_thread.c:50-110 -/
def GCOp.exec (D : GCConfig) (refs : Addr → List Addr) (fuel : ℕ) (s : GCState) :
    GCOp → Outcome GCState
  | .alloc th type map waiting => do
    let (_, s) ← gcAllocObj D refs fuel waiting s th type map
    pure s
  | .run flags waiting => gcCollectObjs D refs fuel flags waiting s
  | .addObj th oid => mGCAddObj s th oid
  | .setNbLevel th level => mGCSetNbLevel s th level
  | .setRoots ptrs => .ok { s with rootHash := ptrs }
  | .threadEnter => .ok { s with threadList := s.threadList ++ [⟨[], 0, 0⟩] }
  | .threadExit th => .ok { s with threadList := s.threadList.eraseIdx th }

/-- The pool that the operation maps lies in a free range, as `mmap` promises. -/
def GCOp.mapsFresh (D : GCConfig) (s : GCState) : GCOp → Prop
  | .alloc _ type (some base) _ => (s.stubs type).usablePools = [] →
      ∀ b, s.pools b ≠ none → b + D.poolSize ≤ base ∨ base + D.poolSize ≤ b
  | _ => True

/-- One operation that returns. -/
def GCStep (D : GCConfig) (s : GCState) (op : GCOp) (s' : GCState) : Prop :=
  op.mapsFresh D s ∧ ∃ refs fuel, op.exec D refs fuel s = .ok s'

/-! ## What the collector does not check -/

/-- The sixteen cells of a bitmap word to which the cell at `ptr` belongs begin less than
`2 ^ 32` bytes behind the first cell of the pool, so that `wordAddr` is their address. -/
def cellNear (descr : MGCObjDescr) (pool : MGCCellPool) (ptr : Addr) : Prop :=
  (ptr - pool.begin) / (16 * descr.size) * (16 * descr.size) < 2 ^ 32

/-- A pool that the allocation maps lies at a multiple of its size, which `gc_mmap` sees to for
the size of a page only, and an `int` can count its cells; and the cell that is handed out is
near. -/
structure AllocPlaced (D : GCConfig) (s : GCState) (type : MGCObjType) (map : Option Addr) :
    Prop where
  aligned : (s.stubs type).usablePools = [] → ∀ base, map = some base → D.poolSize ∣ base
  counted : (s.stubs type).usablePools = [] → ∀ base, map = some base → D.cellNum type < 2 ^ 31
  near : ∀ base rest pool cell free, (s.stubs type).usablePools = base :: rest →
    s.pools base = some pool → pool.freeCells = cell :: free → cellNear (D.descrs type) pool cell

/-- The operation meets what the collector does not check. -/
def GCOp.placed (D : GCConfig) (s : GCState) : GCOp → Prop
  | .alloc _ type map _ => AllocPlaced D s type map
  | _ => True

end Ming.Model
