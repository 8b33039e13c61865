import Ming.Analysis.GCFarRun

/-!
# The representation of the heap in every state of a run

The pool lists, the free lists, the bitmaps, the counter and the colours agree as long as the
operations meet what the collector does not check. A run that hands out a cell which lies `2 ^ 32`
bytes behind the first one of its pool ends with a cell on the free list that is in use.
-/

set_option autoImplicit false

namespace Ming.Analysis

open Ming.Foundation Ming.Model Ming.Interface

variable {D : GCConfig} {ops : List GCOp} {σ : ℕ → GCState}

/-- **The cell heap keeps its representation.** In every state of a run whose operations meet what
the collector does not check, the pool lists, the free lists, the bitmaps, the counter of
allocated bytes and the colours agree, and the next allocation hands out a cell that is not
allocated. An allocation of a type whose cells are smaller than `sizeof(M_GCCell)` divides by
zero and is no step of a run.
SOURCE: m_gc_obj.c:134-173, 378-480, 570-645 -/
theorem heap_run_ok (h : GCRun D ops σ) (hp : RunPlaced D ops σ) {n : ℕ} (hn : n ≤ ops.length) :
    HeapOk D (σ n) ∧ ∀ refs fuel waiting th type map cell oid s', FreshMap D (σ n) type map →
      gcAllocObj D refs fuel waiting (σ n) th type map = .ok (some (cell, oid), s') →
      ¬ Allocated D (σ n) cell := by
  have hinv := run_inv h hp hn
  refine ⟨hinv.heapOk, fun refs fuel waiting th type map cell oid s' hmap e => ?_⟩
  rcases allocObj_spec hinv.heap hmap e with ⟨hr, -⟩ | ⟨cell', oid', s₂, hr, htook, -⟩
  · exact nomatch hr
  · obtain ⟨rfl, rfl⟩ := Prod.mk.inj (Option.some.inj hr)
    exact htook.not_allocated hinv.heap

/-- Three cells of two types, of which the collection keeps the one that is still on the new-born
stack; the cells that it frees are handed out again. -/
def reuseOps : List GCOp :=
  [.alloc 0 .double (some 4096) false, .alloc 0 .string (some 8192) false,
    .alloc 0 .double none false, .setNbLevel 0 1, .run 0 false,
    .alloc 0 .string (some 8192) false, .alloc 0 .double none false]

/-- The heap after cells of two types were freed and handed out again. -/
theorem heap_run_ok_reuse : ∃ σ, GCRun defaultConfig reuseOps σ ∧
    HeapOk defaultConfig (σ reuseOps.length) ∧ (σ reuseOps.length).log =
      [.alloc 4264, .alloc 8296, .alloc 4272, .markRoot, .final .double 4272, .final .string 8296,
        .alloc 8296, .alloc 4272] := by
  have hc : runChecked defaultConfig (fun _ => []) (fun _ _ => true) (fun s => decide (s.log =
      [.alloc 4264, .alloc 8296, .alloc 4272, .markRoot, .final .double 4272,
        .final .string 8296, .alloc 8296, .alloc 4272])) reuseOps gcObjStartup = true := by
    decide +kernel
  obtain ⟨σ, hrun, hplaced, -, hlog⟩ := run_of_checked (startup_inv defaultConfig) hc
  exact ⟨σ, hrun, (heap_run_ok hrun hplaced le_rfl).1, of_decide_eq_true hlog⟩

/-- The collection of a pool of `2 ^ 33` bytes puts a cell on the free list that it keeps.
SOURCE: m_gc_obj.c:393 -/
theorem heap_run_counterexample : ¬ ∀ (D : GCConfig) (ops : List GCOp) (σ : ℕ → GCState),
    GCRun D ops σ → ∀ n ≤ ops.length,
    HeapOk D (σ n) ∧ ∀ refs fuel waiting th type map cell oid s', FreshMap D (σ n) type map →
      gcAllocObj D refs fuel waiting (σ n) th type map = .ok (some (cell, oid), s') →
      ¬ Allocated D (σ n) cell := by
  intro hall
  obtain ⟨ops, σ, hrun, hkept⟩ := far_run
  obtain ⟨pool, s', pool', -, -, e, hpool', hinv, hbegin, htype, hwhite, hfree, -⟩ :=
    hkept.collect (by decide) farCell_lt loopAddr_farCell fun _ => []
  have hstep : GCStep farConfig (σ ops.length) (.run 0 false) s' := by
    refine ⟨trivial, fun _ => [], 1, ?_⟩
    rw [GCOp.exec, gcCollectObjs, if_neg (by decide), e]
    rfl
  have hok := (hall farConfig _ _ (hrun.snoc hstep) (ops ++ [GCOp.run 0 false]).length le_rfl).1
  rw [List.length_append, List.length_singleton, if_neg (Nat.not_succ_le_self _)] at hok
  obtain ⟨id, -, haddr, hunused⟩ := (hok.free _ pool' hpool' _).mp hfree
  have hsize := hinv.size_pos
  have hzero : id * (farConfig.descrs pool.type).size = 0 := by
    rw [cellAddr, hbegin, htype] at haddr
    exact Nat.add_eq_left.mp haddr.symm
  obtain rfl := (Nat.mul_eq_zero.mp hzero).resolve_right (Nat.ne_of_gt hsize)
  exact absurd (hwhite.symm.trans hunused) (by decide)

end Ming.Analysis
