import Mathlib.Data.List.Induction
import TraceReplay.Trace.Basic

/-!
The worklist of a block as its evaluations are done one after the other. Each one that carries an update puts
it in the place of the worklist before, an empty one included. To look for the last update from an index
backwards comes to the same.
-/
namespace TraceReplay

/-- The worklist after some evaluations, of which those with an update replace the one they find. -/
def replayWorklist (start : List BranchTarget) (evaluations : List InstructionEvaluation) :
    List BranchTarget :=
  evaluations.foldl (fun current evaluation => evaluation.updatedWorklist.getD current) start

def BlockEvaluation.evaluationsUpTo (block : BlockEvaluation) (index : Nat) :
    List InstructionEvaluation :=
  (block.evaluations.zipIdx.filter (·.2 ≤ index)).map Prod.fst

theorem replayWorklist_append (start : List BranchTarget) (first others : List InstructionEvaluation) :
    replayWorklist start (first ++ others) = replayWorklist (replayWorklist start first) others :=
  List.foldl_append

/-- The update that is found first from the end is the one that no later evaluation replaces. -/
theorem getD_findSome?_reverse (start : List BranchTarget) (evaluations : List InstructionEvaluation) :
    (evaluations.reverse.findSome? (·.updatedWorklist)).getD start =
      replayWorklist start evaluations := by
  induction evaluations using List.reverseRecOn with
  | nil => rfl
  | append_singleton evaluations last ih =>
      rw [replayWorklist_append, ← ih, List.reverse_append, List.reverse_singleton,
        List.singleton_append, List.findSome?_cons]
      change _ = last.updatedWorklist.getD _
      cases last.updatedWorklist with
      | none => rfl
      | some updated => rfl

theorem filter_zipIdx_lt {α : Type} (xs : List α) (k index : Nat) :
    ((xs.zipIdx k).filter (·.2 < k + index)).map Prod.fst = xs.take index := by
  induction xs generalizing k index with
  | nil => simp
  | cons x xs ih =>
      cases index with
      | zero =>
          have later : ∀ y ∈ (x :: xs).zipIdx k, ¬y.2 < k := fun y mem =>
            Nat.not_lt.mpr (List.le_snd_of_mem_zipIdx mem)
          simpa using later
      | succ index =>
          have rest := ih (k + 1) index
          rw [Nat.add_right_comm] at rest
          simp [List.zipIdx_cons, Nat.add_assoc, ← rest]

namespace BlockEvaluation

variable (block : BlockEvaluation) (index : Nat)

theorem evaluationsUpTo_eq_take : block.evaluationsUpTo index = block.evaluations.take (index + 1) := by
  rw [evaluationsUpTo, ← filter_zipIdx_lt block.evaluations 0 (index + 1)]
  simp only [Nat.zero_add, Nat.lt_succ_iff]

/-- To look for the last update comes to the same as to replay them all. -/
theorem worklistAt_eq_replay :
    block.worklistAt index = replayWorklist block.worklist (block.evaluationsUpTo index) := by
  rw [worklistAt, getD_findSome?_reverse, evaluationsUpTo_eq_take]

end BlockEvaluation

end TraceReplay
