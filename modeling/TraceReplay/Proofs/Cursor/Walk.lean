import TraceReplay.Proofs.Cursor.Search
import TraceReplay.Proofs.Trace.Visit

/-!
What is left to visit from a frame on. Single steps go through the visits of one list; the frames of the
owners say what is left once its sub-traces run out, so the whole of it is read off the frames of a cursor.
-/
namespace TraceReplay

theorem firstStep_of_length_le {blocks : List BlockEvaluation} {b : Nat}
    (h : blocks.length ≤ b) : firstStep blocks b = none := by
  rw [firstStep, List.drop_eq_nil_of_le (by simpa using h)]
  rfl

theorem firstStep_of_getElem? {blocks : List BlockEvaluation} {b : Nat} {block : BlockEvaluation}
    (found : blocks[b]? = some block) :
    firstStep blocks b = if block.isEmpty then firstStep blocks (b + 1) else some ⟨b, 0⟩ := by
  obtain ⟨inRange, rfl⟩ := List.getElem?_eq_some_iff.mp found
  have inZip : b < blocks.zipIdx.length := by simpa using inRange
  rw [firstStep, List.drop_eq_getElem_cons inZip, List.getElem_zipIdx, List.findSome?_cons,
    Nat.zero_add]
  cases empty : blocks[b].isEmpty with
  | true => simp [firstStep, empty]
  | false => simp [empty]

section Walk

variable (nested : Bool) (owners : List Frame) (blocks : List BlockEvaluation)

def visitsFrom (frame : Frame) : List Visit :=
  match blocks[frame.block]? with
  | none => []
  | some block =>
    evaluationVisits nested owners frame.block frame.eval (block.evaluations.drop frame.eval) ++
      visits nested owners (frame.block + 1) (blocks.drop (frame.block + 1))

def visitsAfter (frame : Frame) : List Visit :=
  (nextStep blocks frame).elim [] (visitsFrom nested owners blocks)

/-- Blocks without evaluations have no visits, so the visits begin at the first step. -/
theorem visits_drop (b : Nat) :
    visits nested owners b (blocks.drop b) =
      (firstStep blocks b).elim [] (visitsFrom nested owners blocks) := by
  induction left : blocks.length - b generalizing b with
  | zero =>
      have past : blocks.length ≤ b := Nat.le_of_sub_eq_zero left
      rw [firstStep_of_length_le past, List.drop_eq_nil_of_le past]
      rfl
  | succ n ih =>
      have inRange : b < blocks.length := by omega
      have found := List.getElem?_eq_getElem inRange
      rw [firstStep_of_getElem? found, List.drop_eq_getElem_cons inRange, visits,
        BlockEvaluation.visits_eq]
      cases empty : blocks[b].isEmpty with
      | true =>
          rw [List.isEmpty_iff.mp empty, ih (b + 1) (by omega)]
          rfl
      | false => simp [visitsFrom, found]

theorem visits_eq_firstStep :
    visits nested owners 0 blocks =
      (firstStep blocks 0).elim [] (visitsFrom nested owners blocks) :=
  visits_drop nested owners blocks 0

/-- First the evaluation, then its sub-trace, then all that a step forward leads to. -/
theorem visitsFrom_of_named {frame : Frame} {evaluation : InstructionEvaluation}
    (named : frame.evaluation? blocks = some evaluation) :
    visitsFrom nested owners blocks frame = ⟨owners, frame, evaluation⟩ ::
      (evaluation.visitsInside nested (frame :: owners) ++
        visitsAfter nested owners blocks frame) := by
  obtain ⟨block, found, at_eval⟩ := Option.bind_eq_some_iff.mp named
  obtain ⟨inRange, rfl⟩ := List.getElem?_eq_some_iff.mp at_eval
  have after : visitsAfter nested owners blocks frame =
      evaluationVisits nested owners frame.block (frame.eval + 1)
        (block.evaluations.drop (frame.eval + 1)) ++
        visits nested owners (frame.block + 1) (blocks.drop (frame.block + 1)) := by
    have count : frame.evaluationCount blocks = block.evaluations.length := by
      rw [Frame.evaluationCount, found]
      rfl
    rw [visitsAfter, nextStep, count]
    split
    case isTrue more => simp [visitsFrom, found]
    case isFalse last =>
        rw [List.drop_eq_nil_of_le (Nat.le_of_not_lt last), visits_drop]
        rfl
  rw [after, visitsFrom, found]
  simp only [List.drop_eq_getElem_cons inRange, evaluationVisits, List.cons_append,
    List.append_assoc]

end Walk

/-- What is left to visit of a method after the evaluations with these frames, innermost first. -/
def visitsPending (nested : Bool) (blocks : List BlockEvaluation) : List Frame → List Visit
  | [] => []
  | frame :: owners =>
    visitsAfter nested owners (blocksBelow blocks owners) frame ++ visitsPending nested blocks owners

/-- What is left to visit of a method from a frame in a sub-trace on. -/
def visitsAhead (nested : Bool) (blocks : List BlockEvaluation) (frame : Frame)
    (owners : List Frame) : List Visit :=
  visitsFrom nested owners (blocksBelow blocks owners) frame ++ visitsPending nested blocks owners

theorem visitsAhead_of_named (nested : Bool) {blocks : List BlockEvaluation} {frame : Frame}
    {owners : List Frame} {evaluation : InstructionEvaluation}
    (named : frame.evaluation? (blocksBelow blocks owners) = some evaluation) :
    visitsAhead nested blocks frame owners = ⟨owners, frame, evaluation⟩ ::
      (evaluation.visitsInside nested (frame :: owners) ++
        visitsPending nested blocks (frame :: owners)) := by
  rw [visitsAhead, visitsFrom_of_named nested owners _ named, List.cons_append, List.append_assoc,
    visitsPending]

end TraceReplay
