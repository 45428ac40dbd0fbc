import TraceReplay.Cursor.Projection
import TraceReplay.Proofs.Cursor.Path

/-!
What the projection of a cursor shows. On a step it is the record at the end of the path that the frames of the
cursor make, with the block the record stands in; off all steps it shows no record, and the worklist that the
current block began with.
-/
namespace TraceReplay

namespace Projection

/-- A projection shows an evaluation as it was recorded, and the block it stands in. -/
structure Shows (shown : Projection) (block : BlockEvaluation) (evaluation : InstructionEvaluation) :
    Prop where
  text : shown.instructionText = evaluation.text
  offset : shown.instructionOffset = some evaluation.offset
  variablesBefore : shown.variablesBefore = evaluation.variablesBefore
  stackBefore : shown.stackBefore = evaluation.stackBefore
  updated : shown.updatedWorklist = evaluation.updatedWorklist
  skip : shown.flags.skip = evaluation.skip
  generalization : shown.flags.generalization = evaluation.isGeneralization
  visits : shown.visitCount = evaluation.visitCount
  start : shown.blockStartOffset = some block.startOffset
  handler : shown.exceptionHandler = block.exceptionHandler

structure ShowsNone (shown : Projection) : Prop where
  text : shown.instructionText = ""
  variablesBefore : shown.variablesBefore = []
  stackBefore : shown.stackBefore = []
  updated : shown.updatedWorklist = none
  flags : shown.flags = .none
  visits : shown.visitCount = none

theorem shows_withEvaluation (standing : Projection) (block : BlockEvaluation) (index : Nat)
    (evaluation : InstructionEvaluation) :
    ((standing.withBlock block index).withEvaluation evaluation).Shows block evaluation :=
  ⟨rfl, rfl, rfl, rfl, rfl, rfl, rfl, rfl, rfl, rfl⟩

end Projection

theorem BlockEvaluation.worklistAt_of_isEmpty {block : BlockEvaluation} (empty : block.isEmpty = true)
    (index : Nat) : block.worklistAt index = block.worklist := by
  rw [worklistAt, List.isEmpty_iff.mp empty, List.take_nil]
  rfl

namespace Cursor

section Projected

variable {trace : Trace} {cursor : Cursor} {method : MethodTrace} {block : BlockEvaluation}
  {evaluation : InstructionEvaluation}

theorem projection_of_no_method (current : cursor.currentMethod? = none) :
    cursor.projection = .empty := by
  rw [projection, current]

theorem projection_of_no_block (current : cursor.currentMethod? = some method)
    (at_block : cursor.currentBlock? = none) : cursor.projection = cursor.projectionIn method := by
  simp only [projection, current, at_block]

theorem projection_of_no_evaluation (current : cursor.currentMethod? = some method)
    (at_block : cursor.currentBlock? = some block)
    (at_eval : block.evaluations[cursor.frame.eval]? = none) :
    cursor.projection = (cursor.projectionIn method).withBlock block cursor.frame.eval := by
  simp only [projection, current, at_block, at_eval]

theorem projection_of_evaluation (current : cursor.currentMethod? = some method)
    (at_block : cursor.currentBlock? = some block)
    (at_eval : block.evaluations[cursor.frame.eval]? = some evaluation) :
    cursor.projection =
      ((cursor.projectionIn method).withBlock block cursor.frame.eval).withEvaluation evaluation := by
  simp only [projection, current, at_block, at_eval]

theorem currentBlock?_of_no_method (current : cursor.currentMethod? = none) :
    cursor.currentBlock? = none := by
  rw [currentBlock?, currentBlocks, current]
  rfl

theorem currentEvaluation?_eq :
    cursor.currentEvaluation? =
      cursor.currentBlock?.bind fun block => block.evaluations[cursor.frame.eval]? := rfl

/-- A cursor is on a step, or its projection is one of three that have no evaluation. -/
theorem projection_cases (cursor : Cursor) :
    (∃ method block evaluation, cursor.currentMethod? = some method ∧
        cursor.frame.record? cursor.currentBlocks = some (block, evaluation) ∧
        cursor.currentEvaluation? = some evaluation ∧
        cursor.projection = ((cursor.projectionIn method).withBlock block
          cursor.frame.eval).withEvaluation evaluation) ∨
      cursor.currentEvaluation? = none ∧
        (cursor.currentMethod? = none ∧ cursor.currentBlock? = none ∧ cursor.projection = .empty ∨
          ∃ method, cursor.currentMethod? = some method ∧
            (cursor.currentBlock? = none ∧ cursor.projection = cursor.projectionIn method ∨
              ∃ block, cursor.currentBlock? = some block ∧
                cursor.projection =
                  (cursor.projectionIn method).withBlock block cursor.frame.eval)) := by
  rw [currentEvaluation?_eq]
  cases current : cursor.currentMethod? with
  | none =>
      have at_block := currentBlock?_of_no_method current
      rw [at_block]
      exact .inr ⟨rfl, .inl ⟨rfl, rfl, projection_of_no_method current⟩⟩
  | some method =>
      cases at_block : cursor.currentBlock? with
      | none => exact .inr ⟨rfl, .inr ⟨method, rfl, .inl ⟨rfl, projection_of_no_block current at_block⟩⟩⟩
      | some block =>
          rw [Option.bind_some]
          cases at_eval : block.evaluations[cursor.frame.eval]? with
          | none =>
              exact .inr ⟨rfl, .inr ⟨method, rfl,
                .inr ⟨block, rfl, projection_of_no_evaluation current at_block at_eval⟩⟩⟩
          | some evaluation =>
              exact .inl ⟨method, block, evaluation, rfl,
                Frame.record?_eq_some_iff.mpr ⟨at_block, at_eval⟩, rfl,
                projection_of_evaluation current at_block at_eval⟩

theorem projection_isEmpty_iff : cursor.projection.isEmpty = true ↔ cursor.isOnStep = false := by
  rw [isOnStep]
  obtain ⟨method, block, evaluation, _, _, here, shown⟩ |
    ⟨none_here, ⟨_, _, shown⟩ | ⟨method, _, ⟨_, shown⟩ | ⟨block, _, shown⟩⟩⟩ := projection_cases cursor
  · rw [here, shown]
    exact iff_of_false Bool.false_ne_true Bool.noConfusion
  all_goals
    rw [none_here, shown]
    exact iff_of_true rfl rfl

/-- A projection tells of a sub-trace just where there is one to enter. -/
theorem hasNested_projection : cursor.projection.hasNested = cursor.canEnter := by
  rw [canEnter, firstNestedStep?]
  obtain ⟨method, block, evaluation, _, _, here, shown⟩ |
    ⟨none_here, ⟨_, _, shown⟩ | ⟨method, _, ⟨_, shown⟩ | ⟨block, _, shown⟩⟩⟩ := projection_cases cursor
  · rw [here, shown]
    rfl
  all_goals
    rw [none_here, shown]
    rfl

/-- Whether a sub-trace can be entered is told before it is. -/
theorem canEnter_iff : cursor.canEnter = true ↔ ∃ entered, cursor.perform .enter = (entered, .done) := by
  rw [canEnter, perform, enter]
  cases cursor.firstNestedStep? with
  | none =>
      refine iff_of_false Bool.false_ne_true ?_
      rintro ⟨entered, done⟩
      cases done
  | some frame => exact iff_of_true rfl ⟨_, rfl⟩

theorem length_nestedFrames (cursor : Cursor) : cursor.nestedFrames.length = cursor.depth := by
  rw [nestedFrames, List.length_tail, frames, List.length_reverse, List.length_cons,
    Nat.add_sub_cancel, depth]

/-- Where no method is, a reachable cursor stands at the start as an empty projection shows it. -/
theorem projection_place (reachable : Reachable trace cursor) :
    cursor.projection.methodIndex = cursor.method ∧
      cursor.projection.blockIndex = cursor.frame.block ∧
      cursor.projection.evalIndex = cursor.frame.eval ∧ cursor.projection.depth = cursor.depth := by
  obtain ⟨method, block, evaluation, _, _, _, shown⟩ |
    ⟨_, ⟨nowhere, _, shown⟩ | ⟨method, _, ⟨_, shown⟩ | ⟨block, _, shown⟩⟩⟩ := projection_cases cursor
  case inr.inl =>
      cases reachable.wellPlaced with
      | noMethods =>
          rw [shown]
          exact ⟨rfl, rfl, rfl, rfl⟩
      | inMethod found => exact absurd (found.symm.trans nowhere) (Option.some_ne_none _)
  all_goals
    rw [shown]
    exact ⟨rfl, rfl, rfl, rfl⟩

/-- On a step the frames of the cursor are a path to what is shown. -/
theorem projection_of_onStep (reachable : Reachable trace cursor) (onStep : cursor.isOnStep = true) :
    ∃ method block evaluation, trace.methods[cursor.method]? = some method ∧
      follow method.blocks cursor.frames = some (block, evaluation) ∧
      cursor.projection.Shows block evaluation := by
  obtain ⟨method, block, evaluation, current, record, _, shown⟩ | ⟨none_here, _⟩ :=
    projection_cases cursor
  · have found : trace.methods[cursor.method]? = some method := by
      rwa [currentMethod?, reachable.wellPlaced.trace_eq] at current
    rw [currentBlocks, current] at record
    refine ⟨method, block, evaluation, found, (follow_frames _ cursor).trans record, ?_⟩
    rw [shown]
    exact Projection.shows_withEvaluation _ block _ evaluation
  · rw [isOnStep, none_here] at onStep
    cases onStep

/-- Off all steps the current block, if there is one, has no evaluation to change its worklist. -/
theorem projection_of_inert (reachable : Reachable trace cursor) (inert : cursor.isOnStep = false) :
    cursor.projection.ShowsNone ∧
      cursor.projection.pendingWorklist =
        (cursor.currentBlock?.map BlockEvaluation.worklist).getD [] := by
  obtain ⟨method, block, evaluation, _, _, here, _⟩ |
    ⟨_, ⟨_, at_block, shown⟩ | ⟨method, _, ⟨at_block, shown⟩ | ⟨block, at_block, shown⟩⟩⟩ :=
    projection_cases cursor
  · rw [isOnStep, here] at inert
    cases inert
  · rw [shown, at_block]
    exact ⟨⟨rfl, rfl, rfl, rfl, rfl, rfl⟩, rfl⟩
  · rw [shown, at_block]
    exact ⟨⟨rfl, rfl, rfl, rfl, rfl, rfl⟩, rfl⟩
  · rw [shown, at_block]
    refine ⟨⟨rfl, rfl, rfl, rfl, rfl, rfl⟩, ?_⟩
    cases reachable.wellPlaced.rests with
    | onStep named => exact absurd (isOnStep_iff.mpr named) (Bool.eq_false_iff.mp inert)
    | inert _ emptyFrom _ => exact block.worklistAt_of_isEmpty (emptyFrom _ block le_rfl at_block) _

end Projected

/-- The projection of a cursor tells where it stands, whether it is on a step, and whether that step can be
entered. On a step it shows the record that the frames lead to from the blocks of the method, with the block
around it. Off all steps it shows no record, and the worklist that the current block began with. -/
theorem projection_of_path {trace : Trace} {cursor : Cursor} (reachable : Reachable trace cursor) :
    (cursor.projection.isEmpty = true ↔ cursor.isOnStep = false) ∧
      (cursor.projection.methodIndex = cursor.method ∧
        cursor.projection.blockIndex = cursor.frame.block ∧
        cursor.projection.evalIndex = cursor.frame.eval ∧
        cursor.projection.depth = cursor.nestedFrames.length) ∧
      (cursor.isOnStep = true → ∃ method block evaluation,
        trace.methods[cursor.method]? = some method ∧
          follow method.blocks cursor.frames = some (block, evaluation) ∧
          cursor.projection.Shows block evaluation) ∧
      cursor.projection.hasNested = cursor.canEnter ∧
      (cursor.projection.hasNested = true ↔
        ∃ entered, cursor.perform .enter = (entered, .done)) ∧
      (cursor.isOnStep = false → cursor.projection.ShowsNone ∧
        cursor.StandsIn trace cursor.currentBlocks ∧
        cursor.projection.pendingWorklist =
          (cursor.currentBlocks[cursor.frame.block]?.map BlockEvaluation.worklist).getD []) := by
  refine ⟨projection_isEmpty_iff, ?_, projection_of_onStep reachable, hasNested_projection, ?_, ?_⟩
  · rw [length_nestedFrames]
    exact projection_place reachable
  · rw [hasNested_projection, canEnter_iff]
  · intro inert
    obtain ⟨showsNone, pending⟩ := projection_of_inert reachable inert
    exact ⟨showsNone, reachable.wellPlaced.standsIn, pending⟩

/-- A recording whose only block waits with a worklist and has no evaluation. -/
def waitingTrace : Trace := ⟨[.bare [{ BlockEvaluation.bare [] with worklist := [⟨8, [], []⟩] }]]⟩

/-- On a step of a subroutine, and inert on a block that has begun with a worklist. -/
theorem projection_of_path_calling :
    let inside : Cursor := ⟨callingTrace, 1, ⟨1, 1⟩, [⟨1, 0⟩]⟩
    let inert : Cursor := Cursor.start waitingTrace
    Reachable callingTrace inside ∧ inside.isOnStep = true ∧
      inside.projection.Shows (.bare [.bare none, .bare (some [])]) (.bare (some [])) ∧
      inert.isOnStep = false ∧ inert.projection.ShowsNone ∧
      inert.projection.pendingWorklist = [⟨8, [], []⟩] := by
  intro inside inert
  have reachable : Reachable callingTrace inside := .perform .forward (.perform .enter .start)
  obtain ⟨_, _, onStep, _, _, _⟩ := projection_of_path reachable
  obtain ⟨_, _, _, _, _, off⟩ := projection_of_path (.start : Reachable waitingTrace inert)
  obtain ⟨method, block, evaluation, found, leads, shows⟩ := onStep rfl
  cases found
  cases leads
  obtain ⟨showsNone, _, pending⟩ := off rfl
  exact ⟨reachable, rfl, shows, rfl, showsNone, pending⟩

end Cursor

end TraceReplay
