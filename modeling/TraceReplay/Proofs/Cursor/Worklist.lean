import TraceReplay.Proofs.Cursor.Projection
import TraceReplay.Proofs.Trace.Worklist

/-!
The pending worklist that a cursor shows as it steps on. A step forward goes to the next evaluation of its block,
whose update replaces what was shown before, or to the first evaluation of another block, where the worklist of
that block comes first. What other blocks and their sub-traces recorded is never shown.
-/
namespace TraceReplay

section Forward

variable {blocks : List BlockEvaluation} {frame next : Frame} {b m m' : Nat}

theorem firstStep_starts (h : firstStep blocks b = some frame) : b ≤ frame.block ∧ frame.eval = 0 := by
  obtain ⟨⟨block, i⟩, mem, answer⟩ := List.exists_of_findSome?_eq_some h
  obtain ⟨_, rfl⟩ : block.isEmpty = false ∧ ⟨i, 0⟩ = frame := by simpa using answer
  exact ⟨(mem_zipIdx_drop.mp mem).1, rfl⟩

theorem firstStepFrom_starts {trace : Trace} (h : trace.firstStepFrom m = some (m', frame)) :
    m ≤ m' ∧ frame.eval = 0 := by
  obtain ⟨⟨method, i⟩, mem, answer⟩ := List.exists_of_findSome?_eq_some h
  obtain ⟨first, starts, same⟩ := Option.map_eq_some_iff.mp answer
  cases same
  exact ⟨(mem_zipIdx_drop.mp mem).1, (firstStep_starts starts).2⟩

/-- The next step of a list is the next one of its block or the first one of a later block. -/
theorem nextStep_cases (h : nextStep blocks frame = some next) :
    next = ⟨frame.block, frame.eval + 1⟩ ∨ frame.block < next.block ∧ next.eval = 0 := by
  unfold nextStep at h
  split at h
  case isTrue => exact .inl (Option.some.inj h).symm
  case isFalse => exact .inr (firstStep_starts h)

end Forward

namespace BlockEvaluation

variable {block : BlockEvaluation} {evaluation : InstructionEvaluation} {index : Nat}

theorem worklistAt_zero (first : block.evaluations[0]? = some evaluation) :
    block.worklistAt 0 = evaluation.updatedWorklist.getD block.worklist := by
  have taken : block.evaluations.take 1 = [evaluation] := by
    rw [List.take_one, List.head?_eq_getElem?, first]
    rfl
  rw [worklistAt_eq_replay, evaluationsUpTo_eq_take, taken]
  rfl

/-- An update replaces the worklist that the evaluation before it left. -/
theorem worklistAt_succ (here : block.evaluations[index + 1]? = some evaluation) :
    block.worklistAt (index + 1) = evaluation.updatedWorklist.getD (block.worklistAt index) := by
  rw [worklistAt_eq_replay, worklistAt_eq_replay, evaluationsUpTo_eq_take, evaluationsUpTo_eq_take,
    List.take_add_one, here, replayWorklist_append]
  rfl

end BlockEvaluation

namespace Cursor

variable {cursor moved : Cursor} {block : BlockEvaluation}

theorem pendingWorklist_of_block (at_block : cursor.currentBlock? = some block) :
    cursor.projection.pendingWorklist = block.worklistAt cursor.frame.eval := by
  obtain ⟨_, found, _, _, record, _, shown⟩ | ⟨_, ⟨_, none_here, _⟩ |
    ⟨_, _, ⟨none_here, _⟩ | ⟨found, here, shown⟩⟩⟩ := projection_cases cursor
  · obtain rfl := Option.some.inj (at_block.symm.trans (Frame.record?_eq_some_iff.mp record).1)
    rw [shown]
    rfl
  · exact absurd (at_block.symm.trans none_here) (Option.some_ne_none _)
  · exact absurd (at_block.symm.trans none_here) (Option.some_ne_none _)
  · obtain rfl := Option.some.inj (at_block.symm.trans here)
    rw [shown]
    rfl

/-- On a step the shown parts come from the block and the evaluation that the frame names. -/
theorem worklists_of_onStep (onStep : cursor.isOnStep = true) :
    ∃ method block evaluation, cursor.currentMethod? = some method ∧
      cursor.frame.record? cursor.currentBlocks = some (block, evaluation) ∧
      cursor.projection.updatedWorklist = evaluation.updatedWorklist ∧
      cursor.projection.pendingWorklist = block.worklistAt cursor.frame.eval := by
  obtain ⟨method, block, evaluation, current, record, _, shown⟩ | ⟨none_here, _⟩ :=
    projection_cases cursor
  · refine ⟨method, block, evaluation, current, record, ?_, ?_⟩
    · rw [shown]
      rfl
    · exact pendingWorklist_of_block (Frame.record?_eq_some_iff.mp record).1
  · rw [isOnStep, none_here] at onStep
    cases onStep

theorem isOnStep_of_next? (step : cursor.next? = some moved) : moved.isOnStep = true := by
  by_cases top : cursor.owners = []
  · obtain ⟨target, finds, onward⟩ := next?_of_top top
    obtain ⟨position, rfl, rfl⟩ := Option.map_eq_some_iff.mp (onward.symm.trans step)
    have topAfter : (cursor.moveTo position).owners = [] := top
    exact isOnStep_iff.mpr ((ofFrame_mem_addressable topAfter _).mp finds.1.1)
  · have finds := nextStep_finds cursor.currentBlocks cursor.frame
    rw [next?_of_nested top] at step
    obtain ⟨frame, found, rfl⟩ := Option.map_eq_some_iff.mp step
    rw [found] at finds
    exact isOnStep_iff.mpr finds.1.1

/-- A step forward goes to the next evaluation of the block, or into another block. -/
theorem next?_cases (step : cursor.next? = some moved) :
    moved = cursor.moveWithin ⟨cursor.frame.block, cursor.frame.eval + 1⟩ ∨
      (moved.method ≠ cursor.method ∨ moved.frame.block ≠ cursor.frame.block) ∧ moved.frame.eval = 0 := by
  unfold next? at step
  split at step
  case h_1 frame found =>
      cases step
      rcases nextStep_cases found with rfl | ⟨later, starts⟩
      · exact .inl rfl
      · exact .inr ⟨.inr (Nat.ne_of_gt later), starts⟩
  case h_2 =>
      split at step
      case isTrue =>
          obtain ⟨⟨method, frame⟩, found, rfl⟩ := Option.map_eq_some_iff.mp step
          obtain ⟨later, starts⟩ := firstStepFrom_starts found
          exact .inr ⟨.inl (Nat.ne_of_gt later), starts⟩
      case isFalse => cases step

/-- A step within a block replays its update, if it has one, on what was shown before. -/
theorem pendingWorklist_moveWithin
    (onStep : (cursor.moveWithin ⟨cursor.frame.block, cursor.frame.eval + 1⟩).isOnStep = true) :
    let moved := cursor.moveWithin ⟨cursor.frame.block, cursor.frame.eval + 1⟩
    moved.projection.pendingWorklist =
      moved.projection.updatedWorklist.getD cursor.projection.pendingWorklist := by
  intro moved
  obtain ⟨_, block, evaluation, _, record, updated, pending⟩ := worklists_of_onStep onStep
  obtain ⟨at_block, at_eval⟩ := Frame.record?_eq_some_iff.mp record
  have before : cursor.currentBlock? = some block := at_block
  rw [pending, updated, pendingWorklist_of_block before]
  exact BlockEvaluation.worklistAt_succ at_eval

/-- The worklist of a block at an index is what its evaluations up to there make of the one it began with. As a
cursor steps on within a block, each update that it comes to replaces the worklist shown before. A step into
another block comes to its first evaluation, and there the worklist shown is that of this evaluation or the one
that the block itself began with. -/
theorem worklist_replays :
    (∀ (block : BlockEvaluation) (index : Nat),
      block.worklistAt index = replayWorklist block.worklist (block.evaluationsUpTo index)) ∧
    ∀ {trace : Trace} {cursor : Cursor}, Reachable trace cursor →
      (∀ moved, cursor.perform .forward = (moved, .stepped true) →
        moved.method = cursor.method → moved.frame.block = cursor.frame.block →
          moved.projection.pendingWorklist =
            moved.projection.updatedWorklist.getD cursor.projection.pendingWorklist) ∧
      (∀ moved, cursor.perform .forward = (moved, .stepped true) →
        moved.method ≠ cursor.method ∨ moved.frame.block ≠ cursor.frame.block →
          moved.isOnStep = true ∧ moved.frame.eval = 0) ∧
      (cursor.isOnStep = true → cursor.frame.eval = 0 → ∃ method block evaluation,
        trace.methods[cursor.method]? = some method ∧
          follow method.blocks cursor.frames = some (block, evaluation) ∧
          cursor.projection.updatedWorklist = evaluation.updatedWorklist ∧
          cursor.projection.pendingWorklist = evaluation.updatedWorklist.getD block.worklist) := by
  refine ⟨BlockEvaluation.worklistAt_eq_replay, fun {trace cursor} reachable => ⟨?_, ?_, ?_⟩⟩
  · intro moved stepped sameMethod sameBlock
    have step := stepTo_eq_iff.mp stepped
    rcases next?_cases step with rfl | ⟨other, _⟩
    · exact pendingWorklist_moveWithin (isOnStep_of_next? step)
    · exact absurd other (not_or.mpr ⟨not_not.mpr sameMethod, not_not.mpr sameBlock⟩)
  · intro moved stepped other
    have step := stepTo_eq_iff.mp stepped
    refine ⟨isOnStep_of_next? step, ?_⟩
    rcases next?_cases step with rfl | ⟨_, starts⟩
    · exact absurd other (not_or.mpr ⟨not_not.mpr rfl, not_not.mpr rfl⟩)
    · exact starts
  · intro onStep starts
    obtain ⟨method, block, evaluation, current, record, updated, pending⟩ := worklists_of_onStep onStep
    have found : trace.methods[cursor.method]? = some method := by
      rwa [currentMethod?, reachable.wellPlaced.trace_eq] at current
    have at_eval := (Frame.record?_eq_some_iff.mp record).2
    rw [starts] at pending at_eval
    rw [BlockEvaluation.worklistAt_zero at_eval] at pending
    rw [currentBlocks, current] at record
    exact ⟨method, block, evaluation, found, (follow_frames _ cursor).trans record, updated, pending⟩

/-- A recording that calls a subroutine whose first block empties its worklist. -/
def emptyingTrace : Trace :=
  let emptying : BlockEvaluation :=
    { BlockEvaluation.bare [.bare none, { InstructionEvaluation.bare none with updatedWorklist := some [] }] with
      worklist := [⟨8, [], []⟩] }
  let later : BlockEvaluation := { BlockEvaluation.bare [.bare none] with worklist := [⟨9, [], []⟩] }
  ⟨[.bare [.bare [.bare (some [emptying, later])]]]⟩

/-- In the subroutine, to the evaluation with the update and on into the next block. -/
theorem worklist_replays_in_subroutine :
    let inside : Cursor := ⟨emptyingTrace, 0, ⟨0, 0⟩, [⟨0, 0⟩]⟩
    let emptied : Cursor := ⟨emptyingTrace, 0, ⟨0, 1⟩, [⟨0, 0⟩]⟩
    let beyond : Cursor := ⟨emptyingTrace, 0, ⟨1, 0⟩, [⟨0, 0⟩]⟩
    Reachable emptyingTrace inside ∧ inside.projection.pendingWorklist = [⟨8, [], []⟩] ∧
      inside.perform .forward = (emptied, .stepped true) ∧
      emptied.projection.pendingWorklist = (some []).getD inside.projection.pendingWorklist ∧
      emptied.perform .forward = (beyond, .stepped true) ∧ beyond.isOnStep = true ∧
      beyond.frame.eval = 0 ∧ beyond.projection.pendingWorklist = [⟨9, [], []⟩] := by
  intro inside emptied beyond
  have entered : Reachable emptyingTrace inside := .perform .enter .start
  have reachable : Reachable emptyingTrace emptied := .perform .forward entered
  obtain ⟨_, replays⟩ := worklist_replays
  have within := (replays entered).1 emptied rfl rfl rfl
  obtain ⟨onStep, first⟩ := (replays reachable).2.1 beyond rfl (.inr Nat.one_ne_zero)
  obtain ⟨method, block, evaluation, found, leads, _, pending⟩ :=
    (replays (reachable.perform .forward)).2.2 onStep first
  cases found
  cases leads
  exact ⟨entered, rfl, rfl, within, rfl, onStep, first, pending⟩

end Cursor

end TraceReplay
