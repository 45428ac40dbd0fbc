import Mathlib.Data.List.Infix
import TraceReplay.Proofs.Cursor.Placement

/-!
Inside of a sub-trace. Single steps, jumps to a block and the ways in and out reach the innermost frame
alone, so until the sub-trace is left they leave everything around it as it was, and the way out leads back
to the evaluation that it was entered from.
-/
namespace TraceReplay

/-- The moves that stay in the list of a cursor, or go into one sub-trace or out of one. -/
def Move.isLocal : Move → Bool
  | .forward | .backward | .block _ | .enter | .leave => true
  | .reset | .method _ | .step _ => false

namespace Cursor

/-- A cursor in the sub-trace of the evaluation that `outer` stands on, or further down in it. -/
structure Inside (outer cursor : Cursor) : Prop where
  trace_eq : cursor.trace = outer.trace
  method_eq : cursor.method = outer.method
  owners_suffix : outer.frame :: outer.owners <:+ cursor.owners

section Local

variable {cursor : Cursor} {move : Move}

/-- In a sub-trace a local move changes the frame, or it adds one frame or takes one away. -/
theorem perform_local (nested : cursor.owners ≠ []) (isLocal : move.isLocal = true) :
    (∃ frame, (cursor.perform move).1 = cursor.moveWithin frame) ∨
      (∃ frame, (cursor.perform move).1 =
        { cursor with frame, owners := cursor.frame :: cursor.owners }) ∨
      ∃ owner owners, cursor.owners = owner :: owners ∧
        (cursor.perform move).1 = { cursor with frame := owner, owners } := by
  cases move with
  | forward =>
      rw [perform, next?_of_nested nested]
      cases nextStep cursor.currentBlocks cursor.frame with
      | none => exact .inl ⟨cursor.frame, rfl⟩
      | some frame => exact .inl ⟨frame, rfl⟩
  | backward =>
      rw [perform, previous?_of_nested nested]
      cases previousStep cursor.currentBlocks cursor.frame with
      | none => exact .inl ⟨cursor.frame, rfl⟩
      | some frame => exact .inl ⟨frame, rfl⟩
  | block b =>
      rw [perform, jumpToBlock]
      split
      case isTrue => exact .inl ⟨_, rfl⟩
      case isFalse => exact .inl ⟨cursor.frame, rfl⟩
  | enter =>
      rw [perform, enter]
      cases cursor.firstNestedStep? with
      | none => exact .inl ⟨cursor.frame, rfl⟩
      | some frame => exact .inr (.inl ⟨frame, rfl⟩)
  | leave =>
      rw [perform, leave]
      cases around : cursor.owners with
      | nil => contradiction
      | cons owner owners => exact .inr (.inr ⟨owner, owners, rfl, rfl⟩)
  | reset | method _ | step _ => cases isLocal

end Local

namespace Inside

variable {outer cursor : Cursor} {moves : List Move}

theorem of_enter (enters : outer.enter = .ok cursor) : Inside outer cursor := by
  unfold enter at enters
  split at enters
  case h_1 =>
      cases enters
      exact ⟨rfl, rfl, List.suffix_refl _⟩
  case h_2 => cases enters

theorem nested (inside : Inside outer cursor) : cursor.owners ≠ [] := by
  intro top
  have suffix := inside.owners_suffix
  rw [top, List.suffix_nil] at suffix
  cases suffix

/-- A local move leads out of the sub-trace only by way of the level of `outer`. -/
theorem perform (inside : Inside outer cursor) {move : Move} (isLocal : move.isLocal = true)
    (stays : outer.depth < (cursor.perform move).1.depth) :
    Inside outer (cursor.perform move).1 := by
  obtain ⟨trace_eq, method_eq, suffix⟩ := inside
  obtain ⟨frame, moved⟩ | ⟨frame, moved⟩ | ⟨owner, owners, around, moved⟩ :=
    perform_local (Inside.nested ⟨trace_eq, method_eq, suffix⟩) isLocal
  · rw [moved]
    exact ⟨trace_eq, method_eq, suffix⟩
  · rw [moved]
    exact ⟨trace_eq, method_eq, suffix.trans (List.suffix_cons _ _)⟩
  · rw [moved] at stays ⊢
    rw [around, List.suffix_cons_iff] at suffix
    refine ⟨trace_eq, method_eq, suffix.resolve_left fun same => ?_⟩
    -- the way out of the sub-trace itself would come up to the depth of `outer`
    cases same
    exact Nat.lt_irrefl _ stays

theorem run (inside : Inside outer cursor) (isLocal : ∀ move ∈ moves, move.isLocal = true)
    (stays : ∀ made, made <+: moves → outer.depth < (cursor.run made).depth) :
    Inside outer (cursor.run moves) := by
  induction moves generalizing cursor with
  | nil => exact inside
  | cons move moves ih =>
      obtain ⟨first, rest⟩ := List.forall_mem_cons.mp isLocal
      have moved := inside.perform first (stays [move] (List.prefix_append [move] moves))
      exact ih moved rest fun made prior => stays (move :: made)
        ((List.prefix_cons_inj move).mpr prior)

theorem position_eq (inside : Inside outer cursor) : cursor.position = outer.position := by
  obtain ⟨inner, owners⟩ := inside.owners_suffix
  have topFrame_eq : cursor.topFrame = outer.topFrame := by
    rw [topFrame, ← owners]
    simp [topFrame, List.getLastD_eq_getLast?, List.getLast?_append, List.getLast?_cons]
  rw [position, position, inside.method_eq, topFrame_eq]

theorem frames_prefix (inside : Inside outer cursor) : outer.frames <+: cursor.frames :=
  List.reverse_prefix.mpr (inside.owners_suffix.trans (List.suffix_cons _ _))

theorem stepIndex?_eq (inside : Inside outer cursor) : cursor.stepIndex? = none := by
  have deep : cursor.owners.isEmpty = false := List.isEmpty_eq_false_iff.mpr inside.nested
  simp [stepIndex?, deep]

theorem leave_eq (inside : Inside outer cursor) (depth : cursor.depth = outer.depth + 1) :
    cursor.leave = .ok outer := by
  have owners : outer.frame :: outer.owners = cursor.owners :=
    inside.owners_suffix.eq_of_length depth.symm
  rw [leave, ← owners, inside.trace_eq, inside.method_eq]

end Inside

/-- What is done in a sub-trace with local moves, failed ones included, stays in it until it is left: the
position and the frames of the cursor that entered it are as they were, and a way out at its own depth
gives back that cursor. -/
theorem run_inside_subtrace {cursor entered : Cursor} (enters : cursor.enter = .ok entered)
    {moves : List Move} (isLocal : ∀ move ∈ moves, move.isLocal = true)
    (stays : ∀ made, made <+: moves → cursor.depth + 1 ≤ (entered.run made).depth) :
    (∀ made, made <+: moves →
        (entered.run made).position = cursor.position ∧
          cursor.frames <+: (entered.run made).frames ∧
          (entered.run made).stepIndex? = none) ∧
      ((entered.run moves).depth = cursor.depth + 1 → (entered.run moves).leave = .ok cursor) := by
  have inside : ∀ made, made <+: moves → Inside cursor (entered.run made) := by
    intro made prior
    exact (Inside.of_enter enters).run (fun move mem => isLocal move (prior.subset mem))
      fun before earlier => stays before (earlier.trans prior)
  refine ⟨fun made prior => ?_, (inside moves (List.prefix_refl moves)).leave_eq⟩
  have within := inside made prior
  exact ⟨within.position_eq, within.frames_prefix, within.stepIndex?_eq⟩

def twiceCallingTrace : Trace :=
  let inner : List BlockEvaluation := [.bare [.bare none, .bare none]]
  let outer : List BlockEvaluation := [.bare [.bare (some inner)], .bare []]
  ⟨[.bare [.bare [.bare none, .bare (some outer)]]]⟩

/-- Through the inner subroutine and back, with moves that fail on the way. -/
theorem run_inside_subtrace_twice :
    let cursor : Cursor := ⟨twiceCallingTrace, 0, ⟨0, 1⟩, []⟩
    let entered : Cursor := ⟨twiceCallingTrace, 0, ⟨0, 0⟩, [⟨0, 1⟩]⟩
    let moves : List Move := [.backward, .enter, .forward, .block 1, .leave, .block 1]
    Reachable twiceCallingTrace cursor ∧ cursor.enter = .ok entered ∧
      (∀ move ∈ moves, move.isLocal = true) ∧
      (∀ made, made <+: moves → cursor.depth + 1 ≤ (entered.run made).depth) ∧
      (entered.run (moves.take 3)).frames = [⟨0, 1⟩, ⟨0, 0⟩, ⟨0, 1⟩] ∧
      (entered.run (moves.take 3)).position = cursor.position ∧
      (entered.run moves).leave = .ok cursor := by
  intro cursor entered moves
  have stays : ∀ made ∈ moves.inits, cursor.depth + 1 ≤ (entered.run made).depth := by decide
  have stays : ∀ made, made <+: moves → cursor.depth + 1 ≤ (entered.run made).depth :=
    fun made prior => stays made ((List.mem_inits made moves).mpr prior)
  have isLocal : ∀ move ∈ moves, move.isLocal = true := by decide
  have enters : cursor.enter = .ok entered := rfl
  obtain ⟨confined, leaves⟩ := run_inside_subtrace enters isLocal stays
  have deep : (entered.run (moves.take 3)).frames = [⟨0, 1⟩, ⟨0, 0⟩, ⟨0, 1⟩] := by decide
  have back : (entered.run moves).depth = cursor.depth + 1 := by decide
  exact ⟨.perform .forward .start, enters, isLocal, stays, deep,
    (confined (moves.take 3) (List.take_prefix 3 moves)).1, leaves back⟩

end Cursor

end TraceReplay
