import TraceReplay.Proofs.Cursor.Enumeration
import TraceReplay.Proofs.Cursor.Subtrace
import TraceReplay.Proofs.Trace.Tally

/-!
How deep a cursor can stand. The frames of a cursor are a way down through sub-traces, and the statistics of its
method know the longest of these ways. So going in again and again comes to an end, and going out again and
again gives back the place outside of all sub-traces, which does not change on the way down.
-/
namespace TraceReplay

section Ways

variable {blocks lower inner : List BlockEvaluation} {depth : Nat}

/-- A way down goes on into a sub-trace of the list it has come to. -/
theorem Nests.deeper (nests : Nests blocks depth lower) {frame : Frame}
    {evaluation : InstructionEvaluation} (named : frame.evaluation? lower = some evaluation)
    (owned : evaluation.nestedBlocks = some inner) : Nests blocks (depth + 1) inner := by
  induction nests with
  | here => exact .inside named owned .here
  | inside above owned' _ ih => exact .inside above owned' (ih named)

/-- A way down goes through lists that nest as deep as it has frames. -/
theorem Descends.nests {owners : List Frame} (way : Descends blocks owners inner) :
    Nests blocks owners.length inner := by
  induction way with
  | top => exact .here
  | into _ named owned _ ih => exact ih.deeper named owned

/-- Each list on a way down has an evaluation of its own. -/
theorem Nests.recordedCount_le (nests : Nests blocks depth lower) :
    depth + recordedCount lower ≤ recordedCount blocks := by
  induction nests with
  | here => exact (Nat.zero_add _).le
  | inside named owned _ ih =>
      have fewer := recordedCount_lt_of_nestedBlocks named owned
      omega

end Ways

theorem Cursor.Inside.trans {outer cursor below : Cursor} (inside : Inside outer cursor)
    (further : Inside cursor below) : Inside outer below where
  trace_eq := further.trace_eq.trans inside.trace_eq
  method_eq := further.method_eq.trans inside.method_eq
  owners_suffix :=
    (inside.owners_suffix.trans (List.suffix_cons _ _)).trans further.owners_suffix

namespace Cursor

variable {trace : Trace} {cursor moved : Cursor}

/-- Each frame around a cursor is one level more in the statistics of its method. -/
theorem WellPlaced.depth_le (placed : WellPlaced trace cursor) {method : MethodTrace}
    (found : cursor.currentMethod? = some method) : cursor.depth ≤ method.statistics.maxDepth := by
  cases placed with
  | noMethods empty => simp [currentMethod?, empty] at found
  | inMethod found' way _ =>
      cases found'.symm.trans found
      exact (isGreatest_maxDepth _).2 ⟨_, way.nests⟩

theorem WellPlaced.depth_le_recordedCount (placed : WellPlaced trace cursor) :
    cursor.depth ≤ trace.recordedCount := by
  cases placed with
  | noMethods => exact Nat.zero_le _
  | inMethod found way _ =>
      exact (Nat.le_of_add_right_le way.nests.recordedCount_le).trans (Trace.recordedCount_le found)

theorem depth_of_enter (enters : cursor.enter = .ok moved) : moved.depth = cursor.depth + 1 := by
  rw [enter] at enters
  split at enters
  case h_1 =>
      cases enters
      rfl
  case h_2 => cases enters

/-- Going in again and again leads down through sub-traces, each inside of the one before. -/
theorem WellPlaced.exhausts_enter (placed : WellPlaced trace cursor) :
    ∃ down, Exhausts .enter cursor down ∧
      (∀ below ∈ down, WellPlaced trace below ∧ Inside cursor below) ∧
      (down.getLastD cursor).depth = cursor.depth + down.length := by
  induction left : trace.recordedCount - cursor.depth using Nat.strongRecOn generalizing cursor with
  | ind n ih =>
      cases enters : cursor.enter with
      | error =>
          refine ⟨[], .ends ?_, fun _ mem => absurd mem List.not_mem_nil, rfl⟩
          rw [Cursor.perform, enters]
          rfl
      | ok first =>
          have deeper := depth_of_enter enters
          have placed' := placed.enter enters
          have inside := Inside.of_enter enters
          have bound := placed'.depth_le_recordedCount
          obtain ⟨down, exhausts, below, depth⟩ := ih _ (by omega) placed' rfl
          have moves : cursor.perform .enter = (first, .done) := by
            rw [Cursor.perform, enters]
            rfl
          refine ⟨first :: down, .step moves rfl exhausts, ?_, ?_⟩
          · refine List.forall_mem_cons.mpr ⟨⟨placed', inside⟩, fun lower mem => ?_⟩
            exact ⟨(below lower mem).1, inside.trans (below lower mem).2⟩
          · rw [List.getLastD_cons, depth, deeper, List.length_cons]
            omega

/-- Going out again and again leads up through all owners. -/
theorem exhausts_leave (cursor : Cursor) :
    ∃ up, Exhausts .leave cursor up ∧ up.length = cursor.depth ∧
      up.getLastD cursor = atTop cursor.trace cursor.position := by
  obtain ⟨trace, m, frame, owners⟩ := cursor
  induction owners generalizing frame with
  | nil => exact ⟨[], .ends rfl, rfl, rfl⟩
  | cons owner owners ih =>
      obtain ⟨up, exhausts, length, last⟩ := ih owner
      refine ⟨⟨trace, m, owner, owners⟩ :: up, .step rfl rfl exhausts, congrArg Nat.succ length, ?_⟩
      rw [List.getLastD_cons, last, position, position, topFrame, topFrame, List.getLastD_cons]

/-- No cursor is deeper than the deepest sub-trace of its method. So going in comes to an end, after no more
sub-traces than there are further down, and going out from any place on the way takes as many steps as there are
sub-traces around it and leads back to the top-level position. -/
theorem depth_bounded (reachable : Reachable trace cursor) :
    (∀ method, cursor.currentMethod? = some method → cursor.depth ≤ method.statistics.maxDepth) ∧
      ∃ down, Exhausts .enter cursor down ∧ cursor.trail .enter = down ∧
        (∀ method, cursor.currentMethod? = some method →
          down.length ≤ method.statistics.maxDepth - cursor.depth) ∧
        (down.getLastD cursor).depth = cursor.depth + down.length ∧
        ∀ below ∈ cursor :: down, below.position = cursor.position ∧
          ∃ up, Exhausts .leave below up ∧ below.trail .leave = up ∧ up.length = below.depth ∧
            up.getLastD below = atTop trace cursor.position := by
  have placed := reachable.wellPlaced
  have sameTrace := placed.trace_eq
  obtain ⟨down, exhausts, lower, depth⟩ := placed.exhausts_enter
  have onTheWay : ∀ below ∈ cursor :: down, WellPlaced trace below ∧
      below.method = cursor.method ∧ below.position = cursor.position := by
    refine List.forall_mem_cons.mpr ⟨⟨placed, rfl, rfl⟩, fun below mem => ?_⟩
    obtain ⟨placed', inside⟩ := lower below mem
    exact ⟨placed', inside.method_eq, inside.position_eq⟩
  obtain ⟨placedLast, sameMethod, _⟩ := onTheWay _ List.getLastD_mem_cons
  refine ⟨fun method => placed.depth_le, down, exhausts, ?_, fun method found => ?_, depth,
    fun below mem => ?_⟩
  · have bound := placedLast.depth_le_recordedCount
    rw [depth, ← sameTrace] at bound
    exact exhausts.trailWithin_eq (Nat.le_of_add_left_le bound)
  · have found' : (down.getLastD cursor).currentMethod? = some method := by
      rw [currentMethod?, placedLast.trace_eq, sameMethod, ← sameTrace]
      exact found
    have bound := placedLast.depth_le found'
    omega
  · obtain ⟨placed', _, position⟩ := onTheWay below mem
    obtain ⟨up, out, count, last⟩ := exhausts_leave below
    rw [placed'.trace_eq, position] at last
    refine ⟨position, up, out, out.trailWithin_eq ?_, count, last⟩
    rw [count, placed'.trace_eq]
    exact placed'.depth_le_recordedCount

/-- From within a subroutine into the one that it calls, and out of both. -/
theorem depth_bounded_twice :
    let cursor : Cursor := ⟨twiceCallingTrace, 0, ⟨0, 0⟩, [⟨0, 1⟩]⟩
    let bottom : Cursor := ⟨twiceCallingTrace, 0, ⟨0, 0⟩, [⟨0, 0⟩, ⟨0, 1⟩]⟩
    Reachable twiceCallingTrace cursor ∧ ∃ method, cursor.currentMethod? = some method ∧
      method.statistics.maxDepth = 2 ∧ cursor.depth ≤ method.statistics.maxDepth ∧
      Exhausts .enter cursor [bottom] ∧
      [bottom].length ≤ method.statistics.maxDepth - cursor.depth ∧
      ∃ up, Exhausts .leave bottom up ∧ up.length = 2 ∧
        up.getLastD bottom = ⟨twiceCallingTrace, 0, ⟨0, 1⟩, []⟩ := by
  intro cursor bottom
  have reachable : Reachable twiceCallingTrace cursor :=
    .perform .enter (.perform .forward .start)
  obtain ⟨bounded, down, exhausts, walked, few, _, out⟩ := depth_bounded reachable
  have down_eq : down = [bottom] := walked.symm.trans rfl
  subst down_eq
  obtain ⟨_, up, leaves, _, count, last⟩ := out bottom (by simp)
  exact ⟨reachable, _, rfl, rfl, bounded _ rfl, exhausts, few _ rfl, up, leaves, count, last⟩

end Cursor

end TraceReplay
