import TraceReplay.Proofs.Cursor.Enumeration
import TraceReplay.Proofs.Render.Dump

/-!
The paths of a trace. A path leads from the blocks of a method to one of its evaluations, and from each
evaluation on to one in the sub-trace that it owns. The steps that a cursor can be moved to are the ends of
the paths: a jump leads to the first evaluation of a path, and from an evaluation a way in and a walk lead to
the next one. As every visit of a method ends a path of its own, there are as many of them as the statistics
count.
-/
namespace TraceReplay

def Frame.record? (frame : Frame) (blocks : List BlockEvaluation) :
    Option (BlockEvaluation × InstructionEvaluation) := do
  let block ← blocks[frame.block]?
  return (block, ← block.evaluations[frame.eval]?)

/-- Where frames lead to, the outermost one first: each of them names an evaluation, and the next one is
looked up in its sub-trace. -/
def follow (blocks : List BlockEvaluation) :
    List Frame → Option (BlockEvaluation × InstructionEvaluation)
  | [] => none
  | [frame] => frame.record? blocks
  | frame :: next :: more => do
    let owner ← frame.evaluation? blocks
    follow (← owner.nestedBlocks) (next :: more)

section Follow

variable {blocks : List BlockEvaluation} {frame : Frame}

theorem Frame.record?_eq_some_iff {block : BlockEvaluation} {evaluation : InstructionEvaluation} :
    frame.record? blocks = some (block, evaluation) ↔
      blocks[frame.block]? = some block ∧ block.evaluations[frame.eval]? = some evaluation := by
  simp [record?, Option.bind_eq_some_iff]

theorem Frame.map_snd_record? (frame : Frame) (blocks : List BlockEvaluation) :
    (frame.record? blocks).map Prod.snd = frame.evaluation? blocks := by
  rw [record?, evaluation?]
  cases blocks[frame.block]? with
  | none => rfl
  | some block => cases at_eval : block.evaluations[frame.eval]? <;> simp [at_eval]

theorem blocksBelow_nil (owners : List Frame) : blocksBelow [] owners = [] := by
  induction owners with
  | nil => rfl
  | cons owner owners ih =>
      rw [blocksBelow, ih]
      rfl

theorem blocksBelow_append (blocks : List BlockEvaluation) (inner outer : List Frame) :
    blocksBelow blocks (inner ++ outer) = blocksBelow (blocksBelow blocks outer) inner := by
  induction inner with
  | nil => rfl
  | cons owner inner ih => rw [List.cons_append, blocksBelow, ih, blocksBelow]

/-- The way down comes to what the last frame names in the list that the frames before it lead to. -/
theorem follow_append (blocks : List BlockEvaluation) (way : List Frame) (frame : Frame) :
    follow blocks (way ++ [frame]) = frame.record? (blocksBelow blocks way.reverse) := by
  induction way generalizing blocks with
  | nil => rfl
  | cons owner way ih =>
      have goesOn : follow blocks (owner :: (way ++ [frame])) =
          ((owner.evaluation? blocks).bind (·.nestedBlocks)).bind (follow · (way ++ [frame])) := by
        cases way <;> simp [follow, Option.bind_assoc]
      rw [List.cons_append, goesOn, List.reverse_cons, blocksBelow_append, blocksBelow, blocksBelow]
      cases (owner.evaluation? blocks).bind (·.nestedBlocks) with
      | none =>
          rw [Option.getD_none, blocksBelow_nil]
          rfl
      | some inner => exact ih inner

/-- The frames of a cursor, followed from the outermost one, lead to where it stands. -/
theorem Cursor.follow_frames (blocks : List BlockEvaluation) (cursor : Cursor) :
    follow blocks cursor.frames = cursor.frame.record? (blocksBelow blocks cursor.owners) := by
  rw [frames, List.reverse_cons, follow_append, List.reverse_reverse]

end Follow

namespace Cursor

section Reaching

variable {trace : Trace} {cursor : Cursor} {m : Nat} {method : MethodTrace}

theorem reachable_run (reachable : Reachable trace cursor) (moves : List Move) :
    Reachable trace (cursor.run moves) := by
  induction moves generalizing cursor with
  | nil => exact reachable
  | cons move moves ih => exact ih (.perform move reachable)

/-- What can be reached is what some run of moves leads to. -/
theorem reachable_iff_run :
    Reachable trace cursor ↔ ∃ moves, (Cursor.start trace).run moves = cursor := by
  constructor
  · intro reachable
    induction reachable with
    | start => exact ⟨[], rfl⟩
    | perform move _ ih =>
        obtain ⟨moves, rfl⟩ := ih
        exact ⟨moves ++ [move], run_append _ moves [move]⟩
  · rintro ⟨moves, rfl⟩
    exact reachable_run .start moves

theorem Walk.reachable {move : Move} {walk : List Cursor} (walks : Walk move cursor walk)
    (reachable : Reachable trace cursor) : ∀ visited ∈ walk, Reachable trace visited := by
  induction walks with
  | ends => simp
  | step stepped _ ih =>
      have moved := reachable.perform move
      rw [stepped] at moved
      exact List.forall_mem_cons.mpr ⟨moved, ih moved⟩

theorem isOnStep_mk (found : trace.methods[m]? = some method) (frame : Frame)
    (owners : List Frame) :
    (Cursor.mk trace m frame owners).isOnStep =
      (frame.evaluation? (blocksBelow method.blocks owners)).isSome := by
  rw [isOnStep, currentEvaluation?, currentBlocks_mk found]

/-- From the owner of a sub-trace a cursor goes in and then walks to any of its evaluations. -/
theorem reachable_of_owner {owner frame : Frame} {owners : List Frame}
    {inner : List BlockEvaluation} {evaluation : InstructionEvaluation}
    (found : trace.methods[m]? = some method)
    (reachable : Reachable trace ⟨trace, m, owner, owners⟩)
    (named : owner.evaluation? (blocksBelow method.blocks owners) = some evaluation)
    (owned : evaluation.nestedBlocks = some inner) (inside : frame ∈ addressable inner) :
    Reachable trace ⟨trace, m, frame, owner :: owners⟩ := by
  have current : (Cursor.mk trace m owner owners).currentEvaluation? = some evaluation := by
    rw [currentEvaluation?, currentBlocks_mk found, named]
  have finds := firstStep_finds inner 0
  cases first : firstStep inner 0 with
  | none =>
      rw [first] at finds
      exact absurd ⟨inside, Nat.zero_le _⟩ (Set.eq_empty_iff_forall_notMem.mp finds frame)
  | some start =>
      rw [first] at finds
      have enters : (Cursor.mk trace m owner owners).perform .enter =
          (⟨trace, m, start, owner :: owners⟩, .done) := by
        simp [perform, enter, firstNestedStep?, current, owned, first, settle]
      have entered := reachable.perform .enter
      rw [enters] at entered
      obtain ⟨ahead, _, walks⟩ := enumerates_of_nested entered.wellPlaced (List.cons_ne_nil _ _)
      rcases (finds.2 ⟨inside, Nat.zero_le _⟩).eq_or_lt with same | later
      · exact same ▸ entered
      · have within : frame ∈ addressable (Cursor.mk trace m start (owner :: owners)).currentBlocks := by
          rwa [currentBlocks_mk found, blocksBelow_cons named owned]
        exact walks.forward.reachable entered _
          (List.mem_map_of_mem ((walks.mem_ahead frame).mpr ⟨within, later⟩))

/-- Every evaluation of a method can be reached. -/
theorem reachable_of_named (found : trace.methods[m]? = some method) {frame : Frame}
    {owners : List Frame} (named : frame ∈ addressable (blocksBelow method.blocks owners)) :
    Reachable trace ⟨trace, m, frame, owners⟩ := by
  induction owners generalizing frame with
  | nil =>
      have mem : Position.ofFrame m frame ∈ (Cursor.start trace).trace.addressable := by
        rw [(WellPlaced.start trace).trace_eq]
        exact ⟨method, found, named⟩
      have jumps := jumpToStep_stepNumber mem
      have reachable : Reachable trace _ :=
        .perform (.step ((Cursor.start trace).trace.stepNumber (.ofFrame m frame))) .start
      rw [perform, jumps, (WellPlaced.start trace).trace_eq] at reachable
      exact reachable
  | cons owner owners ih =>
      cases owned : (owner.evaluation? (blocksBelow method.blocks owners)).bind (·.nestedBlocks) with
      | none =>
          rw [blocksBelow, owned, Option.getD_none, addressable_nil] at named
          exact absurd named (Set.notMem_empty frame)
      | some inner =>
          obtain ⟨evaluation, owner_named, owned⟩ := Option.bind_eq_some_iff.mp owned
          rw [blocksBelow_cons owner_named owned] at named
          exact reachable_of_owner found (ih ⟨evaluation, owner_named⟩) owner_named owned named

/-- The steps that can be reached are the evaluations of the methods at their addresses. -/
theorem reachable_onStep_iff :
    Reachable trace cursor ∧ cursor.isOnStep = true ↔
      cursor.trace = trace ∧ ∃ method, trace.methods[cursor.method]? = some method ∧
        cursor.frame ∈ addressable (blocksBelow method.blocks cursor.owners) := by
  constructor
  · rintro ⟨reachable, onStep⟩
    have placed := reachable.wellPlaced
    refine ⟨placed.trace_eq, ?_⟩
    cases placed with
    | noMethods empty =>
        simp [isOnStep, currentEvaluation?, currentBlocks, currentMethod?, empty,
          Frame.evaluation?] at onStep
    | inMethod found =>
        rw [isOnStep_mk found] at onStep
        exact ⟨_, found, Option.isSome_iff_exists.mp onStep⟩
  · rintro ⟨sameTrace, method, found, named⟩
    obtain ⟨_, m, frame, owners⟩ := cursor
    cases sameTrace
    exact ⟨reachable_of_named found named,
      (isOnStep_mk found frame owners).trans (Option.isSome_iff_exists.mpr named)⟩

theorem isSome_follow_frames_iff (blocks : List BlockEvaluation) :
    (follow blocks cursor.frames).isSome = true ↔
      cursor.frame ∈ addressable (blocksBelow blocks cursor.owners) := by
  rw [follow_frames, ← Option.isSome_map (f := Prod.snd), Frame.map_snd_record?]
  exact Option.isSome_iff_exists

end Reaching

section Counting

variable (trace : Trace)

def visitCursors : List Cursor :=
  trace.methods.zipIdx.flatMap fun (method, m) =>
    (visits true [] 0 method.blocks).map (Visit.cursor trace m)

/-- The visits of all methods are the steps that can be reached, and no others. -/
theorem mem_visitCursors {cursor : Cursor} :
    cursor ∈ visitCursors trace ↔ Reachable trace cursor ∧ cursor.isOnStep = true := by
  rw [reachable_onStep_iff, visitCursors, List.mem_flatMap]
  constructor
  · rintro ⟨⟨method, m⟩, at_m, mem⟩
    obtain ⟨visit, visited, rfl⟩ := List.mem_map.mp mem
    have found := List.mem_zipIdx_iff_getElem?.mp at_m
    exact ⟨rfl, method, found, visit.evaluation, (mem_visits_iff.mp visited).1⟩
  · intro ⟨sameTrace, method, found, evaluation, named⟩
    obtain ⟨_, m, frame, owners⟩ := cursor
    cases sameTrace
    exact ⟨(method, m), List.mem_zipIdx_iff_getElem?.mpr found, List.mem_map.mpr
      ⟨⟨owners, frame, evaluation⟩, mem_visits_iff.mpr ⟨named, .inl rfl⟩, rfl⟩⟩

theorem frames_visit (m : Nat) (visit : Visit) :
    (visit.cursor trace m).frames = visit.frames := by
  rw [frames, Visit.frames, Visit.cursor, List.reverse_cons]

/-- No two visits have the same method and the same address. -/
theorem nodup_visitCursors : (visitCursors trace).Nodup := by
  refine List.nodup_flatMap.mpr ⟨fun ⟨method, m⟩ _ => ?_, ?_⟩
  · refine List.pairwise_map.mpr ((visits_ordered true [] 0 method.blocks).imp fun before same => ?_)
    have address := congrArg frames same
    rw [frames_visit, frames_visit] at address
    exact lt_irrefl _ (address ▸ before)
  · refine (pairwise_zipIdx trace.methods).imp fun earlier => ?_
    intro cursor mem mem'
    obtain ⟨_, _, rfl⟩ := List.mem_map.mp mem
    obtain ⟨_, _, same⟩ := List.mem_map.mp mem'
    exact earlier.ne (congrArg Cursor.method same).symm

theorem length_visitCursors : (visitCursors trace).length = trace.recordedCount := by
  have count : ∀ item : MethodTrace × Nat,
      ((visits true [] 0 item.1.blocks).map (Visit.cursor trace item.2)).length =
        item.1.statistics.evaluations := by
    intro item
    rw [List.length_map, evaluations_statistics]
  rw [visitCursors, List.length_flatMap, List.map_congr_left fun item _ => count item]
  have alone := List.map_map (f := Prod.fst) (g := fun method => method.statistics.evaluations)
    (l := trace.methods.zipIdx)
  rw [List.zipIdx_map_fst] at alone
  exact congrArg List.sum alone.symm

end Counting

/-- The cursors on a step that moves lead to are just those at the end of a path: for each path of a method
some moves lead from the start to its frames, and every other step that moves lead to is at the end of one. So
there are as many as the statistics of the methods count. -/
theorem reachable_steps_are_paths (trace : Trace) :
    (∀ m method frames, trace.methods[m]? = some method →
        (follow method.blocks frames).isSome = true →
        ∃ moves cursor, (Cursor.start trace).run moves = cursor ∧ cursor.isOnStep = true ∧
          cursor.trace = trace ∧ cursor.method = m ∧ cursor.frames = frames) ∧
      (∀ moves cursor, (Cursor.start trace).run moves = cursor → cursor.isOnStep = true →
        cursor.trace = trace ∧ ∃ method, trace.methods[cursor.method]? = some method ∧
          (follow method.blocks cursor.frames).isSome = true) ∧
      {cursor | Reachable trace cursor ∧ cursor.isOnStep = true}.Finite ∧
      {cursor | Reachable trace cursor ∧ cursor.isOnStep = true}.ncard =
        total (trace.methods.map fun method => method.statistics.evaluations) := by
  have all (cursor) : cursor ∈ visitCursors trace ↔
      cursor ∈ {cursor | Reachable trace cursor ∧ cursor.isOnStep = true} := mem_visitCursors trace
  refine ⟨?_, ?_, ?_, ?_⟩
  · intro m method frames found leads
    obtain rfl | ⟨owners, frame, rfl⟩ := frames.eq_nil_or_concat
    · cases leads
    · have back : (Cursor.mk trace m frame owners.reverse).frames = owners ++ [frame] := by
        rw [Cursor.frames, List.reverse_cons, List.reverse_reverse]
      rw [List.concat_eq_append, ← back, isSome_follow_frames_iff] at leads
      obtain ⟨reachable, onStep⟩ := reachable_onStep_iff.mpr ⟨rfl, method, found, leads⟩
      obtain ⟨moves, leads⟩ := reachable_iff_run.mp reachable
      exact ⟨moves, _, leads, onStep, rfl, rfl, back.trans (List.concat_eq_append ..).symm⟩
  · intro moves cursor leads onStep
    have reachable := reachable_iff_run.mpr ⟨moves, leads⟩
    obtain ⟨sameTrace, method, found, named⟩ := reachable_onStep_iff.mp ⟨reachable, onStep⟩
    exact ⟨sameTrace, method, found, (isSome_follow_frames_iff _).mpr named⟩
  · exact (visitCursors trace).finite_toSet.subset fun cursor mem => (all cursor).mpr mem
  · rw [ncard_of_nodup (nodup_visitCursors trace) all, length_visitCursors]
    rfl

/-- A step of a subroutine behind an empty block, among the five of its recording. -/
theorem reachable_steps_are_paths_calling :
    (∃ moves cursor, (Cursor.start callingTrace).run moves = cursor ∧ cursor.isOnStep = true ∧
        cursor.trace = callingTrace ∧ cursor.method = 1 ∧ cursor.frames = [⟨1, 0⟩, ⟨1, 1⟩]) ∧
      {cursor | Reachable callingTrace cursor ∧ cursor.isOnStep = true}.ncard = 5 := by
  obtain ⟨reaches, _, _, count⟩ := reachable_steps_are_paths callingTrace
  exact ⟨reaches 1 _ [⟨1, 0⟩, ⟨1, 1⟩] rfl rfl, count⟩

end Cursor

end TraceReplay
