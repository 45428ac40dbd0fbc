import TraceReplay.Proofs.Cursor.Placement

/-!
Stepping is going to the neighbour. At the top a step leads to the next addressable position of the
trace in its order, and in a sub-trace to the next addressable frame of its list; where there is none the
cursor stays. A step in one direction is therefore undone by a step in the other.
-/
namespace TraceReplay.Cursor

/-- A step goes to the best of some places; it fails, and leaves the cursor as it is, where there are
none. -/
structure StepsTo {α : Type} (cursor : Cursor) (move : Move) (can : Bool)
    (Best : Set α → α → Prop) (places : Set α) (go : α → Cursor) : Prop where
  can_iff : can = true ↔ places.Nonempty
  succeeds : places.Nonempty →
    ∃ place, Best places place ∧ cursor.perform move = (go place, .stepped true)
  stays : places = ∅ → cursor.perform move = (cursor, .stepped false)

section Found

variable {α : Type} {cursor moved : Cursor} {move : Move} {can : Bool} {Best : Set α → α → Prop}
  {places : Set α} {go : α → Cursor} {target : Option α}

/-- All that a step does is to go to what its search finds. -/
theorem stepsTo_of_finds (finds : Finds Best places target)
    (mem : ∀ place, Best places place → place ∈ places) (can_eq : can = (target.map go).isSome)
    (step : cursor.perform move = cursor.stepTo (target.map go)) :
    cursor.StepsTo move can Best places go where
  can_iff := by
    rw [can_eq, Option.isSome_map]
    exact finds.isSome_iff mem
  succeeds nonempty := by
    obtain ⟨place, rfl⟩ := Option.isSome_iff_exists.mp ((finds.isSome_iff mem).mpr nonempty)
    exact ⟨place, finds, step⟩
  stays empty := by
    cases target with
    | none => exact step
    | some place => exact absurd (mem place finds) (empty ▸ Set.notMem_empty place)

theorem stepTo_eq_iff {result : Option Cursor} :
    cursor.stepTo result = (moved, .stepped true) ↔ result = some moved := by
  cases result <;> simp [stepTo]

end Found

variable {trace : Trace} {cursor moved : Cursor}

theorem isOnStep_iff : cursor.isOnStep = true ↔ cursor.frame ∈ addressable cursor.currentBlocks :=
  Option.isSome_iff_exists

theorem position_moveTo (top : cursor.owners = []) (position : Position) :
    (cursor.moveTo position).position = position :=
  position_of_top (show (cursor.moveTo position).owners = [] from top)

theorem position_mem_addressable (top : cursor.owners = []) (onStep : cursor.isOnStep = true) :
    cursor.position ∈ cursor.trace.addressable := by
  rw [position_of_top top]
  exact (ofFrame_mem_addressable top cursor.frame).mpr (isOnStep_iff.mp onStep)

theorem currentBlocks_moveWithin (cursor : Cursor) (frame : Frame) :
    (cursor.moveWithin frame).currentBlocks = cursor.currentBlocks := rfl

namespace WellPlaced

/-- No place lies between the two, so the step back leads to where the one forward was made. -/
theorem previous?_next? (placed : WellPlaced trace cursor) (onStep : cursor.isOnStep = true)
    (step : cursor.next? = some moved) : moved.previous? = some cursor := by
  have placedAfter := placed.next? step
  by_cases top : cursor.owners = []
  · obtain ⟨target, finds, onward⟩ := next?_of_top top
    obtain ⟨position, rfl, rfl⟩ := Option.map_eq_some_iff.mp (onward.symm.trans step)
    have mem := position_mem_addressable top onStep
    have topAfter : (cursor.moveTo position).owners = [] := top
    obtain ⟨back, findsBack, backward⟩ := previous?_of_top topAfter placedAfter.rests.eval_le
    rw [position_moveTo top] at findsBack
    rw [backward, findsBack.unique (isGreatest_of_isLeast finds mem) ⟨mem, finds.1.2⟩
      fun _ _ => IsGreatest.unique, position_of_top top]
    rfl
  · have finds := nextStep_finds cursor.currentBlocks cursor.frame
    rw [next?_of_nested top] at step
    obtain ⟨frame, found, rfl⟩ := Option.map_eq_some_iff.mp step
    rw [found] at finds
    have mem := isOnStep_iff.mp onStep
    have findsBack := previousStep_finds _ placedAfter.rests.eval_le
    have nested : (cursor.moveWithin frame).owners ≠ [] := top
    rw [previous?_of_nested nested,
      findsBack.unique (isGreatest_of_isLeast finds mem) ⟨mem, finds.1.2⟩
        fun _ _ => IsGreatest.unique]
    rfl

theorem next?_previous? (placed : WellPlaced trace cursor) (onStep : cursor.isOnStep = true)
    (step : cursor.previous? = some moved) : moved.next? = some cursor := by
  by_cases top : cursor.owners = []
  · obtain ⟨target, finds, back⟩ := previous?_of_top top placed.rests.eval_le
    obtain ⟨position, rfl, rfl⟩ := Option.map_eq_some_iff.mp (back.symm.trans step)
    have mem := position_mem_addressable top onStep
    have topAfter : (cursor.moveTo position).owners = [] := top
    obtain ⟨onward, findsOnward, forward⟩ := next?_of_top topAfter
    rw [position_moveTo top] at findsOnward
    rw [forward, findsOnward.unique (isLeast_of_isGreatest finds mem) ⟨mem, finds.1.2⟩
      fun _ _ => IsLeast.unique, position_of_top top]
    rfl
  · have finds := previousStep_finds cursor.currentBlocks placed.rests.eval_le
    rw [previous?_of_nested top] at step
    obtain ⟨frame, found, rfl⟩ := Option.map_eq_some_iff.mp step
    rw [found] at finds
    have mem := isOnStep_iff.mp onStep
    have findsOnward := nextStep_finds cursor.currentBlocks frame
    have nested : (cursor.moveWithin frame).owners ≠ [] := top
    have onward : nextStep cursor.currentBlocks frame = some cursor.frame :=
      findsOnward.unique (isLeast_of_isGreatest finds mem) ⟨mem, finds.1.2⟩ fun _ _ => IsLeast.unique
    rw [next?_of_nested nested, currentBlocks_moveWithin]
    change (nextStep cursor.currentBlocks frame).map _ = _
    rw [onward]
    rfl

end WellPlaced

/-- A single step leads to the neighbouring addressable place, of the trace at the top and of the
innermost list in a sub-trace, and from a step it is undone by a step the other way. -/
theorem step_to_neighbour (reachable : Reachable trace cursor) :
    (cursor.depth = 0 →
      cursor.StepsTo .forward cursor.canStepForward IsLeast
        (trace.addressable ∩ Set.Ioi cursor.position) cursor.moveTo ∧
      cursor.StepsTo .backward cursor.canStepBackward IsGreatest
        (trace.addressable ∩ Set.Iio cursor.position) cursor.moveTo) ∧
    (0 < cursor.depth →
      cursor.StepsTo .forward cursor.canStepForward IsLeast
        (addressable cursor.currentBlocks ∩ Set.Ioi cursor.frame) cursor.moveWithin ∧
      cursor.StepsTo .backward cursor.canStepBackward IsGreatest
        (addressable cursor.currentBlocks ∩ Set.Iio cursor.frame) cursor.moveWithin) ∧
    (cursor.isOnStep = true → ∀ moved,
      (cursor.perform .forward = (moved, .stepped true) →
        moved.perform .backward = (cursor, .stepped true)) ∧
      (cursor.perform .backward = (moved, .stepped true) →
        moved.perform .forward = (cursor, .stepped true))) := by
  have placed := reachable.wellPlaced
  refine ⟨fun atTop => ?_, fun nested => ?_, fun onStep moved => ⟨fun step => ?_, fun step => ?_⟩⟩
  · have top := List.length_eq_zero_iff.mp atTop
    rw [← placed.trace_eq]
    obtain ⟨target, finds, onward⟩ := next?_of_top top
    obtain ⟨target', finds', back⟩ := previous?_of_top top placed.rests.eval_le
    exact ⟨stepsTo_of_finds finds (fun _ best => best.1) (congrArg Option.isSome onward)
        (congrArg cursor.stepTo onward),
      stepsTo_of_finds finds' (fun _ best => best.1) (congrArg Option.isSome back)
        (congrArg cursor.stepTo back)⟩
  · have below := List.length_pos_iff.mp nested
    exact ⟨stepsTo_of_finds (nextStep_finds _ _) (fun _ best => best.1)
        (congrArg Option.isSome (next?_of_nested below))
        (congrArg cursor.stepTo (next?_of_nested below)),
      stepsTo_of_finds (previousStep_finds _ placed.rests.eval_le) (fun _ best => best.1)
        (congrArg Option.isSome (previous?_of_nested below))
        (congrArg cursor.stepTo (previous?_of_nested below))⟩
  · exact stepTo_eq_iff.mpr (placed.previous?_next? onStep (stepTo_eq_iff.mp step))
  · exact stepTo_eq_iff.mpr (placed.next?_previous? onStep (stepTo_eq_iff.mp step))

/-- From the last step of a method the next one is in a later method, past an empty block. -/
theorem step_to_neighbour_past_empty :
    let cursor : Cursor := ⟨callingTrace, 1, ⟨1, 1⟩, []⟩
    let onward : Cursor := ⟨callingTrace, 2, ⟨0, 0⟩, []⟩
    Reachable callingTrace cursor ∧ cursor.depth = 0 ∧ cursor.isOnStep = true ∧
      cursor.StepsTo .forward cursor.canStepForward IsLeast
        (callingTrace.addressable ∩ Set.Ioi cursor.position) cursor.moveTo ∧
      cursor.perform .forward = (onward, .stepped true) ∧
      onward.perform .backward = (cursor, .stepped true) := by
  intro cursor onward
  have reachable : Reachable callingTrace cursor := .perform .forward .start
  obtain ⟨top, _, undone⟩ := step_to_neighbour reachable
  exact ⟨reachable, rfl, rfl, (top rfl).1, rfl, (undone rfl onward).1 rfl⟩

end TraceReplay.Cursor
