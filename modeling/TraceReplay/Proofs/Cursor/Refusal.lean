import TraceReplay.Proofs.Cursor.Numbering

/-!
The moves that can be refused. Each of them has one condition under which it fails, and says with its error
what was asked for and what there is; a cursor whose move fails stays as it is, with all its frames.
-/
namespace TraceReplay

/-- An evaluation calls a subroutine where its sub-trace has an evaluation in it. -/
def InstructionEvaluation.Calls (evaluation : InstructionEvaluation) : Prop :=
  ∃ nested, evaluation.nestedBlocks = some nested ∧ ∃ block ∈ nested, block.evaluations ≠ []

namespace Cursor

/-- A move fails under a condition, with an error and without an effect, and is done otherwise. -/
structure FailsIff (cursor : Cursor) (move : Move) (error : NavigationError) (condition : Prop) :
    Prop where
  refused : condition → cursor.perform move = (cursor, .refused error)
  done : ¬condition → ∃ moved, cursor.perform move = (moved, .done)

variable {cursor : Cursor}

theorem failsIff_of_settle {move : Move} {error : NavigationError} {condition : Prop}
    {result : Except NavigationError Cursor} (settles : cursor.perform move = cursor.settle result)
    (fails : condition → result = .error error)
    (succeeds : ¬condition → ∃ moved, result = .ok moved) : cursor.FailsIff move error condition where
  refused met := by
    rw [settles, fails met]
    rfl
  done unmet := by
    obtain ⟨moved, rfl⟩ := succeeds unmet
    exact ⟨moved, settles⟩

theorem jumpToMethod_failsIff (m : Nat) :
    cursor.FailsIff (.method m) (.outOfRange m cursor.trace.methodCount)
      (cursor.trace.methodCount ≤ m) := by
  refine failsIff_of_settle rfl (fun outside => ?_) fun inside => ?_
  · rw [jumpToMethod, List.getElem?_eq_none outside]
  · rw [jumpToMethod, List.getElem?_eq_getElem (Nat.lt_of_not_le inside)]
    exact ⟨_, rfl⟩

theorem jumpToBlock_failsIff (b : Nat) :
    cursor.FailsIff (.block b) (.outOfRange b cursor.currentBlocks.length)
      (cursor.currentBlocks.length ≤ b) := by
  refine failsIff_of_settle rfl (fun outside => ?_) fun inside => ?_
  · rw [jumpToBlock, if_neg (Nat.not_lt_of_le outside)]
  · rw [jumpToBlock, if_pos (Nat.lt_of_not_le inside)]
    exact ⟨_, rfl⟩

/-- The search goes through the whole trace before it fails, and no part of it is kept. -/
theorem jumpToStep_failsIff (n : Nat) :
    cursor.FailsIff (.step n) (.outOfRange n cursor.trace.totalEvaluationCount)
      (cursor.trace.totalEvaluationCount ≤ n) := by
  refine failsIff_of_settle rfl (fun outside => ?_) fun inside =>
    exists_jumpToStep_iff.mpr (Nat.lt_of_not_le inside)
  cases jump : cursor.jumpToStep n with
  | ok moved =>
      exact absurd (exists_jumpToStep_iff.mp ⟨moved, jump⟩) (Nat.not_lt_of_le outside)
  | error =>
      rw [jumpToStep] at jump
      split at jump
      · cases jump
      · exact jump.symm

theorem exists_nonempty_iff {blocks : List BlockEvaluation} :
    (∃ block ∈ blocks, block.evaluations ≠ []) ↔ (addressable blocks).Nonempty := by
  constructor
  · intro ⟨block, mem, nonempty⟩
    obtain ⟨b, found⟩ := List.mem_iff_getElem?.mp mem
    exact ⟨⟨b, 0⟩, mem_addressable_iff_block.mpr ⟨block, found, List.length_pos_iff.mpr nonempty⟩⟩
  · intro ⟨frame, named⟩
    obtain ⟨block, found, inside⟩ := mem_addressable_iff_block.mp named
    exact ⟨block, List.mem_of_getElem? found, List.length_pos_iff.mp (Nat.zero_lt_of_lt inside)⟩

theorem isSome_firstNestedStep?_iff (cursor : Cursor) :
    cursor.firstNestedStep?.isSome ↔
      ∃ evaluation, cursor.currentEvaluation? = some evaluation ∧ evaluation.Calls := by
  have stops (blocks : List BlockEvaluation) :
      (firstStep blocks 0).isSome ↔ ∃ block ∈ blocks, block.evaluations ≠ [] := by
    rw [(firstStep_finds blocks 0).isSome_iff fun _ best => best.1, exists_nonempty_iff]
    exact ⟨fun ⟨frame, mem⟩ => ⟨frame, mem.1⟩, fun ⟨frame, named⟩ => ⟨frame, named, Nat.zero_le _⟩⟩
  rw [firstNestedStep?]
  cases cursor.currentEvaluation? with
  | none => simp
  | some evaluation =>
      cases owned : evaluation.nestedBlocks with
      | none => simp [InstructionEvaluation.Calls, owned]
      | some nested => simpa [InstructionEvaluation.Calls, owned] using stops nested

/-- A sub-trace without any evaluation is as good as none. -/
theorem enter_failsIff :
    cursor.FailsIff .enter .noNested
      (cursor.isOnStep = false ∨
        ∃ evaluation, cursor.currentEvaluation? = some evaluation ∧ ¬evaluation.Calls) := by
  have can := isSome_firstNestedStep?_iff cursor
  refine failsIff_of_settle rfl (fun barred => ?_) fun free => ?_
  · have noStep : cursor.firstNestedStep? = none := by
      rw [← Option.not_isSome_iff_eq_none, can]
      rintro ⟨evaluation, current, calls⟩
      rcases barred with inert | ⟨other, current', silent⟩
      · simp [isOnStep, current] at inert
      · cases current.symm.trans current'
        exact silent calls
    rw [enter, noStep]
  · rw [not_or, Bool.not_eq_false, isOnStep, Option.isSome_iff_exists] at free
    obtain ⟨⟨evaluation, current⟩, calling⟩ := free
    have calls : evaluation.Calls := not_not.mp fun silent => calling ⟨evaluation, current, silent⟩
    obtain ⟨frame, first⟩ := Option.isSome_iff_exists.mp (can.mpr ⟨evaluation, current, calls⟩)
    rw [enter, first]
    exact ⟨_, rfl⟩

theorem leave_failsIff : cursor.FailsIff .leave .notNested (cursor.depth = 0) := by
  refine failsIff_of_settle rfl (fun atTop => ?_) fun nested => ?_
  · rw [leave, List.length_eq_zero_iff.mp atTop]
  · cases around : cursor.owners with
    | nil => exact absurd (congrArg List.length around) nested
    | cons owner owners =>
        rw [leave, around]
        exact ⟨_, rfl⟩

theorem settle_of_failed {result : Except NavigationError Cursor}
    (failed : (cursor.settle result).2.succeeded = false) : (cursor.settle result).1 = cursor := by
  cases result with
  | ok => cases failed
  | error => rfl

theorem stepTo_of_failed {neighbour : Option Cursor}
    (failed : (cursor.stepTo neighbour).2.succeeded = false) :
    (cursor.stepTo neighbour).1 = cursor := by
  cases neighbour with
  | some => cases failed
  | none => rfl

/-- A move that does not succeed has no effect. -/
theorem perform_of_failed {move : Move} (failed : (cursor.perform move).2.succeeded = false) :
    (cursor.perform move).1 = cursor := by
  cases move with
  | forward | backward => exact stepTo_of_failed failed
  | reset => cases failed
  | method | block | step | enter | leave => exact settle_of_failed failed

theorem eq_of_refused {move : Move} {moved : Cursor} {error : NavigationError}
    (refused : cursor.perform move = (moved, .refused error)) : moved = cursor := by
  have stays := perform_of_failed (congrArg (·.2.succeeded) refused)
  rwa [refused] at stays

/-- A jump fails where its number is not below the count of what is there: methods, blocks of the innermost
list, or top-level steps. A sub-trace is entered from a step that calls a subroutine and left from within.
A move that fails has no effect. -/
theorem refused_exactly {trace : Trace} {cursor : Cursor} (reachable : Reachable trace cursor) :
    (∀ m, cursor.FailsIff (.method m) (.outOfRange m trace.methodCount) (trace.methodCount ≤ m)) ∧
      cursor.StandsIn trace cursor.currentBlocks ∧
      (∀ b, cursor.FailsIff (.block b) (.outOfRange b cursor.currentBlocks.length)
        (cursor.currentBlocks.length ≤ b)) ∧
      (∀ n, cursor.FailsIff (.step n) (.outOfRange n trace.totalEvaluationCount)
        (trace.totalEvaluationCount ≤ n)) ∧
      cursor.FailsIff .enter .noNested
        (cursor.isOnStep = false ∨
          ∃ evaluation, cursor.currentEvaluation? = some evaluation ∧ ¬evaluation.Calls) ∧
      cursor.FailsIff .leave .notNested (cursor.depth = 0) ∧
      ∀ move moved error, cursor.perform move = (moved, .refused error) → moved = cursor := by
  have placed := reachable.wellPlaced
  rw [← placed.trace_eq]
  refine ⟨jumpToMethod_failsIff, placed.trace_eq ▸ placed.standsIn, jumpToBlock_failsIff,
    jumpToStep_failsIff, enter_failsIff, leave_failsIff, fun _ _ _ => eq_of_refused⟩

/-- In a subroutine of two blocks, on a step whose own sub-trace is empty. -/
theorem refused_in_subroutine :
    let cursor : Cursor := ⟨callingTrace, 1, ⟨1, 1⟩, [⟨1, 0⟩]⟩
    Reachable callingTrace cursor ∧
      cursor.perform (.method 3) = (cursor, .refused (.outOfRange 3 3)) ∧
      cursor.perform (.block 2) = (cursor, .refused (.outOfRange 2 2)) ∧
      cursor.perform (.step 3) = (cursor, .refused (.outOfRange 3 3)) ∧
      cursor.perform .enter = (cursor, .refused .noNested) ∧
      (∃ moved, cursor.perform .leave = (moved, .done)) ∧
      ∃ moved, cursor.perform (.block 1) = (moved, .done) := by
  intro cursor
  have reachable : Reachable callingTrace cursor :=
    .perform .forward (.perform .enter .start)
  obtain ⟨methods, _, blocks, steps, enter, leave, _⟩ := refused_exactly reachable
  have silent : ¬(InstructionEvaluation.bare (some [])).Calls := by
    rintro ⟨nested, owned, block, mem, _⟩
    cases owned
    cases mem
  exact ⟨reachable, (methods 3).refused (by decide), (blocks 2).refused (by decide),
    (steps 3).refused (by decide), enter.refused (.inr ⟨_, rfl, silent⟩),
    leave.done (by decide), (blocks 1).done (by decide)⟩

end Cursor

end TraceReplay
