import TraceReplay.Cursor.Step

/-!
Jumps to a method, a block or a numbered step, and the way into and out of sub-traces. A jump that
is refused leaves no cursor behind, so the one it started from stays.
-/
namespace TraceReplay

inductive NavigationError
  | outOfRange (requested available : Nat)
  /-- The evaluation has no sub-trace with a step in it. -/
  | noNested
  | notNested
deriving DecidableEq, Inhabited

def NavigationError.message : NavigationError → String
  | .outOfRange requested available =>
    "index " ++ toString requested ++ " is out of range (" ++ toString available ++ " available)"
  | .noNested => "instruction has no nested block evaluations"
  | .notNested => "not inside a nested block evaluation"

/-- The `n`th evaluation of blocks numbered from `b`, or else how many are still missing. -/
def stepInBlocks (b : Nat) : List BlockEvaluation → (n : Nat) → Except Nat Frame
  | [], n => .error n
  | block :: blocks, n =>
    if n < block.evaluationCount then .ok ⟨b, n⟩
    else stepInBlocks (b + 1) blocks (n - block.evaluationCount)

/-- The `n`th top-level evaluation of methods numbered from `m`. -/
def stepInMethods (m : Nat) : List MethodTrace → (n : Nat) → Option (Nat × Frame)
  | [], _ => none
  | method :: methods, n =>
    match stepInBlocks 0 method.blocks n with
    | .ok frame => some (m, frame)
    | .error missing => stepInMethods (m + 1) methods missing

namespace Cursor

/-- Leaves all sub-traces for the first step of a method, or for its start if it has none. -/
def jumpToMethod (cursor : Cursor) (method : Nat) : Except NavigationError Cursor :=
  match cursor.trace.methods[method]? with
  | some target => .ok ⟨cursor.trace, method, (firstStep target.blocks 0).getD .start, []⟩
  | none => .error (.outOfRange method cursor.trace.methodCount)

/-- Goes to the first step from a block of the current list on, or to the block if there is none. -/
def jumpToBlock (cursor : Cursor) (block : Nat) : Except NavigationError Cursor :=
  if block < cursor.currentBlocks.length then
    .ok { cursor with frame := (firstStep cursor.currentBlocks block).getD ⟨block, 0⟩ }
  else .error (.outOfRange block cursor.currentBlocks.length)

/-- Leaves all sub-traces for a top-level step, numbered through the whole trace. -/
def jumpToStep (cursor : Cursor) (step : Nat) : Except NavigationError Cursor :=
  match stepInMethods 0 cursor.trace.methods step with
  | some (method, frame) => .ok ⟨cursor.trace, method, frame, []⟩
  | none => .error (.outOfRange step cursor.trace.totalEvaluationCount)

/-- The number of the current step; there is none in sub-traces and for an inert cursor. -/
def stepIndex? (cursor : Cursor) : Option Nat :=
  if cursor.owners.isEmpty ∧ cursor.isOnStep then do
    let method ← cursor.currentMethod?
    let methodsBefore := cursor.trace.methods.take cursor.method
    let blocksBefore := method.blocks.take cursor.frame.block
    some (total (methodsBefore.map MethodTrace.evaluationCount) +
      total (blocksBefore.map BlockEvaluation.evaluationCount) + cursor.frame.eval)
  else none

/-- The first step of the sub-trace that the current evaluation owns. -/
def firstNestedStep? (cursor : Cursor) : Option Frame := do
  firstStep (← (← cursor.currentEvaluation?).nestedBlocks) 0

def canEnter (cursor : Cursor) : Bool := cursor.firstNestedStep?.isSome

def enter (cursor : Cursor) : Except NavigationError Cursor :=
  match cursor.firstNestedStep? with
  | some frame => .ok { cursor with frame, owners := cursor.frame :: cursor.owners }
  | none => .error .noNested

/-- Returns to the evaluation that owns the sub-trace the cursor stands in. -/
def leave (cursor : Cursor) : Except NavigationError Cursor :=
  match cursor.owners with
  | owner :: owners => .ok { cursor with frame := owner, owners }
  | [] => .error .notNested

end Cursor

end TraceReplay
