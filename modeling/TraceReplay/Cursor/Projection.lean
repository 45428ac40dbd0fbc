import TraceReplay.Cursor.Step

/-!
What there is to show about the step a cursor is on. A part that the cursor does not reach, such as
the evaluation of an inert cursor, is empty.
-/
namespace TraceReplay

structure Projection where
  methodIndex : Nat
  blockIndex : Nat
  evalIndex : Nat
  depth : Nat
  className : String
  methodName : String
  methodError : Option EvaluationError
  instructionText : String
  instructionOffset : Option Offset
  variablesBefore : List String
  stackBefore : List String
  blockStartOffset : Option Offset
  /-- The pending blocks, with the update that this step makes. -/
  pendingWorklist : List BranchTarget
  updatedWorklist : Option (List BranchTarget)
  flags : EvaluationFlags
  visitCount : Option UInt32
  exceptionHandler : Option ExceptionHandler
  /-- Whether the step has a sub-trace that can be entered. -/
  hasNested : Bool
deriving DecidableEq, Inhabited

namespace Projection

def empty : Projection where
  methodIndex := 0
  blockIndex := 0
  evalIndex := 0
  depth := 0
  className := ""
  methodName := ""
  methodError := none
  instructionText := ""
  instructionOffset := none
  variablesBefore := []
  stackBefore := []
  blockStartOffset := none
  pendingWorklist := []
  updatedWorklist := none
  flags := .none
  visitCount := none
  exceptionHandler := none
  hasNested := false

/-- Whether there is no step to show. -/
def isEmpty (projection : Projection) : Bool := projection.instructionOffset.isNone

/-- The projection with a block, up to its evaluation at `index`. -/
def withBlock (projection : Projection) (block : BlockEvaluation) (index : Nat) : Projection :=
  { projection with
    blockStartOffset := some block.startOffset
    exceptionHandler := block.exceptionHandler
    pendingWorklist := block.worklistAt index }

def withEvaluation (projection : Projection) (evaluation : InstructionEvaluation) : Projection :=
  { projection with
    instructionText := evaluation.text
    instructionOffset := some evaluation.offset
    variablesBefore := evaluation.variablesBefore
    stackBefore := evaluation.stackBefore
    updatedWorklist := evaluation.updatedWorklist
    flags := evaluation.flags
    visitCount := evaluation.visitCount
    hasNested := (evaluation.nestedBlocks.bind (firstStep · 0)).isSome }

end Projection

namespace Cursor

def projectionIn (cursor : Cursor) (method : MethodTrace) : Projection :=
  { Projection.empty with
    methodIndex := cursor.method
    blockIndex := cursor.frame.block
    evalIndex := cursor.frame.eval
    depth := cursor.depth
    className := method.className
    methodName := method.methodName
    methodError := method.error }

def projection (cursor : Cursor) : Projection :=
  match cursor.currentMethod? with
  | none => .empty
  | some method =>
    match cursor.currentBlock? with
    | none => cursor.projectionIn method
    | some block =>
      let shown := (cursor.projectionIn method).withBlock block cursor.frame.eval
      match block.evaluations[cursor.frame.eval]? with
      | none => shown
      | some evaluation => shown.withEvaluation evaluation

end Cursor

end TraceReplay
