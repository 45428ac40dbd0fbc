import TraceReplay.Interchange.Shape
import TraceReplay.Trace.Basic

/-!
Traces as data of the interchange format, and back. Writing gives every field a value. Reading
takes an absent flag for false and absent parameters for none; a datum of another shape than the
one asked for reads as the empty value, but what `decode` returns has the shape it was asked for.
-/
namespace TraceReplay

open Interchange

namespace Interchange.Datum

def ofTexts (values : List String) : Datum := .list (values.map .text)

def ofOption {α : Type} (write : α → Datum) : Option α → Datum
  | none => .absent
  | some x => write x

def toText : Datum → String
  | .text value => value
  | _ => ""

def toFlag : Datum → Bool
  | .flag value => value
  | _ => false

def toOffset : Datum → Offset
  | .number value => value.toUInt64
  | _ => 0

def toList {α : Type} (read : Datum → α) : Datum → List α
  | .list items => items.map read
  | _ => []

def toTexts (datum : Datum) : List String := datum.toList toText

def toOption {α : Type} (read : Datum → α) : Datum → Option α
  | .absent => none
  | datum => some (read datum)

end Interchange.Datum

namespace Instruction

def toDatum (instruction : Instruction) : Datum :=
  .record .instruction [.number instruction.offset.toNat, .text instruction.text]

def ofDatum : Datum → Instruction
  | .record _ [offset, text] => ⟨offset.toOffset, text.toText⟩
  | _ => default

end Instruction

namespace EvaluationError

def toDatum (error : EvaluationError) : Datum :=
  .record .evaluationError [.number error.offset.toNat, .text error.message]

def ofDatum : Datum → EvaluationError
  | .record _ [offset, message] => ⟨offset.toOffset, message.toText⟩
  | _ => default

end EvaluationError

namespace ExceptionHandler

def toDatum (handler : ExceptionHandler) : Datum :=
  .record .exceptionHandler
    [.number handler.catchStart.toNat, .number handler.catchEnd.toNat,
     .number handler.handlerStart.toNat, .ofOption .text handler.catchType]

def ofDatum : Datum → ExceptionHandler
  | .record _ [catchStart, catchEnd, handlerStart, catchType] =>
    ⟨catchStart.toOffset, catchEnd.toOffset, handlerStart.toOffset, catchType.toOption Datum.toText⟩
  | _ => default

end ExceptionHandler

namespace BranchTarget

def toDatum (target : BranchTarget) : Datum :=
  .record .branchTarget
    [.number target.startOffset.toNat, .ofTexts target.startVariables, .ofTexts target.startStack]

def ofDatum : Datum → BranchTarget
  | .record _ [startOffset, startVariables, startStack] =>
    ⟨startOffset.toOffset, startVariables.toTexts, startStack.toTexts⟩
  | _ => default

def listToDatum (targets : List BranchTarget) : Datum := .list (targets.map toDatum)

end BranchTarget

mutual

def BlockEvaluation.toDatum : BlockEvaluation → Datum
  | ⟨startOffset, startVariables, startStack, exceptionHandler, worklist, evaluations⟩ =>
    .record .block
      [.number startOffset.toNat, .ofTexts startVariables, .ofTexts startStack,
       .ofOption ExceptionHandler.toDatum exceptionHandler, BranchTarget.listToDatum worklist,
       .list (evaluationsToData evaluations)]

def evaluationsToData : List InstructionEvaluation → List Datum
  | [] => []
  | evaluation :: evaluations => evaluation.toDatum :: evaluationsToData evaluations

def InstructionEvaluation.toDatum : InstructionEvaluation → Datum
  | ⟨skip, isGeneralization, visitCount, text, offset, updatedWorklist, variablesBefore,
      stackBefore, nestedBlocks⟩ =>
    .record .evaluation
      [.flag skip, .flag isGeneralization, .ofOption (fun n => .number n.toNat) visitCount,
       .text text, .number offset.toNat, .ofOption BranchTarget.listToDatum updatedWorklist,
       .ofTexts variablesBefore, .ofTexts stackBefore, nestedBlocksToDatum nestedBlocks]

def nestedBlocksToDatum : Option (List BlockEvaluation) → Datum
  | none => .absent
  | some blocks => .list (blocksToData blocks)

def blocksToData : List BlockEvaluation → List Datum
  | [] => []
  | block :: blocks => block.toDatum :: blocksToData blocks

end

mutual

def BlockEvaluation.ofDatum : Datum → BlockEvaluation
  | .record _ values => blockOfValues values
  | _ => default

def blockOfValues : List Datum → BlockEvaluation
  | startOffset :: startVariables :: startStack :: exceptionHandler :: worklist :: rest =>
    { startOffset := startOffset.toOffset
      startVariables := startVariables.toTexts
      startStack := startStack.toTexts
      exceptionHandler := exceptionHandler.toOption ExceptionHandler.ofDatum
      worklist := worklist.toList BranchTarget.ofDatum
      evaluations := evaluationsOfValues rest }
  | _ => default

/-- The evaluations of a block, from its last field on. -/
def evaluationsOfValues : List Datum → List InstructionEvaluation
  | .list items :: _ => evaluationsOfData items
  | _ => []

def evaluationsOfData : List Datum → List InstructionEvaluation
  | [] => []
  | datum :: data => InstructionEvaluation.ofDatum datum :: evaluationsOfData data

def InstructionEvaluation.ofDatum : Datum → InstructionEvaluation
  | .record _ values => evaluationOfValues values
  | _ => default

def evaluationOfValues : List Datum → InstructionEvaluation
  | skip :: isGeneralization :: visitCount :: text :: offset :: updatedWorklist ::
      variablesBefore :: stackBefore :: rest =>
    { skip := skip.toFlag
      isGeneralization := isGeneralization.toFlag
      visitCount := visitCount.toOption fun n => n.toOffset.toUInt32
      text := text.toText
      offset := offset.toOffset
      updatedWorklist := updatedWorklist.toOption (·.toList BranchTarget.ofDatum)
      variablesBefore := variablesBefore.toTexts
      stackBefore := stackBefore.toTexts
      nestedBlocks := nestedOfValues rest }
  | _ => default

/-- The sub-trace of an evaluation, from its last field on. -/
def nestedOfValues : List Datum → Option (List BlockEvaluation)
  | .list items :: _ => some (blocksOfData items)
  | _ => none

def blocksOfData : List Datum → List BlockEvaluation
  | [] => []
  | datum :: data => BlockEvaluation.ofDatum datum :: blocksOfData data

end

namespace MethodTrace

def toDatum (method : MethodTrace) : Datum :=
  .record .method
    [.text method.className, .text method.methodName,
     .list (method.instructions.map Instruction.toDatum), .ofTexts method.parameters,
     .ofOption EvaluationError.toDatum method.error, .list (blocksToData method.blocks)]

def ofDatum : Datum → MethodTrace
  | .record _ [className, methodName, instructions, parameters, error, blocks] =>
    ⟨className.toText, methodName.toText, instructions.toList Instruction.ofDatum,
      parameters.toTexts, error.toOption EvaluationError.ofDatum,
      blocks.toList BlockEvaluation.ofDatum⟩
  | _ => default

end MethodTrace

namespace Trace

def toDatum (trace : Trace) : Datum :=
  .record .trace [.list (trace.methods.map MethodTrace.toDatum)]

def ofDatum : Datum → Trace
  | .record _ [methods] => ⟨methods.toList MethodTrace.ofDatum⟩
  | _ => default

end Trace

end TraceReplay
