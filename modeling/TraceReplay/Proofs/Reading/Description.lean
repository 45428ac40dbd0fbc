import Mathlib.Data.List.Forall2
import Mathlib.Tactic.MkIffOfInductiveProp
import TraceReplay.Proofs.Reading.Meaning
import TraceReplay.Trace.Basic

/-!
The values of a document that describe a trace: the interchange format, field by field. A required field is
written once. An optional field that is left out or null is not present, which is not the same as an empty
list; flags and parameters that are left out or null are false and empty. Lists hold one item for each item
of the trace, in order.
-/
namespace TraceReplay

open Interchange Grammar

namespace Interchange

section Values

def IsText (json : Json) (value : String) : Prop := json = .text (some value)

def IsFlag (json : Json) (value : Bool) : Prop := json = .flag value

/-- Numbers are written with their decimal digits alone: no sign, fraction or exponent. -/
def IsOffset (json : Json) (n : Offset) : Prop := json = .number (wholeLiteral n.toNat)

def IsCount (json : Json) (n : UInt32) : Prop := json = .number (wholeLiteral n.toNat)

variable {α : Type}

@[mk_iff]
inductive IsList (P : Json → α → Prop) : Json → List α → Prop
  | items {items : List Json} {xs : List α} : List.Forall₂ P items xs → IsList P (.list items) xs

end Values

section Fields

variable {α : Type}

@[mk_iff]
inductive Required (P : Json → α → Prop) : List Json → α → Prop
  | once {json : Json} {x : α} : P json x → Required P [json] x

@[mk_iff]
inductive Optional (P : Json → α → Prop) : List Json → Option α → Prop
  | leftOut : Optional P [] none
  | null : Optional P [.null] none
  | once {json : Json} {x : α} : P json x → Optional P [json] (some x)

inductive Defaulted (value : α) (P : Json → α → Prop) : List Json → α → Prop
  | leftOut : Defaulted value P [] value
  | null : Defaulted value P [.null] value
  | once {json : Json} {x : α} : P json x → Defaulted value P [json] x

end Fields

end Interchange

@[mk_iff]
structure Instruction.DescribedBy (json : Json) (instruction : Instruction) : Prop where
  isRecord : json.IsRecord 2
  offset : Required IsOffset (json.field 0 "offset") instruction.offset
  text : Required IsText (json.field 1 "instruction") instruction.text

@[mk_iff]
structure EvaluationError.DescribedBy (json : Json) (error : EvaluationError) : Prop where
  isRecord : json.IsRecord 2
  offset : Required IsOffset (json.field 0 "instructionOffset") error.offset
  message : Required IsText (json.field 1 "message") error.message

@[mk_iff]
structure ExceptionHandler.DescribedBy (json : Json) (handler : ExceptionHandler) : Prop where
  isRecord : json.IsRecord 4
  catchStart : Required IsOffset (json.field 0 "catchStartOffset") handler.catchStart
  catchEnd : Required IsOffset (json.field 1 "catchEndOffset") handler.catchEnd
  handlerStart : Required IsOffset (json.field 2 "handlerStartOffset") handler.handlerStart
  catchType : Optional IsText (json.field 3 "catchType") handler.catchType

@[mk_iff]
structure BranchTarget.DescribedBy (json : Json) (target : BranchTarget) : Prop where
  isRecord : json.IsRecord 3
  startOffset : Required IsOffset (json.field 0 "startOffset") target.startOffset
  startVariables : Required (IsList IsText) (json.field 1 "startVariables") target.startVariables
  startStack : Required (IsList IsText) (json.field 2 "startStack") target.startStack

mutual

@[mk_iff]
inductive BlockEvaluation.DescribedBy : Json → BlockEvaluation → Prop
  | record {json : Json} {block : BlockEvaluation} :
      json.IsRecord 6 →
      Required IsOffset (json.field 0 "startOffset") block.startOffset →
      Required (IsList IsText) (json.field 1 "startVariables") block.startVariables →
      Required (IsList IsText) (json.field 2 "startStack") block.startStack →
      Optional ExceptionHandler.DescribedBy (json.field 3 "exceptionHandlerInfo") block.exceptionHandler →
      Required (IsList BranchTarget.DescribedBy) (json.field 4 "branchEvaluationStack") block.worklist →
      Required (IsList InstructionEvaluation.DescribedBy) (json.field 5 "evaluations") block.evaluations →
      BlockEvaluation.DescribedBy json block

@[mk_iff]
inductive InstructionEvaluation.DescribedBy : Json → InstructionEvaluation → Prop
  | record {json : Json} {evaluation : InstructionEvaluation} :
      json.IsRecord 9 →
      Defaulted false IsFlag (json.field 0 "skipEvaluation") evaluation.skip →
      Defaulted false IsFlag (json.field 1 "isGeneralization") evaluation.isGeneralization →
      Optional IsCount (json.field 2 "evaluationCount") evaluation.visitCount →
      Required IsText (json.field 3 "instruction") evaluation.text →
      Required IsOffset (json.field 4 "instructionOffset") evaluation.offset →
      Optional (IsList BranchTarget.DescribedBy) (json.field 5 "updatedEvaluationStack") evaluation.updatedWorklist →
      Required (IsList IsText) (json.field 6 "variablesBefore") evaluation.variablesBefore →
      Required (IsList IsText) (json.field 7 "stackBefore") evaluation.stackBefore →
      Optional (IsList BlockEvaluation.DescribedBy) (json.field 8 "jsrBlockEvaluations") evaluation.nestedBlocks →
      InstructionEvaluation.DescribedBy json evaluation

end

@[mk_iff]
structure MethodTrace.DescribedBy (json : Json) (method : MethodTrace) : Prop where
  isRecord : json.IsRecord 6
  className : Required IsText (json.field 0 "clazz") method.className
  methodName : Required IsText (json.field 1 "method") method.methodName
  instructions : Required (IsList Instruction.DescribedBy) (json.field 2 "instructions") method.instructions
  parameters : Defaulted [] (IsList IsText) (json.field 3 "parameters") method.parameters
  error : Optional EvaluationError.DescribedBy (json.field 4 "error") method.error
  blocks : Required (IsList BlockEvaluation.DescribedBy) (json.field 5 "blockEvaluations") method.blocks

@[mk_iff]
structure Trace.DescribedBy (json : Json) (trace : Trace) : Prop where
  isRecord : json.IsRecord 1
  methods : Required (IsList MethodTrace.DescribedBy) (json.field 0 "codeAttributes") trace.methods

end TraceReplay
