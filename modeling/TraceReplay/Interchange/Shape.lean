/-!
The shapes of the interchange format. Each kind of record has a fixed list of named fields; a
document is read and written along these lists, so both sides agree on names and order.
-/
namespace TraceReplay.Interchange

inductive RecordKind
  | trace
  | method
  | instruction
  | evaluationError
  | block
  | exceptionHandler
  | branchTarget
  | evaluation
deriving DecidableEq, Inhabited

inductive Shape
  | text
  | flag
  /-- A whole number of 64 bits. -/
  | offset
  /-- A whole number of 32 bits. -/
  | count
  | list (item : Shape)
  | record (kind : RecordKind)
deriving DecidableEq, Inhabited

/-- A field that is not required may be null or left out. -/
structure Field where
  key : String
  shape : Shape
  required : Bool
deriving DecidableEq, Inhabited

namespace RecordKind

/-- The name of the kind in messages. -/
def name : RecordKind → String
  | .trace => "Trace"
  | .method => "MethodTrace"
  | .instruction => "Instruction"
  | .evaluationError => "EvaluationError"
  | .block => "BlockEvaluation"
  | .exceptionHandler => "ExceptionHandler"
  | .branchTarget => "BranchTarget"
  | .evaluation => "InstructionEvaluation"

def fields : RecordKind → List Field
  | .trace => [⟨"codeAttributes", .list (.record .method), true⟩]
  | .method =>
    [⟨"clazz", .text, true⟩,
     ⟨"method", .text, true⟩,
     ⟨"instructions", .list (.record .instruction), true⟩,
     ⟨"parameters", .list .text, false⟩,
     ⟨"error", .record .evaluationError, false⟩,
     ⟨"blockEvaluations", .list (.record .block), true⟩]
  | .instruction =>
    [⟨"offset", .offset, true⟩,
     ⟨"instruction", .text, true⟩]
  | .evaluationError =>
    [⟨"instructionOffset", .offset, true⟩,
     ⟨"message", .text, true⟩]
  | .block =>
    [⟨"startOffset", .offset, true⟩,
     ⟨"startVariables", .list .text, true⟩,
     ⟨"startStack", .list .text, true⟩,
     ⟨"exceptionHandlerInfo", .record .exceptionHandler, false⟩,
     ⟨"branchEvaluationStack", .list (.record .branchTarget), true⟩,
     ⟨"evaluations", .list (.record .evaluation), true⟩]
  | .exceptionHandler =>
    [⟨"catchStartOffset", .offset, true⟩,
     ⟨"catchEndOffset", .offset, true⟩,
     ⟨"handlerStartOffset", .offset, true⟩,
     ⟨"catchType", .text, false⟩]
  | .branchTarget =>
    [⟨"startOffset", .offset, true⟩,
     ⟨"startVariables", .list .text, true⟩,
     ⟨"startStack", .list .text, true⟩]
  | .evaluation =>
    [⟨"skipEvaluation", .flag, false⟩,
     ⟨"isGeneralization", .flag, false⟩,
     ⟨"evaluationCount", .count, false⟩,
     ⟨"instruction", .text, true⟩,
     ⟨"instructionOffset", .offset, true⟩,
     ⟨"updatedEvaluationStack", .list (.record .branchTarget), false⟩,
     ⟨"variablesBefore", .list .text, true⟩,
     ⟨"stackBefore", .list .text, true⟩,
     ⟨"jsrBlockEvaluations", .list (.record .block), false⟩]

/-- The place of a key among the fields of a record. -/
def fieldIndex? (kind : RecordKind) (key : String) : Option Nat :=
  kind.fields.findIdx? (·.key == key)

end RecordKind

/-- How a message names what it expected. -/
def Shape.expected : Shape → String
  | .text => "a string"
  | .flag => "a boolean"
  | .offset => "usize"
  | .count => "u32"
  | .list _ => "a sequence"
  | .record kind => "struct " ++ kind.name

/-- The largest number of a shape, plus one. -/
def Shape.limit : Shape → Nat
  | .count => UInt32.size
  | _ => UInt64.size

/-- What a document says, apart from how it is spelled: the values of a record stand in the order
of its fields. -/
inductive Datum
  /-- An optional field that is null or left out. -/
  | absent
  | text (value : String)
  | flag (value : Bool)
  | number (value : Nat)
  | list (items : List Datum)
  | record (kind : RecordKind) (values : List Datum)
deriving Inhabited

end TraceReplay.Interchange
