/-!
The recorded run of a partial evaluator over bytecode. A trace holds methods, a method holds block
evaluations, and a block evaluation holds the instructions evaluated in it. An instruction that
calls a subroutine owns a sub-trace, which is again a list of block evaluations, so blocks nest to
any depth. Lists keep the order in which the evaluator worked.
-/
namespace TraceReplay

/-- An address in the code of a method. -/
abbrev Offset := UInt64

/-- The distance between two addresses, each read as a signed word. -/
def Offset.distance (a b : Offset) : Int := a.toInt64.toInt - b.toInt64.toInt

structure Instruction where
  offset : Offset
  text : String
deriving DecidableEq, Inhabited

/-- The failure that ended the evaluation of a method. -/
structure EvaluationError where
  offset : Offset
  message : String
deriving DecidableEq, Inhabited

/-- A protected range and its handler. A handler without a catch type catches everything. -/
structure ExceptionHandler where
  catchStart : Offset
  catchEnd : Offset
  handlerStart : Offset
  catchType : Option String
deriving DecidableEq, Inhabited

/-- The protected range holds its start and not its end. -/
def ExceptionHandler.covers (handler : ExceptionHandler) (offset : Offset) : Bool :=
  decide (handler.catchStart ≤ offset) && decide (offset < handler.catchEnd)

/-- A block waiting on the worklist, with the values it will start from. -/
structure BranchTarget where
  startOffset : Offset
  startVariables : List String
  startStack : List String
deriving DecidableEq, Inhabited

mutual

/-- One pass over a run of instructions, with the worklist as it stood when the pass began. -/
structure BlockEvaluation where
  startOffset : Offset
  startVariables : List String
  startStack : List String
  exceptionHandler : Option ExceptionHandler
  worklist : List BranchTarget
  evaluations : List InstructionEvaluation

/-- The state just before one instruction is evaluated. `updatedWorklist` is the worklist the
instruction leaves behind, where it changed it; `nestedBlocks` is the sub-trace of the subroutine
it calls. In both, an empty list is not the same as none. -/
structure InstructionEvaluation where
  skip : Bool
  isGeneralization : Bool
  visitCount : Option UInt32
  text : String
  offset : Offset
  updatedWorklist : Option (List BranchTarget)
  variablesBefore : List String
  stackBefore : List String
  nestedBlocks : Option (List BlockEvaluation)

end

instance : Inhabited BlockEvaluation := ⟨⟨0, [], [], none, [], []⟩⟩

instance : Inhabited InstructionEvaluation := ⟨⟨false, false, none, "", 0, none, [], [], none⟩⟩

structure MethodTrace where
  className : String
  methodName : String
  instructions : List Instruction
  parameters : List String
  error : Option EvaluationError
  blocks : List BlockEvaluation
deriving Inhabited

structure Trace where
  methods : List MethodTrace
deriving Inhabited

/-- The two marks an instruction evaluation can carry. -/
structure EvaluationFlags where
  skip : Bool
  generalization : Bool
deriving DecidableEq, Inhabited

namespace EvaluationFlags

/-- No mark. -/
def none : EvaluationFlags := ⟨false, false⟩

def bits (flags : EvaluationFlags) : Nat :=
  (if flags.skip then 1 else 0) + (if flags.generalization then 2 else 0)

/-- The flags with these bits, unless a bit stands for no flag. -/
def ofBits? (bits : Nat) : Option EvaluationFlags :=
  if bits < 4 then some ⟨bits.testBit 0, bits.testBit 1⟩ else Option.none

def marker : EvaluationFlags → String
  | ⟨false, false⟩ => ""
  | ⟨true, false⟩ => "S"
  | ⟨false, true⟩ => "G"
  | ⟨true, true⟩ => "SG"

end EvaluationFlags

namespace InstructionEvaluation

def flags (evaluation : InstructionEvaluation) : EvaluationFlags :=
  ⟨evaluation.skip, evaluation.isGeneralization⟩

def changesWorklist (evaluation : InstructionEvaluation) : Bool :=
  evaluation.updatedWorklist.isSome

end InstructionEvaluation

/-- The sum of some counts. -/
def total (counts : List Nat) : Nat := counts.foldr (· + ·) 0

namespace BlockEvaluation

def evaluationCount (block : BlockEvaluation) : Nat := block.evaluations.length

def isEmpty (block : BlockEvaluation) : Bool := block.evaluations.isEmpty

def isExceptionHandler (block : BlockEvaluation) : Bool := block.exceptionHandler.isSome

/-- The worklist once the instruction at `index` is done: the last update up to there, looked for
from that instruction backwards, or else the worklist the block began with. -/
def worklistAt (block : BlockEvaluation) (index : Nat) : List BranchTarget :=
  ((block.evaluations.take (index + 1)).reverse.findSome? (·.updatedWorklist)).getD block.worklist

end BlockEvaluation

namespace MethodTrace

/-- How a method is named for the reader. -/
def displayName (method : MethodTrace) : String := method.className ++ "#" ++ method.methodName

def blockCount (method : MethodTrace) : Nat := method.blocks.length

/-- The number of top-level steps of the method. -/
def evaluationCount (method : MethodTrace) : Nat :=
  total (method.blocks.map BlockEvaluation.evaluationCount)

end MethodTrace

namespace Trace

def methodCount (trace : Trace) : Nat := trace.methods.length

def isEmpty (trace : Trace) : Bool := trace.methods.isEmpty

/-- The number of top-level steps; those inside sub-traces do not count. -/
def totalEvaluationCount (trace : Trace) : Nat :=
  total (trace.methods.map MethodTrace.evaluationCount)

end Trace

end TraceReplay
