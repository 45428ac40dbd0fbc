import TraceReplay.Interchange.Path
import TraceReplay.Trace.Level

/-!
What a decoded trace must satisfy besides its shape: the instruction offsets of a method increase,
and no exception handler has a range that ends before it starts, at any depth. A trace that fails
is reported by the first violation: methods in order, in a method its instructions before its
handlers, and handlers in the order of `Level.all`.
-/
namespace TraceReplay

inductive Violation
  /-- An instruction does not lie after the one before it. -/
  | offsetOrder (offset previous : Offset)
  | handlerRange (catchEnd catchStart : Offset)
deriving DecidableEq, Inhabited

def Violation.message : Violation → String
  | .offsetOrder offset previous =>
    "instruction offset " ++ toString offset.toNat ++ " does not follow previous offset " ++
      toString previous.toNat
  | .handlerRange catchEnd catchStart =>
    "catch range ends at " ++ toString catchEnd.toNat ++ " before it starts at " ++
      toString catchStart.toNat

/-- A violation and where it stands. -/
structure Misfit where
  path : Path
  violation : Violation
deriving DecidableEq, Inhabited

/-- The first instruction, counted from `index`, that does not lie after its predecessor. -/
def Instruction.firstUnordered (index : Nat) : List Instruction → Option (Nat × Violation)
  | previous :: next :: rest =>
    if next.offset ≤ previous.offset then
      some (index + 1, .offsetOrder next.offset previous.offset)
    else firstUnordered (index + 1) (next :: rest)
  | _ => none

def ExceptionHandler.violation? (handler : ExceptionHandler) : Option Violation :=
  if handler.catchEnd < handler.catchStart then
    some (.handlerRange handler.catchEnd handler.catchStart)
  else none

namespace Level

/-- The place of a list of blocks in the document, below the method that holds it. -/
def path (level : Level) : Path :=
  .field "blockEvaluations" :: level.owners.reverse.flatMap fun owner =>
    [.index owner.block, .field "evaluations", .index owner.eval, .field "jsrBlockEvaluations"]

/-- The first block of the list whose handler has an inverted range. -/
def misfit? (level : Level) : Option Misfit :=
  level.blocks.zipIdx.findSome? fun (block, b) => do
    let violation ← (← block.exceptionHandler).violation?
    some ⟨level.path ++ [.index b, .field "exceptionHandlerInfo"], violation⟩

end Level

def MethodTrace.misfit? (method : MethodTrace) : Option Misfit :=
  match Instruction.firstUnordered 0 method.instructions with
  | some (k, violation) =>
    some ⟨[.field "instructions", .index k, .field "offset"], violation⟩
  | none => (Level.all method.blocks).findSome? Level.misfit?

/-- The first violation of a trace; there is none exactly when the trace is valid. -/
def Trace.misfit? (trace : Trace) : Option Misfit :=
  trace.methods.zipIdx.findSome? fun (method, m) =>
    method.misfit?.map fun misfit =>
      { misfit with path := .field "codeAttributes" :: .index m :: misfit.path }

end TraceReplay
