import TraceReplay.Interchange.Decode
import TraceReplay.Interchange.Record
import TraceReplay.Trace.Validity

/-!
Loading a trace from the bytes of a document: they are decoded, and the trace must be valid. A load
that fails yields no trace.
-/
namespace TraceReplay

open Interchange

inductive LoadError
  /-- The bytes could not be read. -/
  | unreadable (reason : String)
  | malformed (cause : Cause) (line column : Nat) (path : Path)
  | invalid (misfit : Misfit)
deriving Inhabited

namespace LoadError

/-- Where a malformed document is at fault, and otherwise zero. -/
def line : LoadError → Nat
  | .malformed _ line _ _ => line
  | _ => 0

def column : LoadError → Nat
  | .malformed _ _ column _ => column
  | _ => 0

/-- The value at fault, unless it is the whole document. -/
def path? : LoadError → Option String
  | .unreadable _ => none
  | .malformed _ _ _ path => path.shown?
  | .invalid misfit => misfit.path.shown?

/-- What lies under the error, as far as it comes from outside the trace. -/
def source? : LoadError → Option String
  | .unreadable reason => some reason
  | .malformed cause line column _ =>
    some (cause.message ++ " at line " ++ toString line ++ " column " ++ toString column)
  | .invalid _ => none

def message (error : LoadError) : String :=
  match error with
  | .unreadable reason => "failed to read trace: " ++ reason
  | .malformed .. =>
    let source := error.source?.getD ""
    match error.path? with
    | some path => "malformed trace at `" ++ path ++ "`: " ++ source
    | none => "malformed trace: " ++ source
  | .invalid misfit =>
    "invalid trace at `" ++ misfit.path.text ++ "`: " ++ misfit.violation.message

/-- A fault in a document, with its place as line and column. -/
def ofFault (document : Bytes) (fault : Fault) : LoadError :=
  let place := fault.place.getD ⟨0, 0⟩
  .malformed fault.cause (place.line document) (place.column document) fault.path

end LoadError

namespace Trace

/-- The trace itself, if it is valid. -/
def checked (trace : Trace) : Except LoadError Trace :=
  match trace.misfit? with
  | some misfit => .error (.invalid misfit)
  | none => .ok trace

def load (document : Bytes) : Except LoadError Trace :=
  match decode document with
  | .ok datum => (Trace.ofDatum datum).checked
  | .error fault => .error (.ofFault document fault)

/-- Loads what a reader yields piece by piece. All of it is read before any is decoded, so a read
that fails is the error whatever came before it. -/
def loadPieces (pieces : List (Except String Bytes)) : Except LoadError Trace :=
  match pieces.mapM id with
  | .ok pieces => load pieces.flatten
  | .error reason => .error (.unreadable reason)

end Trace

end TraceReplay
