import TraceReplay.Cursor.Move
import TraceReplay.Load

/-!
What is logged while traces are loaded and cursors move.
-/
namespace TraceReplay

inductive Severity
  | trace
  | debug
  | warn
deriving DecidableEq, Inhabited

def Severity.name : Severity → String
  | .trace => "TRACE"
  | .debug => "DEBUG"
  | .warn => "WARN"

inductive Event
  | steppedForward (position : Position)
  | steppedBackward (position : Position)
  | jumpedToMethod (index : Nat) (name : String)
  | entered (depth : Nat)
  | left (depth : Nat)
  | reading (path : String)
  | loaded (methods steps : Nat)
  | replacing (methods : Nat)
  /-- The result of a load came after another load had begun. -/
  | discarded (ticket latest : Nat)
  | failed (error : LoadError)
deriving Inhabited

namespace Event

def severity : Event → Severity
  | .steppedForward _ | .steppedBackward _ | .jumpedToMethod .. | .entered _ | .left _ => .trace
  | .reading _ | .loaded .. | .replacing _ => .debug
  | .discarded .. | .failed _ => .warn

def message : Event → String
  | .steppedForward position => "Stepped forward to " ++ position.text
  | .steppedBackward position => "Stepped backward to " ++ position.text
  | .jumpedToMethod index name => "Jumped to method " ++ toString index ++ " (" ++ name ++ ")"
  | .entered depth => "Entered sub-trace at depth " ++ toString depth
  | .left depth => "Left sub-trace, back at depth " ++ toString depth
  | .reading path => "Reading trace '" ++ path ++ "'"
  | .loaded methods steps =>
    "Loaded trace with " ++ toString methods ++ " methods and " ++ toString steps ++
      " top-level steps"
  | .replacing methods =>
    "Replacing displayed trace with " ++ toString methods ++ " methods"
  | .discarded ticket latest =>
    "Discarding result of load #" ++ toString ticket ++ " (superseded by load #" ++
      toString latest ++ ")"
  | .failed error => "Failed to load trace: " ++ error.message

def line (event : Event) : String := event.severity.name ++ " " ++ event.message

/-- What is logged when a move has led to `cursor`. Resets and jumps within a method are silent. -/
def ofMove (move : Move) (cursor : Cursor) : List Event :=
  match move with
  | .forward => [.steppedForward cursor.position]
  | .backward => [.steppedBackward cursor.position]
  | .method index =>
    [.jumpedToMethod index ((cursor.currentMethod?.map MethodTrace.displayName).getD "")]
  | .enter => [.entered cursor.depth]
  | .leave => [.left cursor.depth]
  | .reset | .block _ | .step _ => []

/-- What is logged when a load has ended. -/
def ofLoad : Except LoadError Trace → List Event
  | .ok trace => [.loaded trace.methodCount trace.totalEvaluationCount]
  | .error _ => []

end Event

end TraceReplay
