import TraceReplay.Cursor.Jump
import TraceReplay.Trace.Statistics

/-!
The moves of a cursor as data, so that sequences of them can be run and recorded. A move that does
not succeed leaves the cursor where it is.
-/
namespace TraceReplay

inductive Move
  | forward
  | backward
  | reset
  | method (index : Nat)
  | block (index : Nat)
  | step (index : Nat)
  | enter
  | leave
deriving DecidableEq, Inhabited

inductive Reply
  /-- A single step, and whether there was one to take. -/
  | stepped (moved : Bool)
  | done
  | refused (error : NavigationError)
deriving DecidableEq, Inhabited

def Reply.succeeded : Reply → Bool
  | .stepped moved => moved
  | .done => true
  | .refused _ => false

namespace Cursor

def settle (cursor : Cursor) : Except NavigationError Cursor → Cursor × Reply
  | .ok moved => (moved, .done)
  | .error error => (cursor, .refused error)

def stepTo (cursor : Cursor) : Option Cursor → Cursor × Reply
  | some moved => (moved, .stepped true)
  | none => (cursor, .stepped false)

def perform (cursor : Cursor) : Move → Cursor × Reply
  | .forward => cursor.stepTo cursor.next?
  | .backward => cursor.stepTo cursor.previous?
  | .reset => (cursor.reset, .done)
  | .method index => cursor.settle (cursor.jumpToMethod index)
  | .block index => cursor.settle (cursor.jumpToBlock index)
  | .step index => cursor.settle (cursor.jumpToStep index)
  | .enter => cursor.settle cursor.enter
  | .leave => cursor.settle cursor.leave

/-- The cursor after some moves, of which each may succeed or not. -/
def run (cursor : Cursor) (moves : List Move) : Cursor :=
  moves.foldl (fun cursor move => (cursor.perform move).1) cursor

theorem run_append (cursor : Cursor) (moves more : List Move) :
    cursor.run (moves ++ more) = (cursor.run moves).run more := List.foldl_append

/-- The cursors after each success of a move that is made until it fails, at most `limit` times. -/
def trailWithin (move : Move) : (limit : Nat) → Cursor → List Cursor
  | 0, _ => []
  | limit + 1, cursor =>
    let (moved, reply) := cursor.perform move
    if reply.succeeded then moved :: trailWithin move limit moved else []

end Cursor

/-- The number of evaluations in a trace, at every depth. No cursor goes in one direction for
longer. -/
def Trace.recordedCount (trace : Trace) : Nat :=
  total (trace.methods.map fun method => method.statistics.evaluations)

namespace Cursor

/-- The cursors after each success of a single step, of entering or of leaving, until it fails. -/
def trail (cursor : Cursor) (move : Move) : List Cursor :=
  trailWithin move cursor.trace.recordedCount cursor

end Cursor

/-- The cursors that can be reached from the start of a trace. -/
inductive Reachable (trace : Trace) : Cursor → Prop
  | start : Reachable trace (Cursor.start trace)
  | perform {cursor : Cursor} (move : Move) :
    Reachable trace cursor → Reachable trace (cursor.perform move).1

end TraceReplay
