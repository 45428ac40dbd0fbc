import TraceReplay.Cursor.Event

/-!
A session has at most one trace on display, with the cursor on it. A load replaces the trace only
once it has succeeded; one that fails is remembered. Loads carry numbered tickets, and only the
result of the one begun last is applied. Closing the session also takes a number, so that it
discards the loads before it.
-/
namespace TraceReplay

structure Ticket where
  number : Nat
deriving DecidableEq, Inhabited

structure Session where
  cursor : Option Cursor
  lastError : Option LoadError
  /-- The number given out last. -/
  latest : Nat
deriving Inhabited

inductive SessionState
  | empty
  | loaded
  | failed
deriving DecidableEq, Inhabited

inductive LoadOutcome
  | loaded
  | failed
  | superseded
deriving DecidableEq, Inhabited

namespace Session

def new : Session := ⟨none, none, 0⟩

/-- A session has failed if its last load did, whatever is still on display. -/
def state (session : Session) : SessionState :=
  match session.lastError, session.cursor with
  | some _, _ => .failed
  | none, some _ => .loaded
  | none, none => .empty

def trace? (session : Session) : Option Trace := session.cursor.map Cursor.trace

/-- Starts a load, which supersedes all that are still running. -/
def begin (session : Session) : Session × Ticket :=
  ({ session with latest := session.latest + 1 }, ⟨session.latest + 1⟩)

/-- Applies the result of a load, unless another was begun since. -/
def finish (session : Session) (ticket : Ticket) (result : Except LoadError Trace) :
    Session × LoadOutcome × List Event :=
  if ticket.number = session.latest then
    match result with
    | .ok trace =>
      ({ session with cursor := some (Cursor.start trace), lastError := none }, .loaded,
        [.replacing trace.methodCount])
    | .error error => ({ session with lastError := some error }, .failed, [.failed error])
  else (session, .superseded, [.discarded ticket.number session.latest])

/-- Loads a document for a ticket, also where the result comes too late. -/
def finishDocument (session : Session) (ticket : Ticket) (document : Bytes) :
    Session × LoadOutcome × List Event :=
  let result := Trace.load document
  let (session, outcome, events) := session.finish ticket result
  (session, outcome, Event.ofLoad result ++ events)

/-- Begins a load of a document and finishes it. -/
def load (session : Session) (document : Bytes) : Session × LoadOutcome × List Event :=
  let (session, ticket) := session.begin
  session.finishDocument ticket document

/-- Loads a file, given what reading it yields. -/
def loadFile (session : Session) (path : String) (content : Except String Bytes) :
    Session × LoadOutcome × List Event :=
  let (session, ticket) := session.begin
  let (session, outcome, events) :=
    match content with
    | .ok document => session.finishDocument ticket document
    | .error reason => session.finish ticket (.error (.unreadable reason))
  (session, outcome, .reading path :: events)

def close (session : Session) : Session := ⟨none, none, session.latest + 1⟩

/-- Moves the cursor, if there is one. -/
def perform (session : Session) (move : Move) : Session × Option Reply × List Event :=
  match session.cursor with
  | none => (session, none, [])
  | some cursor =>
    let (moved, reply) := cursor.perform move
    ({ session with cursor := some moved }, some reply,
      if reply.succeeded then Event.ofMove move moved else [])

/-- Makes a move until it fails; the result holds the cursors on the way. -/
def trail (session : Session) (move : Move) : Session × Option (List Cursor) × List Event :=
  match session.cursor with
  | none => (session, none, [])
  | some cursor =>
    let visited := cursor.trail move
    ({ session with cursor := some (visited.getLastD cursor) }, some visited,
      visited.flatMap (Event.ofMove move))

end Session

end TraceReplay
