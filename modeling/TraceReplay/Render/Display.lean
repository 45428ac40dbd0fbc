import TraceReplay.Output
import TraceReplay.Render.Dump

/-!
Printing scripts on an output, and a display: a cursor and the output that it is shown on. The printing of a script
ends at the first scene that the output refuses, with the cursor of that scene. Showing prints on the output, and a
dump also moves the cursor; moves print nothing.
-/
namespace TraceReplay

/-- What came of printing a script. -/
structure Printed where
  bytes : Bytes
  output : Output
  cursor : Cursor
  complete : Bool
deriving Inhabited

namespace Script

def printFrom (coloured : Bool) (last : Cursor) (output : Output) :
    List (Cursor × List Piece) → Printed
  | [] => ⟨[], output, last, true⟩
  | (cursor, pieces) :: scenes =>
    let bytes := Piece.bytes coloured pieces
    if output.fits bytes then
      let rest := printFrom coloured last (output.after bytes) scenes
      { rest with bytes := bytes ++ rest.bytes }
    else ⟨output.accepted bytes, output.after bytes, cursor, false⟩

def print (script : Script) (coloured : Bool) (output : Output) : Printed :=
  printFrom coloured script.last output script.scenes

end Script

/-- What can be shown from a cursor. -/
inductive Showing
  | view
  /-- The line of the current step. -/
  | line
  | summary (path : String)
  | error (message : String)
  | dump (method : Nat)
deriving DecidableEq, Inhabited

/-- What a showing prints. Only the dump of a method that is not there is refused. -/
def Cursor.script (cursor : Cursor) (settings : RenderSettings) :
    Showing → Except NavigationError Script
  | .view => .ok (.still cursor (cursor.view settings))
  | .line => .ok (.still cursor (cursor.projection.line settings))
  | .summary path => .ok (.still cursor (cursor.trace.summary path))
  | .error message => .ok (.still cursor (Piece.errorLine message))
  | .dump method => cursor.dump settings method

structure Display where
  cursor : Cursor
  output : Output
deriving Inhabited

inductive DisplayAction
  | present (showing : Showing)
  | move (move : Move)
deriving DecidableEq, Inhabited

inductive DisplayResult
  | shown
  /-- The output did not take all that was to be printed. -/
  | full
  | navigation (error : NavigationError)
  | moved (reply : Reply)
deriving DecidableEq, Inhabited

namespace Display

/-- The display after an action, its result, and the bytes printed meanwhile. -/
def perform (display : Display) (settings : RenderSettings) (coloured : Bool) :
    DisplayAction → Display × DisplayResult × Bytes
  | .move move =>
    let (cursor, reply) := display.cursor.perform move
    ({ display with cursor }, .moved reply, [])
  | .present showing =>
    match display.cursor.script settings showing with
    | .error error => (display, .navigation error, [])
    | .ok script =>
      let printed := script.print coloured display.output
      (⟨printed.cursor, printed.output⟩, if printed.complete then .shown else .full, printed.bytes)

end Display

end TraceReplay
