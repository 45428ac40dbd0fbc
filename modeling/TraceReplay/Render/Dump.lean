import TraceReplay.Cursor.Move
import TraceReplay.Render.View

/-!
The dump of a method: a line for each of its steps, in order, and on request those of each sub-trace
after the step that owns it. A dump is a script: what is printed, with the cursor at that time, and
where the cursor ends.
-/
namespace TraceReplay

/-- Pieces to print in turn, with the cursor as it stands when they are printed. -/
structure Script where
  scenes : List (Cursor × List Piece)
  last : Cursor
deriving Inhabited

def Script.andThen (script : Script) (scene : Cursor × List Piece) : Script :=
  { script with scenes := scene :: script.scenes }

/-- A script that prints once and does not move. -/
def Script.still (cursor : Cursor) (pieces : List Piece) : Script := ⟨[(cursor, pieces)], cursor⟩

namespace Cursor

/-- One step on from a frame in a method, out of the sub-traces that end there. Where no step
follows at any depth, the second part is the cursor outside of them all. -/
def onwardFrom (trace : Trace) (method : Nat) : Frame → List Frame → Except Cursor Cursor
  | frame, [] =>
    match (Cursor.mk trace method frame []).next? with
    | some cursor => .ok cursor
    | none => .error ⟨trace, method, frame, []⟩
  | frame, owner :: owners =>
    match (Cursor.mk trace method frame (owner :: owners)).next? with
    | some cursor => .ok cursor
    | none => onwardFrom trace method owner owners

def onward (cursor : Cursor) : Except Cursor Cursor :=
  onwardFrom cursor.trace cursor.method cursor.frame cursor.owners

/-- The sub-trace that a dump goes into from here. -/
def dumpedInside? (cursor : Cursor) (settings : RenderSettings) : Option Cursor :=
  if settings.showNested then cursor.enter.toOption else none

/-- At most `limit` lines from the cursor on, while it stays in its method. -/
def dumpFrom (settings : RenderSettings) (method : Nat) : (limit : Nat) → Cursor → Script
  | 0, cursor => ⟨[], cursor⟩
  | limit + 1, cursor =>
    let scene := (cursor, cursor.projection.line settings)
    match cursor.dumpedInside? settings with
    | some inside => (dumpFrom settings method limit inside).andThen scene
    | none =>
      match cursor.onward with
      | .error outside => ⟨[scene], outside⟩
      | .ok next =>
        if next.owners.isEmpty ∧ next.method ≠ method then ⟨[scene], next⟩
        else (dumpFrom settings method limit next).andThen scene

/-- The lines of the method that the cursor has just jumped to. Each evaluation of the method gives
one line at most. -/
def dumpHere (cursor : Cursor) (settings : RenderSettings) : Script :=
  match cursor.currentMethod? with
  | none => .still cursor []
  | some method =>
    let title : Cursor × List Piece :=
      (cursor, [.bold, .plain ("[" ++ toString cursor.method ++ "] " ++ method.displayName ++ "\n"),
        .reset])
    if cursor.isOnStep then
      (dumpFrom settings cursor.method method.statistics.evaluations cursor).andThen title
    else (Script.still cursor [noEvaluations]).andThen title

def dump (cursor : Cursor) (settings : RenderSettings) (method : Nat) :
    Except NavigationError Script :=
  (cursor.jumpToMethod method).map fun cursor => cursor.dumpHere settings

end Cursor

end TraceReplay
