import TraceReplay.Trace.Level

/-!
A cursor on a trace. It stands in a method, at a frame of one list of blocks: the list of the method
itself, or the sub-trace of an evaluation that was entered. The frames of the evaluations entered on
the way are kept, innermost first. A cursor is inert where its frame names no evaluation.
-/
namespace TraceReplay

/-- A place among the top-level evaluations of a trace. -/
structure Position where
  method : Nat
  block : Nat
  eval : Nat
deriving DecidableEq, Inhabited

def Position.text (position : Position) : String :=
  toString position.method ++ ":" ++ toString position.block ++ ":" ++ toString position.eval

def Frame.text (frame : Frame) : String := toString frame.block ++ ":" ++ toString frame.eval

/-- The sub-trace reached from a list of blocks through these evaluations, innermost first; where
one of them has none, it is empty. -/
def blocksBelow (blocks : List BlockEvaluation) : List Frame → List BlockEvaluation
  | [] => blocks
  | owner :: owners =>
    ((owner.evaluation? (blocksBelow blocks owners)).bind (·.nestedBlocks)).getD []

structure Cursor where
  trace : Trace
  method : Nat
  frame : Frame
  owners : List Frame
deriving Inhabited

namespace Cursor

/-- The number of sub-traces entered. -/
def depth (cursor : Cursor) : Nat := cursor.owners.length

/-- All frames, outermost first. -/
def frames (cursor : Cursor) : List Frame := (cursor.frame :: cursor.owners).reverse

/-- The frame in the method itself. -/
def topFrame (cursor : Cursor) : Frame := cursor.owners.getLastD cursor.frame

/-- The frames in the sub-traces entered, outermost first. -/
def nestedFrames (cursor : Cursor) : List Frame := cursor.frames.tail

def position (cursor : Cursor) : Position :=
  ⟨cursor.method, cursor.topFrame.block, cursor.topFrame.eval⟩

/-- The position and the frames below it, as a text. -/
def place (cursor : Cursor) : String :=
  cursor.position.text ++ String.join (cursor.nestedFrames.map fun frame => "/" ++ frame.text)

def currentMethod? (cursor : Cursor) : Option MethodTrace := cursor.trace.methods[cursor.method]?

/-- The list of blocks that the cursor stands in. -/
def currentBlocks (cursor : Cursor) : List BlockEvaluation :=
  match cursor.currentMethod? with
  | some method => blocksBelow method.blocks cursor.owners
  | none => []

def currentBlock? (cursor : Cursor) : Option BlockEvaluation :=
  cursor.currentBlocks[cursor.frame.block]?

def currentEvaluation? (cursor : Cursor) : Option InstructionEvaluation :=
  cursor.frame.evaluation? cursor.currentBlocks

def isOnStep (cursor : Cursor) : Bool := cursor.currentEvaluation?.isSome

end Cursor

end TraceReplay
