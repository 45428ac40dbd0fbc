import TraceReplay.Cursor.Basic

/-!
Single steps. Within a list of blocks a step goes to the neighbouring evaluation, past blocks that
have none. In the blocks of a method itself it goes on into the neighbouring methods; in a sub-trace
it ends with the sub-trace.
-/
namespace TraceReplay

/-- The first evaluation in a block from `block` on. -/
def firstStep (blocks : List BlockEvaluation) (block : Nat) : Option Frame :=
  (blocks.zipIdx.drop block).findSome? fun (candidate, b) =>
    if candidate.isEmpty then none else some ⟨b, 0⟩

/-- The last evaluation in a block before `block`. -/
def lastStep (blocks : List BlockEvaluation) (block : Nat) : Option Frame :=
  (blocks.zipIdx.take block).reverse.findSome? fun (candidate, b) =>
    if candidate.isEmpty then none else some ⟨b, candidate.evaluationCount - 1⟩

/-- The number of evaluations in the block of a frame, if there is such a block. -/
def Frame.evaluationCount (frame : Frame) (blocks : List BlockEvaluation) : Nat :=
  (blocks[frame.block]?.map BlockEvaluation.evaluationCount).getD 0

def nextStep (blocks : List BlockEvaluation) (frame : Frame) : Option Frame :=
  if frame.eval + 1 < frame.evaluationCount blocks then some ⟨frame.block, frame.eval + 1⟩
  else firstStep blocks (frame.block + 1)

def previousStep (blocks : List BlockEvaluation) (frame : Frame) : Option Frame :=
  if 0 < frame.eval ∧ frame.eval ≤ frame.evaluationCount blocks then
    some ⟨frame.block, frame.eval - 1⟩
  else lastStep blocks frame.block

namespace Trace

/-- The first step of the first method from `method` on that has one. -/
def firstStepFrom (trace : Trace) (method : Nat) : Option (Nat × Frame) :=
  (trace.methods.zipIdx.drop method).findSome? fun (candidate, m) =>
    (firstStep candidate.blocks 0).map (m, ·)

/-- The last step of the last method before `method` that has one. -/
def lastStepBefore (trace : Trace) (method : Nat) : Option (Nat × Frame) :=
  (trace.methods.zipIdx.take method).reverse.findSome? fun (candidate, m) =>
    (lastStep candidate.blocks candidate.blocks.length).map (m, ·)

end Trace

namespace Cursor

/-- The cursor on the first step of a trace, or at its start if it has no steps. -/
def start (trace : Trace) : Cursor :=
  match trace.firstStepFrom 0 with
  | some (method, frame) => ⟨trace, method, frame, []⟩
  | none => ⟨trace, 0, .start, []⟩

def reset (cursor : Cursor) : Cursor := start cursor.trace

/-- The cursor one step on, if there is a further step. -/
def next? (cursor : Cursor) : Option Cursor :=
  match nextStep cursor.currentBlocks cursor.frame with
  | some frame => some { cursor with frame }
  | none =>
    if cursor.owners.isEmpty then
      (cursor.trace.firstStepFrom (cursor.method + 1)).map fun (method, frame) =>
        { cursor with method, frame }
    else none

/-- The cursor one step back, if there is an earlier step. -/
def previous? (cursor : Cursor) : Option Cursor :=
  match previousStep cursor.currentBlocks cursor.frame with
  | some frame => some { cursor with frame }
  | none =>
    if cursor.owners.isEmpty then
      (cursor.trace.lastStepBefore cursor.method).map fun (method, frame) =>
        { cursor with method, frame }
    else none

def canStepForward (cursor : Cursor) : Bool := cursor.next?.isSome

def canStepBackward (cursor : Cursor) : Bool := cursor.previous?.isSome

end Cursor

end TraceReplay
