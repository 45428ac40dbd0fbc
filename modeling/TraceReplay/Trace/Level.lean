import TraceReplay.Trace.Basic

/-!
The lists of block evaluations of a method: its top-level list and every sub-trace, each with its
address. They are taken off a stack, so that all the blocks of a list come before its sub-traces,
and of those the last one, with everything below it, comes first.
-/
namespace TraceReplay

/-- The place of an evaluation in a list of blocks. -/
structure Frame where
  block : Nat
  eval : Nat
deriving DecidableEq, Inhabited

def Frame.start : Frame := ⟨0, 0⟩

/-- The evaluation that a frame names. -/
def Frame.evaluation? (frame : Frame) (blocks : List BlockEvaluation) :
    Option InstructionEvaluation := do
  (← blocks[frame.block]?).evaluations[frame.eval]?

/-- A list of blocks at its address: the frames of the evaluations that own it, innermost first. -/
structure Level where
  owners : List Frame
  blocks : List BlockEvaluation

namespace Level

/-- The list that holds the blocks of a method itself. -/
def top (blocks : List BlockEvaluation) : Level := ⟨[], blocks⟩

def depth (level : Level) : Nat := level.owners.length

/-- The sub-traces that the evaluations of this list own, in order. -/
def subTraces (level : Level) : List Level :=
  level.blocks.zipIdx.flatMap fun (block, b) =>
    block.evaluations.zipIdx.filterMap fun (evaluation, e) =>
      evaluation.nestedBlocks.map fun nested => ⟨⟨b, e⟩ :: level.owners, nested⟩

/-- Takes the lists off a stack, at most `limit` of them. The sub-traces of a list go on the stack
as the list comes off. -/
def unstack : (limit : Nat) → List Level → List Level
  | 0, _ => []
  | _, [] => []
  | limit + 1, level :: pending => level :: unstack limit (level.subTraces.reverse ++ pending)

end Level

mutual

/-- The number of lists in and below a list of blocks, itself included. -/
def listCount : List BlockEvaluation → Nat
  | [] => 1
  | block :: blocks => block.listCount + listCount blocks

def BlockEvaluation.listCount : BlockEvaluation → Nat
  | ⟨_, _, _, _, _, evaluations⟩ => evaluationsListCount evaluations

def evaluationsListCount : List InstructionEvaluation → Nat
  | [] => 0
  | evaluation :: evaluations => evaluation.listCount + evaluationsListCount evaluations

def InstructionEvaluation.listCount : InstructionEvaluation → Nat
  | ⟨_, _, _, _, _, _, _, _, none⟩ => 0
  | ⟨_, _, _, _, _, _, _, _, some blocks⟩ => listCount blocks

end

/-- Every list of blocks in and below `blocks`, in the order in which they come off the stack. -/
def Level.all (blocks : List BlockEvaluation) : List Level :=
  unstack (listCount blocks) [top blocks]

end TraceReplay
