import TraceReplay.Trace.Level

/-!
Counts over a list of block evaluations and all its sub-traces.
-/
namespace TraceReplay

/-- Blocks and evaluations are counted at every depth. `nestedBlocks` are the blocks inside
sub-traces; `maxDepth` is the depth of the deepest sub-trace, an empty one included. -/
structure Statistics where
  blocks : Nat
  evaluations : Nat
  skipped : Nat
  generalized : Nat
  exceptionHandlerBlocks : Nat
  nestedBlocks : Nat
  maxDepth : Nat
deriving DecidableEq, Inhabited

namespace Statistics

def zero : Statistics := ⟨0, 0, 0, 0, 0, 0, 0⟩

def addEvaluation (stats : Statistics) (evaluation : InstructionEvaluation) : Statistics :=
  { stats with
    evaluations := stats.evaluations + 1
    skipped := stats.skipped + evaluation.skip.toNat
    generalized := stats.generalized + evaluation.isGeneralization.toNat }

/-- Counts a block that stands at `depth`, without the sub-traces below it. -/
def addBlock (depth : Nat) (stats : Statistics) (block : BlockEvaluation) : Statistics :=
  block.evaluations.foldl addEvaluation
    { stats with
      blocks := stats.blocks + 1
      nestedBlocks := stats.nestedBlocks + (decide (0 < depth)).toNat
      exceptionHandlerBlocks := stats.exceptionHandlerBlocks + block.isExceptionHandler.toNat }

def addLevel (stats : Statistics) (level : Level) : Statistics :=
  level.blocks.foldl (addBlock level.depth)
    { stats with maxDepth := max stats.maxDepth level.depth }

def ofBlocks (blocks : List BlockEvaluation) : Statistics := (Level.all blocks).foldl addLevel zero

end Statistics

def MethodTrace.statistics (method : MethodTrace) : Statistics := Statistics.ofBlocks method.blocks

end TraceReplay
