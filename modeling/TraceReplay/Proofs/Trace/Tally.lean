import Mathlib.Order.Bounds.Basic
import TraceReplay.Proofs.Trace.Statistics

/-!
The statistics of a list of blocks as a tally by recursion on the blocks. Tallies add up, so the order in which
the stack hands out the sub-traces does not matter to their sum, and neither does the order of the blocks. The
stack runs empty, whatever is put on it.
-/
namespace TraceReplay

namespace Level

/-- The stack is taken down to its end, and these lists came off it. -/
inductive Drains : List Level → List Level → Prop
  | done : Drains [] []
  | pop {level : Level} {pending taken : List Level} :
      Drains (level.subTraces.reverse ++ pending) taken → Drains (level :: pending) (level :: taken)

theorem drains_unstack (limit : Nat) (pending : List Level) (enough : pendingCount pending ≤ limit) :
    Drains pending (unstack limit pending) := by
  induction limit generalizing pending with
  | zero =>
      cases pending with
      | nil => exact .done
      | cons level pending =>
          rw [pendingCount_cons] at enough
          omega
  | succ limit ih =>
      cases pending with
      | nil => exact .done
      | cons level pending =>
          have pushed := pendingCount_push level pending
          exact .pop (ih _ (by omega))

/-- The limit on the rounds is enough to take all lists off the stack. -/
theorem drains_all (blocks : List BlockEvaluation) : Drains [top blocks] (all blocks) :=
  drains_unstack _ _ (by simp [pendingCount, top])

end Level

/-- A list in or below a list of blocks, and the number of sub-traces on the way down to it. -/
inductive Nests : List BlockEvaluation → Nat → List BlockEvaluation → Prop
  | here {blocks : List BlockEvaluation} : Nests blocks 0 blocks
  | inside {blocks inner lower : List BlockEvaluation} {frame : Frame}
      {evaluation : InstructionEvaluation} {depth : Nat} :
      frame.evaluation? blocks = some evaluation → evaluation.nestedBlocks = some inner →
      Nests inner depth lower → Nests blocks (depth + 1) lower

attribute [ext] Statistics

namespace Statistics

/-- The counts of two tallies are added, and the greater depth of the two stands. -/
instance : Add Statistics where
  add first second :=
    { blocks := first.blocks + second.blocks
      evaluations := first.evaluations + second.evaluations
      skipped := first.skipped + second.skipped
      generalized := first.generalized + second.generalized
      exceptionHandlerBlocks := first.exceptionHandlerBlocks + second.exceptionHandlerBlocks
      nestedBlocks := first.nestedBlocks + second.nestedBlocks
      maxDepth := max first.maxDepth second.maxDepth }

instance : Zero Statistics := ⟨zero⟩

theorem add_eq (first second : Statistics) :
    first + second =
      ⟨first.blocks + second.blocks, first.evaluations + second.evaluations,
        first.skipped + second.skipped, first.generalized + second.generalized,
        first.exceptionHandlerBlocks + second.exceptionHandlerBlocks,
        first.nestedBlocks + second.nestedBlocks, max first.maxDepth second.maxDepth⟩ := rfl

theorem zero_eq : (0 : Statistics) = ⟨0, 0, 0, 0, 0, 0, 0⟩ := rfl

instance : AddCommMonoid Statistics where
  add_assoc first second third := by simp only [add_eq, Nat.add_assoc, Nat.max_assoc]
  zero_add stats := by simp only [add_eq, zero_eq, Nat.zero_add, Nat.zero_max]
  add_zero stats := by simp only [add_eq, zero_eq, Nat.add_zero, Nat.max_zero]
  add_comm first second := by
    ext <;> simp only [add_eq, Nat.add_comm, Nat.max_comm]
  nsmul := nsmulRec

def ofEvaluation (evaluation : InstructionEvaluation) : Statistics :=
  { zero with
    evaluations := 1
    skipped := evaluation.skip.toNat
    generalized := evaluation.isGeneralization.toNat }

def ofBlock (depth : Nat) (block : BlockEvaluation) : Statistics :=
  { zero with
    blocks := 1
    nestedBlocks := (decide (0 < depth)).toNat
    exceptionHandlerBlocks := block.isExceptionHandler.toNat }

def ofDepth (depth : Nat) : Statistics := { zero with maxDepth := depth }

end Statistics

open Statistics in
mutual

/-- The tally of blocks at a depth, with everything below them. An empty list still has its depth. -/
def tally (depth : Nat) : List BlockEvaluation → Statistics
  | [] => ofDepth depth
  | block :: blocks => ofBlock depth block + block.tallyInside depth + tally depth blocks

def BlockEvaluation.tallyInside (depth : Nat) : BlockEvaluation → Statistics
  | ⟨_, _, _, _, _, evaluations⟩ => tallyEvaluations depth evaluations

def tallyEvaluations (depth : Nat) : List InstructionEvaluation → Statistics
  | [] => 0
  | evaluation :: evaluations =>
    ofEvaluation evaluation + evaluation.tallyInside depth + tallyEvaluations depth evaluations

def InstructionEvaluation.tallyInside (depth : Nat) : InstructionEvaluation → Statistics
  | ⟨_, _, _, _, _, _, _, _, none⟩ => 0
  | ⟨_, _, _, _, _, _, _, _, some blocks⟩ => tally (depth + 1) blocks

end

section Sums

open Statistics

variable (depth : Nat)

theorem tally_eq_sum (blocks : List BlockEvaluation) :
    tally depth blocks =
      (blocks.map fun block => ofBlock depth block + block.tallyInside depth).sum + ofDepth depth := by
  induction blocks with
  | nil => exact (zero_add _).symm
  | cons block blocks ih => rw [tally, ih, List.map_cons, List.sum_cons, ← add_assoc]

theorem tallyEvaluations_eq_sum (evaluations : List InstructionEvaluation) :
    tallyEvaluations depth evaluations =
      (evaluations.map fun evaluation => ofEvaluation evaluation + evaluation.tallyInside depth).sum := by
  induction evaluations with
  | nil => rfl
  | cons evaluation evaluations ih => rw [tallyEvaluations, ih, List.map_cons, List.sum_cons]

theorem BlockEvaluation.tallyInside_eq (block : BlockEvaluation) :
    block.tallyInside depth = (block.evaluations.map ofEvaluation).sum +
      (block.evaluations.map fun evaluation => evaluation.tallyInside depth).sum := by
  cases block
  exact (tallyEvaluations_eq_sum depth _).trans List.sum_map_add

theorem InstructionEvaluation.tallyInside_eq (evaluation : InstructionEvaluation) :
    evaluation.tallyInside depth = (evaluation.nestedBlocks.map (tally (depth + 1))).getD 0 := by
  obtain ⟨_, _, _, _, _, _, _, _, nested⟩ := evaluation
  cases nested with
  | none => rfl
  | some blocks => rfl

end Sums

namespace Statistics

section Levels

/-- A fold that adds a weight for each item adds the sum of all. -/
theorem foldl_eq_add_sum {α : Type} {step : Statistics → α → Statistics} {weight : α → Statistics}
    (adds : ∀ stats x, step stats x = stats + weight x) (xs : List α) (stats : Statistics) :
    xs.foldl step stats = stats + (xs.map weight).sum :=
  @foldl_adds _ _ _ _ id step weight adds xs stats

theorem addEvaluation_eq (stats : Statistics) (evaluation : InstructionEvaluation) :
    stats.addEvaluation evaluation = stats + ofEvaluation evaluation := by
  simp [addEvaluation, ofEvaluation, zero, add_eq]

theorem addBlock_eq (depth : Nat) (stats : Statistics) (block : BlockEvaluation) :
    stats.addBlock depth block =
      stats + (ofBlock depth block + (block.evaluations.map ofEvaluation).sum) := by
  rw [addBlock, foldl_eq_add_sum addEvaluation_eq, ← add_assoc]
  simp [ofBlock, zero, add_eq]

def ofLevel (level : Level) : Statistics :=
  ofDepth level.depth + (level.blocks.map fun block =>
    ofBlock level.depth block + (block.evaluations.map ofEvaluation).sum).sum

theorem addLevel_eq (stats : Statistics) (level : Level) :
    stats.addLevel level = stats + ofLevel level := by
  rw [addLevel, foldl_eq_add_sum (addBlock_eq level.depth), ofLevel, ← add_assoc]
  simp [ofDepth, zero, add_eq]

theorem ofBlocks_eq_sum (blocks : List BlockEvaluation) :
    ofBlocks blocks = ((Level.all blocks).map ofLevel).sum := by
  rw [ofBlocks, foldl_eq_add_sum addLevel_eq]
  exact zero_add _

/-- The lists below a list make up together what recursion tallies up in it. -/
theorem sum_ofLevel_below (level : Level) :
    (level.below.map ofLevel).sum = tally level.depth level.blocks := by
  induction level using Level.subTraces_induction with
  | step level ih =>
      have inside : ∀ sub ∈ level.subTraces.reverse,
          (sub.below.map ofLevel).sum = tally (level.depth + 1) sub.blocks := by
        intro sub mem
        have owned := List.mem_reverse.mp mem
        obtain ⟨frame, _, _, _, address⟩ := Level.mem_subTraces.mp owned
        have deeper : sub.depth = level.depth + 1 := congrArg List.length address
        rw [← deeper]
        exact ih sub owned
      rw [level.below_eq, List.map_cons, List.sum_cons, sum_flatMap, List.map_congr_left inside,
        List.map_reverse, List.sum_reverse, Level.sum_subTraces, tally_eq_sum, ofLevel, add_assoc,
        ← List.sum_map_add, add_comm]
      simp only [add_assoc, BlockEvaluation.tallyInside_eq, funext (InstructionEvaluation.tallyInside_eq _)]

/-- The loop over a stack counts what a recursion over the blocks does. -/
theorem ofBlocks_eq (blocks : List BlockEvaluation) : ofBlocks blocks = tally 0 blocks :=
  (ofBlocks_eq_sum blocks).trans (sum_ofLevel_below (Level.top blocks))

end Levels

end Statistics

section NestedBlocks

open Statistics

mutual

/-- Below the top every block is one of a sub-trace. -/
theorem nestedBlocks_tally (depth : Nat) : (blocks : List BlockEvaluation) →
    (tally (depth + 1) blocks).nestedBlocks = (tally (depth + 1) blocks).blocks
  | [] => rfl
  | block :: blocks => by
      have inside := block.nestedBlocks_tallyInside (depth + 1)
      have later := nestedBlocks_tally depth blocks
      rw [tally]
      simp only [add_eq, inside, later]
      rfl

theorem BlockEvaluation.nestedBlocks_tallyInside (depth : Nat) : (block : BlockEvaluation) →
    (block.tallyInside depth).nestedBlocks = (block.tallyInside depth).blocks
  | ⟨_, _, _, _, _, evaluations⟩ => nestedBlocks_tallyEvaluations depth evaluations

theorem nestedBlocks_tallyEvaluations (depth : Nat) : (evaluations : List InstructionEvaluation) →
    (tallyEvaluations depth evaluations).nestedBlocks = (tallyEvaluations depth evaluations).blocks
  | [] => rfl
  | evaluation :: evaluations => by
      have inside := evaluation.nestedBlocks_tallyInside depth
      have later := nestedBlocks_tallyEvaluations depth evaluations
      rw [tallyEvaluations]
      simp only [add_eq, inside, later]
      rfl

theorem InstructionEvaluation.nestedBlocks_tallyInside (depth : Nat) :
    (evaluation : InstructionEvaluation) →
      (evaluation.tallyInside depth).nestedBlocks = (evaluation.tallyInside depth).blocks
  | ⟨_, _, _, _, _, _, _, _, none⟩ => rfl
  | ⟨_, _, _, _, _, _, _, _, some blocks⟩ => nestedBlocks_tally depth blocks

end

theorem blocks_tally_zero (blocks : List BlockEvaluation) :
    (tally 0 blocks).blocks = blocks.length + (tally 0 blocks).nestedBlocks := by
  induction blocks with
  | nil => rfl
  | cons block blocks ih =>
      have inside := block.nestedBlocks_tallyInside 0
      have one : (ofBlock 0 block).blocks = 1 := rfl
      have none : (ofBlock 0 block).nestedBlocks = 0 := rfl
      rw [tally, List.length_cons]
      simp only [add_eq]
      omega

end NestedBlocks

section Depth

open Statistics

/-- A list that nests in another one comes off the stack after it, at its depth. -/
theorem Nests.exists_mem_below {blocks lower : List BlockEvaluation} {depth : Nat}
    (nests : Nests blocks depth lower) (owners : List Frame) :
    ∃ level ∈ Level.below ⟨owners, blocks⟩, level.depth = owners.length + depth := by
  induction nests generalizing owners with
  | here => exact ⟨_, Level.mem_below_iff.mpr (.inl rfl), rfl⟩
  | @inside blocks inner _ frame evaluation depth named owned _ ih =>
      obtain ⟨level, mem, deep⟩ := ih (frame :: owners)
      have sub : ⟨frame :: owners, inner⟩ ∈ Level.subTraces ⟨owners, blocks⟩ :=
        Level.mem_subTraces.mpr ⟨frame, evaluation, named, owned, rfl⟩
      refine ⟨level, Level.mem_below_iff.mpr (.inr ⟨_, sub, mem⟩), ?_⟩
      rw [deep, List.length_cons]
      omega

theorem Level.exists_nests_of_mem_below {level lower : Level} (mem : lower ∈ level.below) :
    ∃ depth, lower.depth = level.depth + depth ∧ Nests level.blocks depth lower.blocks := by
  induction level using subTraces_induction with
  | step level ih =>
      obtain rfl | ⟨sub, owned, mem⟩ := mem_below_iff.mp mem
      · exact ⟨0, rfl, .here⟩
      · obtain ⟨frame, evaluation, named, nested, address⟩ := mem_subTraces.mp owned
        obtain ⟨depth, deep, nests⟩ := ih sub owned mem
        refine ⟨depth + 1, ?_, .inside named nested nests⟩
        rw [deep, Level.depth, Level.depth, address, List.length_cons]
        omega

theorem Statistics.maxDepth_sum_le_iff {tallies : List Statistics} {depth : Nat} :
    tallies.sum.maxDepth ≤ depth ↔ ∀ stats ∈ tallies, stats.maxDepth ≤ depth := by
  induction tallies with
  | nil => simp [zero_eq]
  | cons stats tallies ih =>
      rw [List.sum_cons, List.forall_mem_cons, ← ih]
      exact Nat.max_le

theorem Statistics.exists_maxDepth_eq_sum {tallies : List Statistics} (nonempty : tallies ≠ []) :
    ∃ stats ∈ tallies, stats.maxDepth = tallies.sum.maxDepth := by
  induction tallies with
  | nil => contradiction
  | cons stats tallies ih =>
      have either : (stats :: tallies).sum.maxDepth = max stats.maxDepth tallies.sum.maxDepth := rfl
      rcases Nat.le_total tallies.sum.maxDepth stats.maxDepth with first | later
      · exact ⟨stats, List.mem_cons_self, by rw [either, Nat.max_eq_left first]⟩
      · rw [either, Nat.max_eq_right later]
        by_cases empty : tallies = []
        · subst empty
          exact ⟨stats, List.mem_cons_self, Nat.le_antisymm later (Nat.zero_le _)⟩
        · obtain ⟨found, mem, same⟩ := ih empty
          exact ⟨found, List.mem_cons_of_mem _ mem, same⟩

theorem Statistics.maxDepth_ofLevel (level : Level) : (ofLevel level).maxDepth = level.depth := by
  have flat : (level.blocks.map fun block =>
      ofBlock level.depth block + (block.evaluations.map ofEvaluation).sum).sum.maxDepth ≤ 0 := by
    refine maxDepth_sum_le_iff.mpr (List.forall_mem_map.mpr fun block _ => Nat.max_le.mpr ⟨Nat.le_refl 0, ?_⟩)
    exact maxDepth_sum_le_iff.mpr (List.forall_mem_map.mpr fun _ _ => Nat.le_refl 0)
  exact Nat.max_eq_left (Nat.le_trans flat (Nat.zero_le _))

/-- The greatest depth is the one of the deepest sub-trace, whether it has blocks in it or not. -/
theorem isGreatest_maxDepth (blocks : List BlockEvaluation) :
    IsGreatest {depth | ∃ inner, Nests blocks depth inner} (ofBlocks blocks).maxDepth := by
  rw [ofBlocks_eq_sum, Level.all_eq_below]
  constructor
  · have nonempty : (Level.below (.top blocks)).map ofLevel ≠ [] := by simp [Level.below_eq]
    obtain ⟨_, mem, same⟩ := exists_maxDepth_eq_sum nonempty
    obtain ⟨level, inside, rfl⟩ := List.mem_map.mp mem
    obtain ⟨depth, deep, nests⟩ := Level.exists_nests_of_mem_below inside
    refine ⟨level.blocks, ?_⟩
    have top : (Level.top blocks).depth = 0 := rfl
    rw [← same, maxDepth_ofLevel, deep, top, Nat.zero_add]
    exact nests
  · intro depth ⟨inner, nests⟩
    obtain ⟨level, inside, deep⟩ := nests.exists_mem_below []
    have bound := maxDepth_sum_le_iff.mp (Nat.le_refl _) (ofLevel level) (List.mem_map_of_mem inside)
    rw [maxDepth_ofLevel, deep, List.length_nil, Nat.zero_add] at bound
    exact bound

end Depth

namespace Statistics

theorem ofBlocks_eq_sum_map (blocks : List BlockEvaluation) :
    ofBlocks blocks = (blocks.map fun block => ofBlock 0 block + block.tallyInside 0).sum := by
  rw [ofBlocks_eq, tally_eq_sum]
  exact add_zero _

/-- The stack of lists runs empty, and what is counted as the lists come off it is the tally by recursion on the
blocks: each block and each evaluation counts once at whatever depth it stands, the nested blocks are those
that are not of the list itself, and the greatest depth is the one of the deepest sub-trace. So the statistics
of two lists in a row add up, and those of a list do not depend on the order of its blocks. -/
theorem ofBlocks_eq_tally :
    (∀ blocks, Level.Drains [Level.top blocks] (Level.all blocks) ∧ ofBlocks blocks = tally 0 blocks ∧
      (ofBlocks blocks).blocks = blocks.length + (ofBlocks blocks).nestedBlocks ∧
      IsGreatest {depth | ∃ inner, Nests blocks depth inner} (ofBlocks blocks).maxDepth) ∧
    (∀ first others, ofBlocks (first ++ others) = ofBlocks first + ofBlocks others) ∧
    ∀ blocks others : List BlockEvaluation, blocks.Perm others → ofBlocks blocks = ofBlocks others := by
  refine ⟨fun blocks => ⟨Level.drains_all blocks, ofBlocks_eq blocks, ?_, isGreatest_maxDepth blocks⟩,
    fun first others => ?_, fun blocks others perm => ?_⟩
  · rw [ofBlocks_eq]
    exact blocks_tally_zero blocks
  · rw [ofBlocks_eq_sum_map, ofBlocks_eq_sum_map, ofBlocks_eq_sum_map, List.map_append, List.sum_append]
  · rw [ofBlocks_eq_sum_map, ofBlocks_eq_sum_map]
    exact (perm.map _).sum_eq

def callingBlocks : List BlockEvaluation :=
  let call (nested : List BlockEvaluation) : InstructionEvaluation :=
    ⟨true, false, none, "jsr 8", 0, none, [], [], some nested⟩
  let block (evaluations : List InstructionEvaluation) : BlockEvaluation :=
    ⟨0, [], [], none, [], evaluations⟩
  [block [call [block [call []]]], block []]

/-- The other way round the blocks count the same, and the empty sub-trace has a depth. -/
theorem ofBlocks_eq_tally_reversed :
    callingBlocks.Perm callingBlocks.reverse ∧
      ofBlocks callingBlocks = ofBlocks callingBlocks.reverse ∧
      ofBlocks callingBlocks = ⟨3, 2, 2, 0, 0, 1, 2⟩ := by
  obtain ⟨_, _, ofPerm⟩ := ofBlocks_eq_tally
  have perm : callingBlocks.Perm callingBlocks.reverse := callingBlocks.reverse_perm.symm
  exact ⟨perm, ofPerm _ _ perm, rfl⟩

end Statistics

end TraceReplay
