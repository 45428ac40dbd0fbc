import TraceReplay.Proofs.Trace.Visit

/-!
The statistics of a method count as many evaluations as there are visits of it. Both counts go over the
evaluations of a list and the counts of its sub-traces; the statistics take the sub-traces in another order,
which does not matter to a sum.
-/
namespace TraceReplay

/-- A fold that adds to a field with each item adds the sum of all. -/
theorem foldl_adds {σ α M : Type} [AddMonoid M] {field : σ → M} {step : σ → α → σ} {weight : α → M}
    (adds : ∀ s x, field (step s x) = field s + weight x) (xs : List α) (s : σ) :
    field (xs.foldl step s) = field s + (xs.map weight).sum := by
  induction xs generalizing s with
  | nil => exact (add_zero _).symm
  | cons x xs ih =>
      rw [List.foldl_cons, ih, adds, List.map_cons, List.sum_cons, add_assoc]

/-- The evaluations that stand in these blocks, without those in their sub-traces. -/
def evaluationCount (blocks : List BlockEvaluation) : Nat :=
  (blocks.map BlockEvaluation.evaluationCount).sum

namespace Statistics

theorem evaluations_addBlock (depth : Nat) (stats : Statistics) (block : BlockEvaluation) :
    (stats.addBlock depth block).evaluations = stats.evaluations + block.evaluationCount := by
  have each : ∀ (stats : Statistics) (evaluation : InstructionEvaluation),
      (stats.addEvaluation evaluation).evaluations = stats.evaluations + 1 := fun _ _ => rfl
  rw [addBlock, foldl_adds each]
  simp [BlockEvaluation.evaluationCount]

theorem evaluations_addLevel (stats : Statistics) (level : Level) :
    (stats.addLevel level).evaluations = stats.evaluations + evaluationCount level.blocks :=
  foldl_adds (evaluations_addBlock level.depth) level.blocks _

theorem evaluations_ofBlocks (blocks : List BlockEvaluation) :
    (ofBlocks blocks).evaluations =
      ((Level.all blocks).map fun level => evaluationCount level.blocks).sum := by
  rw [ofBlocks, foldl_adds evaluations_addLevel]
  exact Nat.zero_add _

end Statistics

mutual

/-- What is visited does not depend on the address of the blocks. -/
theorem map_evaluation_visits (nested : Bool) (owners owners' : List Frame) (b b' : Nat) :
    (blocks : List BlockEvaluation) →
      (visits nested owners b blocks).map Visit.evaluation =
        (visits nested owners' b' blocks).map Visit.evaluation
  | [] => by rw [visits, visits]
  | block :: blocks => by
      rw [visits, visits, List.map_append, List.map_append,
        block.map_evaluation_visits nested owners owners' b b',
        map_evaluation_visits nested owners owners' (b + 1) (b' + 1) blocks]

theorem BlockEvaluation.map_evaluation_visits (nested : Bool) (owners owners' : List Frame)
    (b b' : Nat) : (block : BlockEvaluation) →
      (block.visits nested owners b).map Visit.evaluation =
        (block.visits nested owners' b').map Visit.evaluation
  | ⟨_, _, _, _, _, evaluations⟩ =>
    map_evaluation_evaluationVisits nested owners owners' b b' 0 0 evaluations

theorem map_evaluation_evaluationVisits (nested : Bool) (owners owners' : List Frame)
    (b b' e e' : Nat) : (evaluations : List InstructionEvaluation) →
      (evaluationVisits nested owners b e evaluations).map Visit.evaluation =
        (evaluationVisits nested owners' b' e' evaluations).map Visit.evaluation
  | [] => by rw [evaluationVisits, evaluationVisits]
  | evaluation :: evaluations => by
      rw [evaluationVisits, evaluationVisits, List.map_cons, List.map_cons, List.map_append,
        List.map_append, evaluation.map_evaluation_visitsInside nested _ (⟨b', e'⟩ :: owners'),
        map_evaluation_evaluationVisits nested owners owners' b b' (e + 1) (e' + 1) evaluations]

theorem InstructionEvaluation.map_evaluation_visitsInside (nested : Bool)
    (owners owners' : List Frame) : (evaluation : InstructionEvaluation) →
      (evaluation.visitsInside nested owners).map Visit.evaluation =
        (evaluation.visitsInside nested owners').map Visit.evaluation
  | ⟨_, _, _, _, _, _, _, _, none⟩ => rfl
  | ⟨_, _, _, _, _, _, _, _, some blocks⟩ => by
      rw [InstructionEvaluation.visitsInside, InstructionEvaluation.visitsInside]
      cases nested with
      | true => exact map_evaluation_visits true owners owners' 0 0 blocks
      | false => rfl

end

def recordedCount (blocks : List BlockEvaluation) : Nat := (visits true [] 0 blocks).length

theorem length_visitsInside (owners : List Frame) (evaluation : InstructionEvaluation) :
    (evaluation.visitsInside true owners).length =
      (evaluation.nestedBlocks.map recordedCount).getD 0 := by
  rw [evaluation.visitsInside_eq]
  cases evaluation.nestedBlocks with
  | none => rfl
  | some blocks =>
      have same := congrArg List.length (map_evaluation_visits true owners [] 0 0 blocks)
      rw [List.length_map, List.length_map] at same
      exact same

theorem length_evaluationVisits (owners : List Frame) (b e : Nat)
    (evaluations : List InstructionEvaluation) :
    (evaluationVisits true owners b e evaluations).length = evaluations.length +
      (evaluations.map fun evaluation => (evaluation.nestedBlocks.map recordedCount).getD 0).sum := by
  induction evaluations generalizing e with
  | nil => rfl
  | cons evaluation evaluations ih =>
      rw [evaluationVisits, List.length_cons, List.length_append, length_visitsInside, ih,
        List.length_cons, List.map_cons, List.sum_cons]
      omega

theorem length_visits (owners : List Frame) (b : Nat) (blocks : List BlockEvaluation) :
    (visits true owners b blocks).length = evaluationCount blocks +
      (blocks.map fun block => (block.evaluations.map fun evaluation =>
        (evaluation.nestedBlocks.map recordedCount).getD 0).sum).sum := by
  induction blocks generalizing b with
  | nil => rfl
  | cons block blocks ih =>
      rw [visits, block.visits_eq, List.length_append, length_evaluationVisits, ih, evaluationCount,
        evaluationCount, List.map_cons, List.map_cons, List.sum_cons, List.sum_cons,
        BlockEvaluation.evaluationCount]
      omega

/-- The lists below a list hold together the evaluations that are visited in it. -/
theorem sum_below (level : Level) :
    (level.below.map fun level => evaluationCount level.blocks).sum = recordedCount level.blocks := by
  induction level using Level.subTraces_induction with
  | step level ih =>
      have inside : ∀ sub ∈ level.subTraces.reverse,
          (sub.below.map fun level => evaluationCount level.blocks).sum =
            recordedCount sub.blocks := fun sub mem => ih sub (List.mem_reverse.mp mem)
      rw [level.below_eq, List.map_cons, List.sum_cons, sum_flatMap, List.map_congr_left inside,
        List.map_reverse, List.sum_reverse, Level.sum_subTraces, recordedCount, length_visits]

/-- The evaluations counted list by list are those visited from the top. -/
theorem evaluations_statistics (method : MethodTrace) :
    method.statistics.evaluations = (visits true [] 0 method.blocks).length := by
  rw [MethodTrace.statistics, Statistics.evaluations_ofBlocks, Level.all_eq_below, sum_below]
  rfl

/-- Without the sub-traces it is the blocks one after the other. -/
theorem map_evaluation_visits_shallow (owners : List Frame) (b : Nat)
    (blocks : List BlockEvaluation) :
    (visits false owners b blocks).map Visit.evaluation =
      blocks.flatMap BlockEvaluation.evaluations := by
  have within : ∀ (b e : Nat) (evaluations : List InstructionEvaluation),
      (evaluationVisits false owners b e evaluations).map Visit.evaluation = evaluations := by
    intro b e evaluations
    induction evaluations generalizing e with
    | nil => rfl
    | cons evaluation evaluations ih =>
        rw [evaluationVisits, evaluation.visitsInside_eq, if_neg Bool.false_ne_true,
          List.nil_append, List.map_cons, ih]
  induction blocks generalizing b with
  | nil => rfl
  | cons block blocks ih =>
      rw [visits, block.visits_eq, List.map_append, within, ih, List.flatMap_cons]

theorem length_visits_shallow (method : MethodTrace) :
    (visits false [] 0 method.blocks).length = method.evaluationCount := by
  have same := congrArg List.length (map_evaluation_visits_shallow [] 0 method.blocks)
  rw [List.length_map, List.length_flatMap] at same
  exact same

theorem evaluationCount_le_statistics (method : MethodTrace) :
    method.evaluationCount ≤ method.statistics.evaluations := by
  rw [evaluations_statistics, length_visits]
  exact Nat.le_add_right _ _

end TraceReplay
