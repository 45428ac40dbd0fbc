import TraceReplay.Cursor.Basic

/-!
All texts that are recorded in a trace, at every depth. What a cursor comes to holds no others.
-/
namespace TraceReplay

def BranchTarget.texts (target : BranchTarget) : List String :=
  target.startVariables ++ target.startStack

def ExceptionHandler.texts (handler : ExceptionHandler) : List String := handler.catchType.toList

mutual

def BlockEvaluation.texts : BlockEvaluation → List String
  | ⟨_, startVariables, startStack, exceptionHandler, worklist, evaluations⟩ =>
    startVariables ++ startStack ++ exceptionHandler.toList.flatMap ExceptionHandler.texts ++
      worklist.flatMap BranchTarget.texts ++ evaluationsTexts evaluations

def evaluationsTexts : List InstructionEvaluation → List String
  | [] => []
  | evaluation :: evaluations => evaluation.texts ++ evaluationsTexts evaluations

def InstructionEvaluation.texts : InstructionEvaluation → List String
  | ⟨_, _, _, text, _, updatedWorklist, variablesBefore, stackBefore, nestedBlocks⟩ =>
    text :: (variablesBefore ++ stackBefore ++
      (updatedWorklist.getD []).flatMap BranchTarget.texts ++ nestedTexts nestedBlocks)

def nestedTexts : Option (List BlockEvaluation) → List String
  | none => []
  | some blocks => blocksTexts blocks

def blocksTexts : List BlockEvaluation → List String
  | [] => []
  | block :: blocks => block.texts ++ blocksTexts blocks

end

def MethodTrace.texts (method : MethodTrace) : List String :=
  method.className :: method.methodName :: method.instructions.map Instruction.text ++
    method.parameters ++ method.error.toList.map EvaluationError.message ++
    blocksTexts method.blocks

def Trace.texts (trace : Trace) : List String := trace.methods.flatMap MethodTrace.texts

section Inside

variable {blocks : List BlockEvaluation} {block : BlockEvaluation}
  {evaluation : InstructionEvaluation}

theorem texts_subset_of_mem_blocks (mem : block ∈ blocks) : block.texts ⊆ blocksTexts blocks := by
  induction blocks with
  | nil => cases mem
  | cons first blocks ih =>
      rw [blocksTexts]
      rcases List.mem_cons.mp mem with rfl | mem
      · exact List.subset_append_left _ _
      · exact List.Subset.trans (ih mem) (List.subset_append_right _ _)

theorem texts_subset_of_mem_evaluations (mem : evaluation ∈ block.evaluations) :
    evaluation.texts ⊆ block.texts := by
  have inside {evaluations : List InstructionEvaluation} (mem : evaluation ∈ evaluations) :
      evaluation.texts ⊆ evaluationsTexts evaluations := by
    induction evaluations with
    | nil => cases mem
    | cons first evaluations ih =>
        rw [evaluationsTexts]
        rcases List.mem_cons.mp mem with rfl | mem
        · exact List.subset_append_left _ _
        · exact List.Subset.trans (ih mem) (List.subset_append_right _ _)
  obtain ⟨_, _, _, _, _, evaluations⟩ := block
  rw [BlockEvaluation.texts]
  exact List.Subset.trans (inside mem) (List.subset_append_right _ _)

theorem texts_subset_of_nestedBlocks (nested : evaluation.nestedBlocks = some blocks) :
    blocksTexts blocks ⊆ evaluation.texts := by
  obtain ⟨_, _, _, _, _, _, _, _, _⟩ := evaluation
  cases nested
  rw [InstructionEvaluation.texts, nestedTexts]
  exact List.Subset.trans (List.subset_append_right _ _) (List.subset_cons_self _ _)

theorem texts_subset_of_mem_worklistAt {target : BranchTarget} {index : Nat}
    (mem : target ∈ block.worklistAt index) : target.texts ⊆ block.texts := by
  intro text inTarget
  rw [BlockEvaluation.worklistAt] at mem
  cases search : (block.evaluations.take (index + 1)).reverse.findSome? (·.updatedWorklist) with
  | some targets =>
      obtain ⟨evaluation, inFront, updates⟩ := List.exists_of_findSome?_eq_some search
      have inBlock := List.mem_of_mem_take (List.mem_reverse.mp inFront)
      refine texts_subset_of_mem_evaluations inBlock ?_
      rw [search, Option.getD_some] at mem
      obtain ⟨_, _, _, _, _, _, _, _, _⟩ := evaluation
      cases updates
      have inTargets := List.mem_flatMap.mpr ⟨target, mem, inTarget⟩
      simp only [InstructionEvaluation.texts, Option.getD_some, List.mem_cons, List.mem_append]
      exact .inr (.inl (.inr inTargets))
  | none =>
      rw [search, Option.getD_none] at mem
      obtain ⟨_, _, _, _, _, _⟩ := block
      have inTargets := List.mem_flatMap.mpr ⟨target, mem, inTarget⟩
      simp only [BlockEvaluation.texts, List.mem_append]
      exact .inl (.inr inTargets)

/-- A sub-trace holds texts of the blocks that it is reached from. -/
theorem texts_blocksBelow_subset (blocks : List BlockEvaluation) (owners : List Frame) :
    blocksTexts (blocksBelow blocks owners) ⊆ blocksTexts blocks := by
  induction owners with
  | nil => exact List.Subset.refl _
  | cons owner owners ih =>
      rw [blocksBelow]
      cases named : owner.evaluation? (blocksBelow blocks owners) with
      | none => exact List.nil_subset _
      | some evaluation =>
          rw [Option.bind_some]
          cases nested : evaluation.nestedBlocks with
          | none => exact List.nil_subset _
          | some inner =>
              obtain ⟨outer, outside, holds⟩ := Option.bind_eq_some_iff.mp named
              have inEvaluation := texts_subset_of_nestedBlocks nested
              have inBlock := texts_subset_of_mem_evaluations (List.mem_of_getElem? holds)
              have inLevel := texts_subset_of_mem_blocks (List.mem_of_getElem? outside)
              exact fun text mem => ih (inLevel (inBlock (inEvaluation mem)))

end Inside

end TraceReplay
