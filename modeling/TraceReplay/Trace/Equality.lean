import TraceReplay.Trace.Basic

/-!
Equality of traces is decidable: two traces are equal when they agree part by part, sub-traces
included.
-/
namespace TraceReplay

mutual

def BlockEvaluation.same : BlockEvaluation → BlockEvaluation → Bool
  | ⟨offset, values, stack, handler, worklist, evaluations⟩,
    ⟨offset', values', stack', handler', worklist', evaluations'⟩ =>
    decide (offset = offset' ∧ values = values' ∧ stack = stack' ∧ handler = handler' ∧
      worklist = worklist') && sameEvaluations evaluations evaluations'

def sameEvaluations : List InstructionEvaluation → List InstructionEvaluation → Bool
  | [], [] => true
  | x :: xs, y :: ys => x.same y && sameEvaluations xs ys
  | _, _ => false

def InstructionEvaluation.same : InstructionEvaluation → InstructionEvaluation → Bool
  | ⟨skip, general, count, text, offset, updated, values, stack, nested⟩,
    ⟨skip', general', count', text', offset', updated', values', stack', nested'⟩ =>
    decide (skip = skip' ∧ general = general' ∧ count = count' ∧ text = text' ∧
      offset = offset' ∧ updated = updated' ∧ values = values' ∧ stack = stack') &&
      sameNested nested nested'

def sameNested : Option (List BlockEvaluation) → Option (List BlockEvaluation) → Bool
  | none, none => true
  | some xs, some ys => sameBlocks xs ys
  | _, _ => false

def sameBlocks : List BlockEvaluation → List BlockEvaluation → Bool
  | [], [] => true
  | x :: xs, y :: ys => x.same y && sameBlocks xs ys
  | _, _ => false

end

mutual

theorem BlockEvaluation.same_iff : ∀ x y : BlockEvaluation, x.same y = true ↔ x = y
  | ⟨_, _, _, _, _, evaluations⟩, ⟨_, _, _, _, _, evaluations'⟩ => by
    simp [BlockEvaluation.same, sameEvaluations_iff evaluations evaluations', and_assoc]

theorem sameEvaluations_iff :
    ∀ xs ys : List InstructionEvaluation, sameEvaluations xs ys = true ↔ xs = ys
  | [], [] => by simp [sameEvaluations]
  | [], _ :: _ => by simp [sameEvaluations]
  | _ :: _, [] => by simp [sameEvaluations]
  | x :: xs, y :: ys => by simp [sameEvaluations, x.same_iff y, sameEvaluations_iff xs ys]

theorem InstructionEvaluation.same_iff : ∀ x y : InstructionEvaluation, x.same y = true ↔ x = y
  | ⟨_, _, _, _, _, _, _, _, nested⟩, ⟨_, _, _, _, _, _, _, _, nested'⟩ => by
    simp [InstructionEvaluation.same, sameNested_iff nested nested', and_assoc]

theorem sameNested_iff :
    ∀ xs ys : Option (List BlockEvaluation), sameNested xs ys = true ↔ xs = ys
  | none, none => by simp [sameNested]
  | none, some _ => by simp [sameNested]
  | some _, none => by simp [sameNested]
  | some xs, some ys => by simp [sameNested, sameBlocks_iff xs ys]

theorem sameBlocks_iff : ∀ xs ys : List BlockEvaluation, sameBlocks xs ys = true ↔ xs = ys
  | [], [] => by simp [sameBlocks]
  | [], _ :: _ => by simp [sameBlocks]
  | _ :: _, [] => by simp [sameBlocks]
  | x :: xs, y :: ys => by simp [sameBlocks, x.same_iff y, sameBlocks_iff xs ys]

end

instance : DecidableEq BlockEvaluation := fun x y => decidable_of_iff _ (x.same_iff y)

instance : DecidableEq InstructionEvaluation := fun x y => decidable_of_iff _ (x.same_iff y)

deriving instance DecidableEq for MethodTrace

deriving instance DecidableEq for Trace

end TraceReplay
