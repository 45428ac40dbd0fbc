import TraceReplay.Interchange.Record
import TraceReplay.Proofs.Interchange.Fits

/-!
The data of a trace fits the shape of a trace and says the trace: nothing is lost, whether a list is
absent or empty included. The proofs for blocks and evaluations follow their mutual nesting.
-/
namespace TraceReplay

open Interchange

namespace Interchange

/-- What is written of a value has the shape and is read back as the value. -/
structure RoundTrips {α : Type} (shape : Shape) (write : α → Datum) (read : Datum → α) (x : α) :
    Prop where
  fits : Fits shape (write x)
  back : read (write x) = x

structure RoundTripsField {α : Type} (shape : Shape) (write : Option α → Datum)
    (read : Datum → Option α) (x : Option α) : Prop where
  fits (key : String) : FitsField ⟨key, shape, false⟩ (write x)
  back : read (write x) = x

namespace RoundTrips

theorem text (value : String) : RoundTrips .text .text Datum.toText value := ⟨.text value, rfl⟩

theorem flag (value : Bool) : RoundTrips .flag .flag Datum.toFlag value := ⟨.flag value, rfl⟩

theorem offset (n : Offset) :
    RoundTrips .offset (fun n : Offset => .number n.toNat) Datum.toOffset n where
  fits := .offset n.toNat_lt_size
  back := UInt64.ofNat_toNat

/-- A count is read by way of an offset, which is wide enough for it. -/
theorem count (n : UInt32) :
    RoundTrips .count (fun n : UInt32 => .number n.toNat) (fun datum => datum.toOffset.toUInt32)
      n where
  fits := .count n.toNat_lt_size
  back := (UInt64.toUInt32_ofNat' n.toNat).trans UInt32.ofNat_toNat

variable {α : Type} {shape : Shape} {write : α → Datum} {read : Datum → α}

/-- A list is read back where its elements are, and with it their number. -/
theorem list {xs : List α} (h : ∀ x ∈ xs, RoundTrips shape write read x) :
    RoundTrips (.list shape) (fun xs => .list (xs.map write)) (Datum.toList read) xs where
  fits := by
    refine .list fun datum mem => ?_
    obtain ⟨x, held, rfl⟩ := List.mem_map.mp mem
    exact (h x held).fits
  back := by
    rw [Datum.toList, List.map_map]
    calc xs.map (read ∘ write) = xs.map id := List.map_congr_left fun x mem => (h x mem).back
      _ = xs := List.map_id xs

theorem texts (values : List String) :
    RoundTrips (.list .text) Datum.ofTexts Datum.toTexts values :=
  list fun value _ => text value

/-- What is written shows whether the value is there. -/
theorem option {x : Option α} (h : ∀ y ∈ x, RoundTrips shape write read y) :
    RoundTripsField shape (Datum.ofOption write) (Datum.toOption read) x := by
  cases x with
  | none => exact ⟨fun _ => .absent rfl, rfl⟩
  | some y =>
      have inner := h y rfl
      refine ⟨fun _ => .present inner.fits, ?_⟩
      have present := inner.fits.ne_absent
      rw [Datum.ofOption]
      unfold Datum.toOption
      split
      next h => exact absurd h present
      next => rw [inner.back]

end RoundTrips

end Interchange

theorem Instruction.roundTrips (instruction : Instruction) :
    RoundTrips (.record .instruction) toDatum ofDatum instruction where
  fits := .record (.cons (.present (RoundTrips.offset _).fits) (.cons (.present (.text _)) .nil))
  back := by
    simp only [toDatum, ofDatum, (RoundTrips.offset _).back, (RoundTrips.text _).back]

theorem EvaluationError.roundTrips (error : EvaluationError) :
    RoundTrips (.record .evaluationError) toDatum ofDatum error where
  fits := .record (.cons (.present (RoundTrips.offset _).fits) (.cons (.present (.text _)) .nil))
  back := by
    simp only [toDatum, ofDatum, (RoundTrips.offset _).back, (RoundTrips.text _).back]

theorem ExceptionHandler.roundTrips (handler : ExceptionHandler) :
    RoundTrips (.record .exceptionHandler) toDatum ofDatum handler where
  fits := .record
    (.cons (.present (RoundTrips.offset _).fits) (.cons (.present (RoundTrips.offset _).fits)
      (.cons (.present (RoundTrips.offset _).fits)
        (.cons ((RoundTrips.option fun _ _ => RoundTrips.text _).fits _) .nil))))
  back := by
    simp only [toDatum, ofDatum, (RoundTrips.offset _).back,
      (RoundTrips.option fun _ _ => RoundTrips.text _).back]

theorem BranchTarget.roundTrips (target : BranchTarget) :
    RoundTrips (.record .branchTarget) toDatum ofDatum target where
  fits := .record (.cons (.present (RoundTrips.offset _).fits)
    (.cons (.present (RoundTrips.texts _).fits) (.cons (.present (RoundTrips.texts _).fits) .nil)))
  back := by
    simp only [toDatum, ofDatum, (RoundTrips.offset _).back, (RoundTrips.texts _).back]

theorem BranchTarget.list_roundTrips (targets : List BranchTarget) :
    RoundTrips (.list (.record .branchTarget)) listToDatum (Datum.toList ofDatum) targets :=
  RoundTrips.list fun target _ => target.roundTrips

mutual

/-- Blocks, evaluations and lists of them are read back together, by recursion through the sub-traces. -/
theorem BlockEvaluation.roundTrips :
    (block : BlockEvaluation) →
      RoundTrips (.record .block) BlockEvaluation.toDatum BlockEvaluation.ofDatum block
  | ⟨startOffset, startVariables, startStack, exceptionHandler, worklist, evaluations⟩ => by
      have handler := RoundTrips.option fun handler (_ : handler ∈ exceptionHandler) =>
        handler.roundTrips
      have inside := evaluationsToData_roundTrips evaluations
      constructor
      · exact .record
          (.cons (.present (RoundTrips.offset startOffset).fits)
            (.cons (.present (RoundTrips.texts startVariables).fits)
              (.cons (.present (RoundTrips.texts startStack).fits)
                (.cons (handler.fits _)
                  (.cons (.present (BranchTarget.list_roundTrips worklist).fits)
                    (.cons (.present (.list inside.1)) .nil))))))
      · simp only [BlockEvaluation.toDatum, BlockEvaluation.ofDatum, blockOfValues,
          evaluationsOfValues, handler.back, inside.2, (RoundTrips.offset _).back,
          (RoundTrips.texts _).back, (BranchTarget.list_roundTrips _).back]

theorem evaluationsToData_roundTrips : (evaluations : List InstructionEvaluation) →
    (∀ datum ∈ evaluationsToData evaluations, Fits (.record .evaluation) datum) ∧
      evaluationsOfData (evaluationsToData evaluations) = evaluations
  | [] => by simp [evaluationsToData, evaluationsOfData]
  | evaluation :: evaluations => by
      have first := evaluation.roundTrips
      have others := evaluationsToData_roundTrips evaluations
      rw [evaluationsToData, evaluationsOfData, first.back, others.2]
      exact ⟨List.forall_mem_cons.mpr ⟨first.fits, others.1⟩, rfl⟩

theorem InstructionEvaluation.roundTrips :
    (evaluation : InstructionEvaluation) →
      RoundTrips (.record .evaluation) InstructionEvaluation.toDatum InstructionEvaluation.ofDatum
        evaluation
  | ⟨skip, isGeneralization, visitCount, text, offset, updatedWorklist, variablesBefore,
      stackBefore, nestedBlocks⟩ => by
      have visits := RoundTrips.option fun n (_ : n ∈ visitCount) => RoundTrips.count n
      have worklist := RoundTrips.option fun targets (_ : targets ∈ updatedWorklist) =>
        BranchTarget.list_roundTrips targets
      have nested := nestedBlocksToDatum_roundTrips nestedBlocks
      constructor
      · exact .record
          (.cons (.present (.flag skip))
            (.cons (.present (.flag isGeneralization))
              (.cons (visits.fits _)
                (.cons (.present (.text text))
                  (.cons (.present (RoundTrips.offset offset).fits)
                    (.cons (worklist.fits _)
                      (.cons (.present (RoundTrips.texts variablesBefore).fits)
                        (.cons (.present (RoundTrips.texts stackBefore).fits)
                          (.cons nested.1 .nil)))))))))
      · simp only [InstructionEvaluation.toDatum, InstructionEvaluation.ofDatum,
          evaluationOfValues, visits.back, worklist.back, nested.2, (RoundTrips.offset _).back,
          (RoundTrips.texts _).back, (RoundTrips.text _).back, (RoundTrips.flag _).back]

theorem nestedBlocksToDatum_roundTrips : (nested : Option (List BlockEvaluation)) →
    FitsField ⟨"jsrBlockEvaluations", .list (.record .block), false⟩ (nestedBlocksToDatum nested) ∧
      nestedOfValues [nestedBlocksToDatum nested] = nested
  | none => ⟨.absent rfl, rfl⟩
  | some blocks => by
      have inside := blocksToData_roundTrips blocks
      rw [nestedBlocksToDatum, nestedOfValues, inside.2]
      exact ⟨.present (.list inside.1), rfl⟩

theorem blocksToData_roundTrips : (blocks : List BlockEvaluation) →
    (∀ datum ∈ blocksToData blocks, Fits (.record .block) datum) ∧
      blocksOfData (blocksToData blocks) = blocks
  | [] => by simp [blocksToData, blocksOfData]
  | block :: blocks => by
      have first := block.roundTrips
      have others := blocksToData_roundTrips blocks
      rw [blocksToData, blocksOfData, first.back, others.2]
      exact ⟨List.forall_mem_cons.mpr ⟨first.fits, others.1⟩, rfl⟩

end

theorem blocksToData_eq_map : blocksToData = List.map BlockEvaluation.toDatum := by
  funext blocks
  induction blocks with
  | nil => rw [blocksToData, List.map_nil]
  | cons block blocks ih => rw [blocksToData, List.map_cons, ih]

theorem evaluationsToData_eq_map : evaluationsToData = List.map InstructionEvaluation.toDatum := by
  funext evaluations
  induction evaluations with
  | nil => rw [evaluationsToData, List.map_nil]
  | cons evaluation evaluations ih => rw [evaluationsToData, List.map_cons, ih]

theorem MethodTrace.roundTrips (method : MethodTrace) :
    RoundTrips (.record .method) toDatum ofDatum method := by
  have instructions := RoundTrips.list fun instruction (_ : instruction ∈ method.instructions) =>
    instruction.roundTrips
  have error := RoundTrips.option fun error (_ : error ∈ method.error) => error.roundTrips
  have blocks := RoundTrips.list fun block (_ : block ∈ method.blocks) => block.roundTrips
  constructor
  · exact .record
      (.cons (.present (.text method.className))
        (.cons (.present (.text method.methodName))
          (.cons (.present instructions.fits)
            (.cons (.present (RoundTrips.texts method.parameters).fits)
              (.cons (error.fits _)
                (.cons (.present (blocksToData_eq_map ▸ blocks.fits)) .nil))))))
  · simp only [toDatum, ofDatum, blocksToData_eq_map, instructions.back, error.back, blocks.back,
      (RoundTrips.text _).back, (RoundTrips.texts _).back]

/-- No part of a trace is lost in what is written of it. -/
theorem Trace.roundTrips (trace : Trace) : RoundTrips (.record .trace) toDatum ofDatum trace := by
  have methods := RoundTrips.list fun method (_ : method ∈ trace.methods) => method.roundTrips
  exact ⟨.record (.cons (.present methods.fits) .nil), by rw [toDatum, ofDatum, methods.back]⟩

end TraceReplay
