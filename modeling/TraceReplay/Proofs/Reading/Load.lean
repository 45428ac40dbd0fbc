import TraceReplay.Cursor.Basic
import TraceReplay.Proofs.Reading.Data
import TraceReplay.Proofs.Reading.Document
import TraceReplay.Proofs.Reading.Unambiguous
import TraceReplay.Proofs.Trace.WellFormed

/-!
What a document must be to load, and as what it loads: its one value has to describe a well-formed trace, and
then the trace is what it describes, however it is spelled. An evaluation of the trace stands where its value
stands in the document, at every depth of sub-traces.
-/
namespace TraceReplay

open Interchange Grammar

namespace Interchange

section Lists

variable {α : Type} {P : Json → α → Prop} {found : List Json} {xs : List α}

/-- The items of the list that is written for a field. -/
def itemsOf : List Json → List Json
  | [.list items] => items
  | _ => []

theorem Required.forall₂ (required : Required (IsList P) found xs) : List.Forall₂ P (itemsOf found) xs := by
  obtain ⟨⟨items⟩⟩ := required
  exact items

theorem Optional.forall₂ {xs : Option (List α)} (optional : Optional (IsList P) found xs) :
    List.Forall₂ P (itemsOf found) (xs.getD []) := by
  cases optional with
  | leftOut | null => exact .nil
  | once held =>
      cases held with
      | items held => exact held

/-- An empty list is written for a list that is present and empty, and for no other. -/
theorem Optional.eq_empty_iff {xs : Option (List α)} (optional : Optional (IsList P) found xs) :
    found = [.list []] ↔ xs = some [] := by
  cases optional with
  | leftOut | null => simp
  | once held =>
      cases held with
      | items held => cases held <;> simp

theorem rel_getElem? (held : List.Forall₂ P found xs) (i : Nat) : Option.Rel P found[i]? xs[i]? := by
  induction held generalizing i with
  | nil => exact .none
  | cons first _ ih =>
      cases i with
      | zero => exact .some first
      | succ i => exact ih i

end Lists

namespace Json

def evaluationIn? (blocks : List Json) (frame : Frame) : Option Json :=
  blocks[frame.block]?.bind fun block => (itemsOf (block.field 5 "evaluations"))[frame.eval]?

def blocksBelow (blocks : List Json) : List Frame → List Json
  | [] => blocks
  | owner :: owners =>
    match evaluationIn? (blocksBelow blocks owners) owner with
    | some evaluation => itemsOf (evaluation.field 8 "jsrBlockEvaluations")
    | none => []

/-- The value of an evaluation in the document of a trace, below these evaluations of a method. -/
def evaluation? (json : Json) (method : Nat) (owners : List Frame) (frame : Frame) : Option Json :=
  (itemsOf (json.field 0 "codeAttributes"))[method]?.bind fun method =>
    evaluationIn? (blocksBelow (itemsOf (method.field 5 "blockEvaluations")) owners) frame

end Json

end Interchange

section Places

variable {json : Json} {written : List Json} {blocks : List BlockEvaluation} {trace : Trace}

theorem BlockEvaluation.DescribedBy.forall₂_evaluations {block : BlockEvaluation}
    (described : block.DescribedBy json) :
    List.Forall₂ InstructionEvaluation.DescribedBy (itemsOf (json.field 5 "evaluations"))
      block.evaluations := by
  obtain ⟨_, _, _, _, _, _, evaluations⟩ := described
  exact evaluations.forall₂

theorem rel_evaluationIn? (held : List.Forall₂ BlockEvaluation.DescribedBy written blocks) (frame : Frame) :
    Option.Rel InstructionEvaluation.DescribedBy (Json.evaluationIn? written frame)
      (frame.evaluation? blocks) := by
  have inBlock := rel_getElem? held frame.block
  rw [Json.evaluationIn?, Frame.evaluation?]
  generalize written[frame.block]? = json at inBlock
  generalize blocks[frame.block]? = block at inBlock
  cases inBlock with
  | none => exact .none
  | some described => exact rel_getElem? described.forall₂_evaluations frame.eval

/-- The sub-traces of a document lie where those of the trace do. -/
theorem forall₂_blocksBelow (held : List.Forall₂ BlockEvaluation.DescribedBy written blocks)
    (owners : List Frame) :
    List.Forall₂ BlockEvaluation.DescribedBy (Json.blocksBelow written owners)
      (blocksBelow blocks owners) := by
  induction owners with
  | nil => exact held
  | cons owner owners ih =>
      have owning := rel_evaluationIn? ih owner
      rw [Json.blocksBelow, blocksBelow]
      generalize Json.evaluationIn? (Json.blocksBelow written owners) owner = json at owning
      generalize owner.evaluation? (blocksBelow blocks owners) = evaluation at owning
      cases owning with
      | none => exact .nil
      | some described =>
          obtain ⟨_, _, _, _, _, _, _, _, _, nested⟩ := described
          exact nested.forall₂

theorem Trace.DescribedBy.rel_evaluation? (described : trace.DescribedBy json) (method : Nat)
    (owners : List Frame) (frame : Frame) :
    Option.Rel InstructionEvaluation.DescribedBy (json.evaluation? method owners frame)
      (Cursor.mk trace method frame owners).currentEvaluation? := by
  have inTrace := rel_getElem? described.methods.forall₂ method
  rw [Json.evaluation?, Cursor.currentEvaluation?, Cursor.currentBlocks, Cursor.currentMethod?]
  dsimp only
  generalize (itemsOf (json.field 0 "codeAttributes"))[method]? = written at inTrace
  generalize trace.methods[method]? = method at inTrace
  cases inTrace with
  | none => exact .none
  | some described => exact rel_evaluationIn? (forall₂_blocksBelow described.blocks.forall₂ owners) frame

end Places

namespace Trace

variable {bytes : Bytes} {json : Json} {trace : Trace}

/-- To load is to find a document that describes a well-formed trace. -/
theorem load_eq_ok_iff :
    load bytes = .ok trace ↔ trace.WellFormed ∧ ∃ json, Document bytes json ∧ trace.DescribedBy json := by
  rw [load]
  simp only [describedBy_iff_means]
  constructor
  · intro loaded
    cases decoded : decode bytes with
    | error => simp [decoded] at loaded
    | ok datum =>
        simp only [decoded] at loaded
        obtain ⟨rfl, valid⟩ := checked_eq_ok_iff.mp loaded
        obtain ⟨json, document, meaning⟩ := decode_eq_ok.mp decoded
        exact ⟨misfit?_eq_none_iff.mp valid, json, document, datum, meaning, rfl⟩
  · rintro ⟨wellFormed, json, document, datum, meaning, rfl⟩
    rw [decode_eq_ok.mpr ⟨json, document, meaning⟩]
    exact checked_eq_ok_iff.mpr ⟨rfl, misfit?_eq_none_iff.mpr wellFormed⟩

/-- A document that describes a well-formed trace loads as that trace, whatever its spelling. At every place
of an evaluation, an empty list stays a list. -/
theorem load_of_describedBy (wellFormed : trace.WellFormed) (document : Document bytes json)
    (described : trace.DescribedBy json) :
    load bytes = .ok trace ∧
      ∀ method owners frame written, json.evaluation? method owners frame = some written →
        ∃ evaluation, (Cursor.mk trace method frame owners).currentEvaluation? = some evaluation ∧
          (written.field 5 "updatedEvaluationStack" = [.list []] ↔
            evaluation.updatedWorklist = some []) ∧
          (written.field 8 "jsrBlockEvaluations" = [.list []] ↔ evaluation.nestedBlocks = some []) := by
  refine ⟨load_eq_ok_iff.mpr ⟨wellFormed, json, document, described⟩, ?_⟩
  intro method owners frame written at_place
  have same := described.rel_evaluation? method owners frame
  rw [at_place] at same
  generalize (Cursor.mk trace method frame owners).currentEvaluation? = evaluation at same
  cases same with
  | some describes =>
      obtain ⟨_, _, _, _, _, _, worklist, _, _, nested⟩ := describes
      exact ⟨_, rfl, worklist.eq_empty_iff, nested.eq_empty_iff⟩

section Unusual

/-- A document with keys in another order, escapes, blanks and an unknown key, where some fields are null or
left out. -/
def unusualText : String :=
  "\t\x7b\"codeAttributes\" : [\x7b\"error\":null,\"method\":\"m\\/1\",\"clazz\":\"\\u0041\",\n" ++
  ("\"note\":\x7b\"error\":[1e2]\x7d,\"blockEvaluations\":[\x7b\"evaluations\":[" ++
  ("\x7b\"updatedEvaluationStack\":[],\"jsrBlockEvaluations\":null,\"instruction\":\"nop\"," ++
  ("\"instructionOffset\":7,\"variablesBefore\":[],\"stackBefore\":[]\x7d]," ++
  ("\"startStack\":[],\"startVariables\":[],\"startOffset\":7,\"branchEvaluationStack\":[]\x7d]," ++
  "\"instructions\":[]\x7d]\x7d\n"))))

def unusualEvaluation : Json :=
  .object [(some "updatedEvaluationStack", .list []), (some "jsrBlockEvaluations", .null),
    (some "instruction", .text (some "nop")), (some "instructionOffset", .number (wholeLiteral 7)),
    (some "variablesBefore", .list []), (some "stackBefore", .list [])]

def unusualBlock : Json :=
  .object [(some "evaluations", .list [unusualEvaluation]), (some "startStack", .list []),
    (some "startVariables", .list []), (some "startOffset", .number (wholeLiteral 7)),
    (some "branchEvaluationStack", .list [])]

def unusualMethod : Json :=
  .object [(some "error", .null), (some "method", .text (some "m/1")), (some "clazz", .text (some "A")),
    (some "note", .object [(some "error", .list [.number (letters ['1', 'e', '2'])])]),
    (some "blockEvaluations", .list [unusualBlock]), (some "instructions", .list [])]

def unusualJson : Json := .object [(some "codeAttributes", .list [unusualMethod])]

def unusualTrace : Trace :=
  let evaluation : InstructionEvaluation := ⟨false, false, none, "nop", 7, some [], [], [], none⟩
  ⟨[⟨"A", "m/1", [], [], none, [⟨7, [], [], none, [], [evaluation]⟩]⟩]⟩

theorem document_unusual : Document (Utf8.encode unusualText) unusualJson := by
  have note : IsNumber (letters [] ++ (letters ['1'] ++ ([] ++ letters ['e', '2']))) :=
    .parts (by decide) (Reader.isWhole_wholeLiteral 1) (.inl rfl)
      (.inr ⟨'e', by decide, [], by decide, wholeLiteral 2, (Reader.isWhole_wholeLiteral 2).1, rfl⟩)
  have slash {rest : Bytes} : TextBytes (letters ['m', '\\', '/', '1', '"'] ++ rest)
      ('m'.toUInt8 :: (String.utf8EncodeChar '/' ++ ['1'.toUInt8])) rest :=
    .plain (by decide) (.escape (.short (by decide)) (.plain (by decide) .close))
  have unit {rest : Bytes} : TextBytes (letters ['\\', 'u', '0', '0', '4', '1', '"'] ++ rest)
      (String.utf8EncodeChar 'A' ++ []) rest :=
    .escape (.unit (Reader.hexUnit_eq_ok.mp rfl) (by decide)) .close
  -- the bytes are what the derivation makes of the value
  have derived : Document _ unusualJson :=
    ⟨_, _, .more (c := '\t') (by decide) .none, .object
      (.item (.first .none) (.pair (.plain rfl) (.more (c := ' ') (by decide) .none)
        (.more (c := ' ') (by decide) .none) (.list
        (.item (.first .none) (.object
          (.item (.first .none) (.plain rfl .null)
          (.item (.comma .none .none) (.plain rfl (.text (.value slash)))
          (.item (.comma .none .none) (.plain rfl (.text (.value unit)))
          (.item (.comma .none (.more (c := '\n') (by decide) .none)) (.plain rfl (.object
            (.item (.first .none) (.plain rfl (.list
              (.item (.first .none) (.number note) (.close .none))))
            (.close .none))))
          (.item (.comma .none .none) (.plain rfl (.list
            (.item (.first .none) (.object
              (.item (.first .none) (.plain rfl (.list
                (.item (.first .none) (.object
                  (.item (.first .none) (.plain rfl (.list (.close .none)))
                  (.item (.comma .none .none) (.plain rfl .null)
                  (.item (.comma .none .none) (.plain rfl
                    (.text (.plain rfl)))
                  (.item (.comma .none .none) (.plain rfl
                    (.number (Reader.isNumber_wholeLiteral 7)))
                  (.item (.comma .none .none) (.plain rfl (.list (.close .none)))
                  (.item (.comma .none .none) (.plain rfl (.list (.close .none)))
                  (.close .none))))))))
                (.close .none))))
              (.item (.comma .none .none) (.plain rfl (.list (.close .none)))
              (.item (.comma .none .none) (.plain rfl (.list (.close .none)))
              (.item (.comma .none .none) (.plain rfl
                (.number (Reader.isNumber_wholeLiteral 7)))
              (.item (.comma .none .none) (.plain rfl (.list (.close .none)))
              (.close .none)))))))
            (.close .none))))
          (.item (.comma .none .none) (.plain rfl (.list (.close .none)))
          (.close .none))))))))
        (.close .none))))
      (.close .none)), .more (c := '\n') (by decide) .none⟩
  have spelled : unusualText = String.ofList _ ++ (String.ofList _ ++ (String.ofList _ ++
    (String.ofList _ ++ (String.ofList _ ++ String.ofList _)))) := rfl
  rw [spelled]
  simp only [← String.ofList_append, Utf8.encode_ofList]
  refine Eq.subst (motive := fun bytes => Document bytes unusualJson) ?_ derived
  decide +kernel

theorem describedBy_unusual : unusualTrace.DescribedBy unusualJson := by
  have evaluation : InstructionEvaluation.DescribedBy unusualEvaluation
      ⟨false, false, none, "nop", 7, some [], [], [], none⟩ := by
    simp [unusualEvaluation, InstructionEvaluation.describedBy_iff, Json.IsRecord, Json.field,
      required_iff, optional_iff, isList_iff, IsText, IsOffset, Defaulted.leftOut]
  have block : BlockEvaluation.DescribedBy unusualBlock
      ⟨7, [], [], none, [], [⟨false, false, none, "nop", 7, some [], [], [], none⟩]⟩ := by
    simp [unusualBlock, BlockEvaluation.describedBy_iff, Json.IsRecord, Json.field, required_iff,
      optional_iff, isList_iff, IsOffset, evaluation]
  simp [unusualJson, unusualMethod, unusualTrace, Trace.describedBy_iff, MethodTrace.describedBy_iff,
    Json.IsRecord, Json.field, required_iff, optional_iff, isList_iff, IsText, Defaulted.leftOut, block]

theorem load_of_describedBy_unusual :
    load (Utf8.encode unusualText) = .ok unusualTrace ∧
      ∃ evaluation, (Cursor.mk unusualTrace 0 ⟨0, 0⟩ []).currentEvaluation? = some evaluation ∧
        evaluation.updatedWorklist = some [] := by
  obtain ⟨loaded, places⟩ :=
    load_of_describedBy (misfit?_eq_none_iff.mp rfl) document_unusual describedBy_unusual
  have at_place : unusualJson.evaluation? 0 [] ⟨0, 0⟩ = some unusualEvaluation := by
    simp [unusualJson, unusualMethod, unusualBlock, Json.evaluation?, Json.evaluationIn?, Json.blocksBelow,
      Json.field, itemsOf]
  obtain ⟨evaluation, found, worklist, _⟩ := places 0 [] ⟨0, 0⟩ _ at_place
  exact ⟨loaded, evaluation, found, worklist.mp (by simp [unusualEvaluation, Json.field])⟩

end Unusual

/-- What loads is a document with one value, which describes the trace. -/
theorem describedBy_of_load (loaded : load bytes = .ok trace) :
    ∃ json, Document bytes json ∧ (∀ other, Document bytes other → other = json) ∧
      trace.DescribedBy json := by
  obtain ⟨_, json, document, described⟩ := load_eq_ok_iff.mp loaded
  exact ⟨json, document, fun _ other => other.eq document, described⟩

theorem describedBy_of_load_unusual :
    load (Utf8.encode unusualText) = .ok unusualTrace ∧
      ∀ json, Document (Utf8.encode unusualText) json → json = unusualJson := by
  have loaded : load (Utf8.encode unusualText) = .ok unusualTrace :=
    load_eq_ok_iff.mpr ⟨misfit?_eq_none_iff.mp rfl, _, document_unusual, describedBy_unusual⟩
  obtain ⟨json, _, unique, _⟩ := describedBy_of_load loaded
  obtain rfl := unique _ document_unusual
  exact ⟨loaded, unique⟩

end Trace

end TraceReplay
