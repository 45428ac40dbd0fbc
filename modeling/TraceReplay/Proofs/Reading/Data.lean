import TraceReplay.Interchange.Record
import TraceReplay.Proofs.Reading.Description

/-!
Describing a part of a trace is saying its data along its shape: the description names the keys, and the
shapes have the same keys in the same order. For blocks and evaluations this is by the size of the value,
since the values inside a field are smaller than the record around it.
-/
namespace TraceReplay

open Interchange Grammar

namespace Interchange

/-- The value says data that are read as `x`. -/
def Means {α : Type} (shape : Shape) (read : Datum → α) (json : Json) (x : α) : Prop :=
  ∃ datum, Says shape json datum ∧ read datum = x

def MeansField {α : Type} (field : Field) (read : Datum → α) (found : List Json) (x : α) : Prop :=
  ∃ datum, SaysField field found datum ∧ read datum = x

variable {α : Type} {shape item : Shape} {read : Datum → α} {P : Json → α → Prop} {json : Json}
  {found : List Json} {key : String}

section Values

variable {value : String} {flag : Bool} {n : Offset} {count : UInt32} {xs : List α}

theorem isText_iff : IsText json value ↔ Means .text Datum.toText json value := by
  constructor
  · rintro rfl
    exact ⟨_, .text, rfl⟩
  · rintro ⟨_, ⟨⟩, rfl⟩
    rfl

theorem isFlag_iff : IsFlag json flag ↔ Means .flag Datum.toFlag json flag := by
  constructor
  · rintro rfl
    exact ⟨_, .flag, rfl⟩
  · rintro ⟨_, ⟨⟩, rfl⟩
    rfl

theorem isOffset_iff : IsOffset json n ↔ Means .offset Datum.toOffset json n := by
  constructor
  · rintro rfl
    exact ⟨_, .offset n.toNat_lt_size, UInt64.ofNat_toNat⟩
  · rintro ⟨_, meaning, rfl⟩
    cases meaning with
    | offset inShape => rw [IsOffset, Datum.toOffset, Nat.toUInt64, UInt64.toNat_ofNat_of_lt' inShape]

theorem isCount_iff : IsCount json count ↔ Means .count (fun n => n.toOffset.toUInt32) json count := by
  constructor
  · rintro rfl
    exact ⟨_, .count count.toNat_lt_size, (UInt64.toUInt32_ofNat' _).trans UInt32.ofNat_toNat⟩
  · rintro ⟨_, meaning, rfl⟩
    cases meaning with
    | count inShape =>
        simp only [IsCount, Datum.toOffset, Nat.toUInt64, UInt64.toUInt32_ofNat',
          UInt32.toNat_ofNat_of_lt' inShape]

theorem forall₂_iff_saysAll {items : List Json}
    (each : ∀ value ∈ items, ∀ x, P value x ↔ Means item read value x) :
    List.Forall₂ P items xs ↔ ∃ data, SaysAll item items data ∧ data.map read = xs := by
  induction items generalizing xs with
  | nil =>
      rw [List.forall₂_nil_left_iff]
      constructor
      · rintro rfl
        exact ⟨[], .nil, rfl⟩
      · rintro ⟨_, ⟨⟩, rfl⟩
        rfl
  | cons value items ih =>
      obtain ⟨here, others⟩ := List.forall_mem_cons.mp each
      constructor
      · rintro (_ | ⟨first, rest⟩)
        obtain ⟨datum, meaning, rfl⟩ := (here _).mp first
        obtain ⟨data, saysAll, rfl⟩ := (ih others).mp rest
        exact ⟨datum :: data, .cons meaning saysAll, rfl⟩
      · rintro ⟨_, saysAll, rfl⟩
        cases saysAll with
        | cons meaning saysAll =>
            exact .cons ((here _).mpr ⟨_, meaning, rfl⟩) ((ih others).mpr ⟨_, saysAll, rfl⟩)

theorem isList_iff_means
    (each : ∀ items, json = .list items → ∀ value ∈ items, ∀ x, P value x ↔ Means item read value x) :
    IsList P json xs ↔ Means (.list item) (Datum.toList read) json xs := by
  constructor
  · rintro ⟨held⟩
    obtain ⟨data, saysAll, rfl⟩ := (forall₂_iff_saysAll (each _ rfl)).mp held
    exact ⟨.list data, .list saysAll, rfl⟩
  · rintro ⟨_, meaning, rfl⟩
    cases meaning with
    | list saysAll => exact .items ((forall₂_iff_saysAll (each _ rfl)).mpr ⟨_, saysAll, rfl⟩)

theorem isTexts_iff {values : List String} :
    IsList IsText json values ↔ Means (.list .text) Datum.toTexts json values :=
  isList_iff_means fun _ _ _ _ _ => isText_iff

end Values

section Fields

variable {x value : α}

theorem Says.toOption_eq {datum : Datum} (meaning : Says shape json datum) :
    datum.toOption read = some (read datum) := by
  cases meaning <;> rfl

theorem required_iff_means (each : ∀ json ∈ found, ∀ x, P json x ↔ Means shape read json x) :
    Required P found x ↔ MeansField ⟨key, shape, true⟩ read found x := by
  constructor
  · rintro ⟨held⟩
    obtain ⟨datum, meaning, rfl⟩ := (each _ List.mem_cons_self _).mp held
    exact ⟨datum, .value meaning, rfl⟩
  · rintro ⟨datum, meaning, rfl⟩
    cases meaning with
    | value meaning => exact .once ((each _ List.mem_cons_self _).mpr ⟨_, meaning, rfl⟩)
    | leftOut optional | null optional => cases optional

/-- A field that is left out or null is read as the default. -/
theorem defaulted_iff_means (absent : read .absent = value)
    (each : ∀ json ∈ found, ∀ x, P json x ↔ Means shape read json x) :
    Defaulted value P found x ↔ MeansField ⟨key, shape, false⟩ read found x := by
  constructor
  · rintro (_ | _ | held)
    · exact ⟨.absent, .leftOut rfl, absent⟩
    · exact ⟨.absent, .null rfl, absent⟩
    · obtain ⟨datum, meaning, rfl⟩ := (each _ List.mem_cons_self _).mp held
      exact ⟨datum, .value meaning, rfl⟩
  · rintro ⟨datum, meaning, rfl⟩
    cases meaning with
    | leftOut => exact absent ▸ .leftOut
    | null => exact absent ▸ .null
    | value meaning => exact .once ((each _ List.mem_cons_self _).mpr ⟨_, meaning, rfl⟩)

theorem optional_iff_means {x : Option α} (each : ∀ json ∈ found, ∀ x, P json x ↔ Means shape read json x) :
    Optional P found x ↔ MeansField ⟨key, shape, false⟩ (Datum.toOption read) found x := by
  constructor
  · rintro (_ | _ | held)
    · exact ⟨.absent, .leftOut rfl, rfl⟩
    · exact ⟨.absent, .null rfl, rfl⟩
    · obtain ⟨datum, meaning, rfl⟩ := (each _ List.mem_cons_self _).mp held
      exact ⟨datum, .value meaning, meaning.toOption_eq⟩
  · rintro ⟨datum, meaning, rfl⟩
    cases meaning with
    | leftOut => exact .leftOut
    | null => exact .null
    | value meaning =>
        rw [meaning.toOption_eq]
        exact .once ((each _ List.mem_cons_self _).mpr ⟨_, meaning, rfl⟩)

end Fields

section Records

variable {fields : List Field} {field : Field} {fromFields : Nat → Field → List Json} {R : List Datum → Prop}

theorem exists_saysFields_nil : (∃ values, SaysFields [] fromFields values ∧ R values) ↔ R [] := by
  constructor
  · rintro ⟨values, meaning, held⟩
    exact meaning.eq_nil ▸ held
  · exact fun held => ⟨[], .nil, held⟩

/-- The values of fields are chosen from the first field on, each by itself. -/
theorem exists_saysFields_cons :
    (∃ values, SaysFields (field :: fields) fromFields values ∧ R values) ↔
      ∃ value, SaysField field (fromFields 0 field) value ∧
        ∃ values, SaysFields fields (fun place => fromFields (place + 1)) values ∧ R (value :: values) := by
  constructor
  · rintro ⟨_, meaning, held⟩
    obtain ⟨value, values, rfl, first, others⟩ := meaning.exists_cons
    exact ⟨value, first, values, others, held⟩
  · rintro ⟨value, first, values, others, held⟩
    exact ⟨_, .cons first others, held⟩

/-- What a record is read as depends on the values of its fields. -/
theorem means_record_iff {kind : RecordKind} {ofDatum : Datum → α} {x : α} :
    Means (.record kind) ofDatum json x ↔
      json.IsRecord kind.fields.length ∧ ∃ values,
        SaysFields kind.fields (fun place field => json.field place field.key) values ∧
          ofDatum (.record kind values) = x := by
  constructor
  · rintro ⟨_, meaning, rfl⟩
    cases meaning with
    | record isRecord sized each => exact ⟨isRecord, _, ⟨sized, each⟩, rfl⟩
  · rintro ⟨isRecord, values, meaning, rfl⟩
    exact ⟨_, says_record_iff.mpr ⟨isRecord, meaning⟩, rfl⟩

end Records

end Interchange

theorem required_offset_iff (key : String) {found : List Json} {n : Offset} :
    Required IsOffset found n ↔ MeansField ⟨key, .offset, true⟩ Datum.toOffset found n :=
  required_iff_means fun _ _ _ => isOffset_iff

theorem required_text_iff (key : String) {found : List Json} {value : String} :
    Required IsText found value ↔ MeansField ⟨key, .text, true⟩ Datum.toText found value :=
  required_iff_means fun _ _ _ => isText_iff

theorem required_texts_iff (key : String) {found : List Json} {values : List String} :
    Required (IsList IsText) found values ↔
      MeansField ⟨key, .list .text, true⟩ Datum.toTexts found values :=
  required_iff_means fun _ _ _ => isTexts_iff

variable {json : Json}

theorem Instruction.describedBy_iff_means {instruction : Instruction} :
    instruction.DescribedBy json ↔ Means (.record .instruction) ofDatum json instruction := by
  cases instruction
  rw [means_record_iff, describedBy_iff, required_offset_iff "offset", required_text_iff "instruction"]
  simp only [RecordKind.fields, exists_saysFields_cons, exists_saysFields_nil, ofDatum, mk.injEq,
    MeansField]
  grind

theorem EvaluationError.describedBy_iff_means {error : EvaluationError} :
    error.DescribedBy json ↔ Means (.record .evaluationError) ofDatum json error := by
  cases error
  rw [means_record_iff, describedBy_iff, required_offset_iff "instructionOffset",
    required_text_iff "message"]
  simp only [RecordKind.fields, exists_saysFields_cons, exists_saysFields_nil, ofDatum, mk.injEq,
    MeansField]
  grind

theorem ExceptionHandler.describedBy_iff_means {handler : ExceptionHandler} :
    handler.DescribedBy json ↔ Means (.record .exceptionHandler) ofDatum json handler := by
  have catchType {found : List Json} {value : Option String} : Optional IsText found value ↔
      MeansField ⟨"catchType", .text, false⟩ (Datum.toOption Datum.toText) found value :=
    optional_iff_means fun _ _ _ => isText_iff
  cases handler
  rw [means_record_iff, describedBy_iff, required_offset_iff "catchStartOffset",
    required_offset_iff "catchEndOffset", required_offset_iff "handlerStartOffset", catchType]
  simp only [RecordKind.fields, exists_saysFields_cons, exists_saysFields_nil, ofDatum, mk.injEq,
    MeansField]
  grind

theorem BranchTarget.describedBy_iff_means {target : BranchTarget} :
    target.DescribedBy json ↔ Means (.record .branchTarget) ofDatum json target := by
  cases target
  rw [means_record_iff, describedBy_iff, required_offset_iff "startOffset",
    required_texts_iff "startVariables", required_texts_iff "startStack"]
  simp only [RecordKind.fields, exists_saysFields_cons, exists_saysFields_nil, ofDatum, mk.injEq,
    MeansField]
  grind

theorem BranchTarget.describedList_iff_means {targets : List BranchTarget} :
    IsList DescribedBy json targets ↔
      Means (.list (.record .branchTarget)) (Datum.toList ofDatum) json targets :=
  isList_iff_means fun _ _ _ _ _ => describedBy_iff_means

section Blocks

theorem evaluationsOfValues_eq (datum : Datum) :
    evaluationsOfValues [datum] = datum.toList InstructionEvaluation.ofDatum := by
  cases datum with
  | list data =>
      rw [evaluationsOfValues, Datum.toList]
      induction data with
      | nil => rfl
      | cons datum data ih => rw [evaluationsOfData, List.map_cons, ih]
  | _ => rfl

theorem blocksOfData_eq_map (data : List Datum) : blocksOfData data = data.map BlockEvaluation.ofDatum := by
  induction data with
  | nil => rfl
  | cons datum data ih => rw [blocksOfData, List.map_cons, ih]

theorem nestedOfValues_eq {key : String} {item : Shape} {found : List Json} {datum : Datum}
    (meaning : SaysField ⟨key, .list item, false⟩ found datum) :
    nestedOfValues [datum] = datum.toOption (·.toList BlockEvaluation.ofDatum) := by
  cases meaning with
  | leftOut | null => rfl
  | value meaning =>
      cases meaning with
      | list => rw [nestedOfValues, blocksOfData_eq_map]; rfl

theorem BlockEvaluation.ofDatum_record {kind : RecordKind}
    {startOffset startVariables startStack handler worklist evaluations : Datum} :
    ofDatum (.record kind [startOffset, startVariables, startStack, handler, worklist, evaluations]) =
      ⟨startOffset.toOffset, startVariables.toTexts, startStack.toTexts,
        handler.toOption ExceptionHandler.ofDatum, worklist.toList BranchTarget.ofDatum,
        evaluations.toList InstructionEvaluation.ofDatum⟩ := by
  rw [ofDatum, blockOfValues, evaluationsOfValues_eq]

theorem InstructionEvaluation.ofDatum_record {kind : RecordKind}
    {skip isGeneralization visitCount text offset worklist locals stack nested : Datum} :
    ofDatum (.record kind
        [skip, isGeneralization, visitCount, text, offset, worklist, locals, stack, nested]) =
      ⟨skip.toFlag, isGeneralization.toFlag, visitCount.toOption fun n => n.toOffset.toUInt32,
        text.toText, offset.toOffset, worklist.toOption (·.toList BranchTarget.ofDatum),
        locals.toTexts, stack.toTexts, nestedOfValues [nested]⟩ := by
  rw [ofDatum, evaluationOfValues]

/-- The evaluations in the block are supposed to be read as described, for an induction that goes through the
sub-traces. -/
theorem BlockEvaluation.describedBy_iff_means_of_inside {block : BlockEvaluation}
    (inside : ∀ items, .list items ∈ json.field 5 "evaluations" → ∀ item ∈ items,
      ∀ evaluation : InstructionEvaluation, evaluation.DescribedBy item ↔
        Means (.record .evaluation) InstructionEvaluation.ofDatum item evaluation) :
    block.DescribedBy json ↔ Means (.record .block) ofDatum json block := by
  have handler {found : List Json} {x : Option ExceptionHandler} :
      Optional ExceptionHandler.DescribedBy found x ↔
        MeansField ⟨"exceptionHandlerInfo", .record .exceptionHandler, false⟩
          (Datum.toOption ExceptionHandler.ofDatum) found x :=
    optional_iff_means fun _ _ _ => ExceptionHandler.describedBy_iff_means
  have worklist {found : List Json} {x : List BranchTarget} :
      Required (IsList BranchTarget.DescribedBy) found x ↔
        MeansField ⟨"branchEvaluationStack", .list (.record .branchTarget), true⟩
          (Datum.toList BranchTarget.ofDatum) found x :=
    required_iff_means fun _ _ _ => BranchTarget.describedList_iff_means
  have evaluations {x : List InstructionEvaluation} :
      Required (IsList InstructionEvaluation.DescribedBy) (json.field 5 "evaluations") x ↔
        MeansField ⟨"evaluations", .list (.record .evaluation), true⟩
          (Datum.toList InstructionEvaluation.ofDatum) (json.field 5 "evaluations") x :=
    required_iff_means fun _ mem _ => isList_iff_means fun items list => inside items (list ▸ mem)
  cases block
  rw [means_record_iff, describedBy_iff, required_offset_iff "startOffset",
    required_texts_iff "startVariables", required_texts_iff "startStack", handler, worklist, evaluations]
  simp only [RecordKind.fields, exists_saysFields_cons, exists_saysFields_nil, ofDatum_record, mk.injEq,
    MeansField]
  constructor
  · rintro ⟨isRecord, ⟨_, offset, rfl⟩, ⟨_, locals, rfl⟩, ⟨_, stack, rfl⟩, ⟨_, handler, rfl⟩,
      ⟨_, worklist, rfl⟩, _, evaluations, rfl⟩
    exact ⟨isRecord, _, offset, _, locals, _, stack, _, handler, _, worklist, _, evaluations, rfl, rfl,
      rfl, rfl, rfl, rfl⟩
  · rintro ⟨isRecord, _, offset, _, locals, _, stack, _, handler, _, worklist, _, evaluations, rfl, rfl,
      rfl, rfl, rfl, rfl⟩
    exact ⟨isRecord, ⟨_, offset, rfl⟩, ⟨_, locals, rfl⟩, ⟨_, stack, rfl⟩, ⟨_, handler, rfl⟩,
      ⟨_, worklist, rfl⟩, _, evaluations, rfl⟩

theorem InstructionEvaluation.describedBy_iff_means_of_inside {evaluation : InstructionEvaluation}
    (inside : ∀ items, .list items ∈ json.field 8 "jsrBlockEvaluations" → ∀ item ∈ items,
      ∀ block : BlockEvaluation, block.DescribedBy item ↔
        Means (.record .block) BlockEvaluation.ofDatum item block) :
    evaluation.DescribedBy json ↔ Means (.record .evaluation) ofDatum json evaluation := by
  have flag (key : String) {found : List Json} {x : Bool} : Defaulted false IsFlag found x ↔
      MeansField ⟨key, .flag, false⟩ Datum.toFlag found x :=
    defaulted_iff_means rfl fun _ _ _ => isFlag_iff
  have visits {found : List Json} {x : Option UInt32} : Optional IsCount found x ↔
      MeansField ⟨"evaluationCount", .count, false⟩ (Datum.toOption fun n => n.toOffset.toUInt32) found x :=
    optional_iff_means fun _ _ _ => isCount_iff
  have worklist {found : List Json} {x : Option (List BranchTarget)} :
      Optional (IsList BranchTarget.DescribedBy) found x ↔
        MeansField ⟨"updatedEvaluationStack", .list (.record .branchTarget), false⟩
          (Datum.toOption (·.toList BranchTarget.ofDatum)) found x :=
    optional_iff_means fun _ _ _ => BranchTarget.describedList_iff_means
  have nested {x : Option (List BlockEvaluation)} :
      Optional (IsList BlockEvaluation.DescribedBy) (json.field 8 "jsrBlockEvaluations") x ↔
        MeansField ⟨"jsrBlockEvaluations", .list (.record .block), false⟩
          (fun datum => nestedOfValues [datum]) (json.field 8 "jsrBlockEvaluations") x := by
    have listed : Optional (IsList BlockEvaluation.DescribedBy) (json.field 8 "jsrBlockEvaluations") x ↔
        MeansField ⟨"jsrBlockEvaluations", .list (.record .block), false⟩
          (Datum.toOption (·.toList BlockEvaluation.ofDatum)) (json.field 8 "jsrBlockEvaluations") x :=
      optional_iff_means fun _ mem _ => isList_iff_means fun items list => inside items (list ▸ mem)
    refine listed.trans (exists_congr fun datum => and_congr_right fun meaning => ?_)
    simp only [nestedOfValues_eq meaning]
  cases evaluation
  rw [means_record_iff, describedBy_iff, flag "skipEvaluation", flag "isGeneralization", visits,
    required_text_iff "instruction", required_offset_iff "instructionOffset", worklist,
    required_texts_iff "variablesBefore", required_texts_iff "stackBefore", nested]
  simp only [RecordKind.fields, exists_saysFields_cons, exists_saysFields_nil, ofDatum_record, mk.injEq,
    MeansField]
  constructor
  · rintro ⟨isRecord, ⟨_, skip, rfl⟩, ⟨_, general, rfl⟩, ⟨_, visits, rfl⟩, ⟨_, text, rfl⟩,
      ⟨_, offset, rfl⟩, ⟨_, worklist, rfl⟩, ⟨_, locals, rfl⟩, ⟨_, stack, rfl⟩, _, nested, rfl⟩
    exact ⟨isRecord, _, skip, _, general, _, visits, _, text, _, offset, _, worklist, _, locals, _,
      stack, _, nested, rfl, rfl, rfl, rfl, rfl, rfl, rfl, rfl, rfl⟩
  · rintro ⟨isRecord, _, skip, _, general, _, visits, _, text, _, offset, _, worklist, _, locals, _,
      stack, _, nested, rfl, rfl, rfl, rfl, rfl, rfl, rfl, rfl, rfl⟩
    exact ⟨isRecord, ⟨_, skip, rfl⟩, ⟨_, general, rfl⟩, ⟨_, visits, rfl⟩, ⟨_, text, rfl⟩,
      ⟨_, offset, rfl⟩, ⟨_, worklist, rfl⟩, ⟨_, locals, rfl⟩, ⟨_, stack, rfl⟩, _, nested, rfl⟩

/-- The values inside the fields of a block or an evaluation are smaller than it. -/
theorem describedBy_iff_means_both :
    (∀ block : BlockEvaluation, block.DescribedBy json ↔
        Means (.record .block) BlockEvaluation.ofDatum json block) ∧
      ∀ evaluation : InstructionEvaluation, evaluation.DescribedBy json ↔
        Means (.record .evaluation) InstructionEvaluation.ofDatum json evaluation := by
  induction size : sizeOf json using Nat.strongRecOn generalizing json with
  | ind n ih =>
      subst size
      have smaller {place : Nat} {key : String} {item : Json} {items : List Json}
          (mem : .list items ∈ json.field place key) (held : item ∈ items) : sizeOf item < sizeOf json :=
        Nat.lt_trans (Json.sizeOf_lt_of_mem_list held) (Json.sizeOf_lt_of_mem_field mem)
      constructor
      · intro block
        refine BlockEvaluation.describedBy_iff_means_of_inside fun items mem item held => ?_
        exact (ih _ (smaller mem held) rfl).2
      · intro evaluation
        refine InstructionEvaluation.describedBy_iff_means_of_inside fun items mem item held => ?_
        exact (ih _ (smaller mem held) rfl).1

theorem BlockEvaluation.describedList_iff_means {blocks : List BlockEvaluation} :
    IsList DescribedBy json blocks ↔ Means (.list (.record .block)) (Datum.toList ofDatum) json blocks :=
  isList_iff_means fun _ _ _ _ => describedBy_iff_means_both.1

end Blocks

theorem MethodTrace.describedBy_iff_means {method : MethodTrace} :
    method.DescribedBy json ↔ Means (.record .method) ofDatum json method := by
  have instructions {found : List Json} {x : List Instruction} :
      Required (IsList Instruction.DescribedBy) found x ↔
        MeansField ⟨"instructions", .list (.record .instruction), true⟩
          (Datum.toList Instruction.ofDatum) found x :=
    required_iff_means fun _ _ _ => isList_iff_means fun _ _ _ _ _ => Instruction.describedBy_iff_means
  have parameters {found : List Json} {x : List String} :
      Defaulted [] (IsList IsText) found x ↔
        MeansField ⟨"parameters", .list .text, false⟩ Datum.toTexts found x :=
    defaulted_iff_means rfl fun _ _ _ => isTexts_iff
  have error {found : List Json} {x : Option EvaluationError} :
      Optional EvaluationError.DescribedBy found x ↔
        MeansField ⟨"error", .record .evaluationError, false⟩
          (Datum.toOption EvaluationError.ofDatum) found x :=
    optional_iff_means fun _ _ _ => EvaluationError.describedBy_iff_means
  have blocks {found : List Json} {x : List BlockEvaluation} :
      Required (IsList BlockEvaluation.DescribedBy) found x ↔
        MeansField ⟨"blockEvaluations", .list (.record .block), true⟩
          (Datum.toList BlockEvaluation.ofDatum) found x :=
    required_iff_means fun _ _ _ => BlockEvaluation.describedList_iff_means
  cases method
  rw [means_record_iff, describedBy_iff, required_text_iff "clazz", required_text_iff "method",
    instructions, parameters, error, blocks]
  simp only [RecordKind.fields, exists_saysFields_cons, exists_saysFields_nil, ofDatum, mk.injEq,
    MeansField]
  grind

/-- A value describes a trace just where it is read as that trace. -/
theorem Trace.describedBy_iff_means {trace : Trace} :
    trace.DescribedBy json ↔ Means (.record .trace) ofDatum json trace := by
  have methods {found : List Json} {x : List MethodTrace} :
      Required (IsList MethodTrace.DescribedBy) found x ↔
        MeansField ⟨"codeAttributes", .list (.record .method), true⟩
          (Datum.toList MethodTrace.ofDatum) found x :=
    required_iff_means fun _ _ _ => isList_iff_means fun _ _ _ _ _ => MethodTrace.describedBy_iff_means
  cases trace
  rw [means_record_iff, describedBy_iff, methods]
  simp only [RecordKind.fields, exists_saysFields_cons, exists_saysFields_nil, ofDatum, mk.injEq,
    MeansField]
  grind

end TraceReplay
