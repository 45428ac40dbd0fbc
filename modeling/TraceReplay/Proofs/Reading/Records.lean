import TraceReplay.Proofs.Reading.Keyed
import TraceReplay.Proofs.Reading.Load
import TraceReplay.Proofs.Reading.Misread

/-!
What may stand where the format has a record. An object may, and a null where the record is optional; of all other
values only a list is read, if its items can stand for the fields of the record in their order. Such a list is no
more than another spelling of an object: with objects in place of all of them a document says the same.
-/
namespace TraceReplay.Interchange

/-- Written for one field, this value holds another at a place where the format calls for the other field: among
the items of a list, or among what is written for a field of a record. -/
inductive Holds : Field → Json → Field → Json → Prop
  | self {field : Field} {json : Json} : Holds field json field json
  | item {outer field : Field} {item : Shape} {items : List Json} {inner value : Json} :
      outer.shape = .list item → inner ∈ items → Holds (.item item) inner field value →
      Holds outer (.list items) field value
  | member {outer next field : Field} {kind : RecordKind} {place : Nat} {json inner value : Json} :
      outer.shape = .record kind → kind.fields[place]? = some next → inner ∈ json.field place next.key →
      Holds next inner field value → Holds outer json field value

section Holds

variable {outer field : Field} {kind inner : RecordKind} {item : Shape} {json value : Json}
  {found items : List Json} {data : List Datum} {datum : Datum}

theorem Holds.trans {last : Field} {within : Json} (holds : Holds outer json field within)
    (holds' : Holds field within last value) : Holds outer json last value := by
  induction holds with
  | self => exact holds'
  | item isList mem _ ih => exact .item isList mem (ih holds')
  | member isRecord known mem _ ih => exact .member isRecord known mem (ih holds')

theorem Holds.toItem (holds : Holds outer json field (.list items)) (isList : field.shape = .list item)
    (mem : value ∈ items) : Holds outer json (.item item) value :=
  holds.trans (.item isList mem .self)

theorem Holds.toField {next : Field} {within : Json} (holds : Holds outer json field within)
    (isRecord : field.shape = .record kind) (place : Nat) (known : kind.fields[place]? = some next)
    (written : value ∈ within.field place next.key) : Holds outer json next value :=
  holds.trans (.member isRecord known written .self)

theorem SaysField.eq_singleton (meaning : SaysField field found datum) (mem : json ∈ found) :
    found = [json] := by
  cases meaning with
  | leftOut => cases mem
  | null | value => rw [List.mem_singleton.mp mem]

theorem SaysAll.exists_of_mem (all : SaysAll item items data) (mem : json ∈ items) :
    ∃ datum, Says item json datum := by
  induction items generalizing data with
  | nil => cases mem
  | cons first items ih =>
      cases all with
      | cons meaning all =>
          rcases List.mem_cons.mp mem with rfl | mem
          · exact ⟨_, meaning⟩
          · exact ih all mem

theorem SaysField.of_list (meaning : SaysField outer [json] datum) (isList : outer.shape = .list item) :
    json = .null ∨ ∃ items data, json = .list items ∧ SaysAll item items data := by
  cases meaning with
  | null => exact .inl rfl
  | value meaning =>
      rw [isList] at meaning
      cases meaning with
      | list all => exact .inr ⟨_, _, rfl, all⟩

theorem SaysField.of_record (meaning : SaysField outer [json] datum) (isRecord : outer.shape = .record kind) :
    json = .null ∧ outer.required = false ∨
      json.IsRecord kind.fields.length ∧ ∀ place field, kind.fields[place]? = some field →
        ∃ datum, SaysField field (json.field place field.key) datum := by
  cases meaning with
  | null optional => exact .inl ⟨rfl, optional⟩
  | value meaning =>
      rw [isRecord] at meaning
      cases meaning with
      | record isRecord sized each =>
          refine .inr ⟨isRecord, fun place field known => ?_⟩
          have inside := sized ▸ (List.getElem?_eq_some_iff.mp known).1
          exact ⟨_, each place field _ known (List.getElem?_eq_getElem inside)⟩

/-- What a value holds says something where the value does. -/
theorem Holds.exists_saysField (holds : Holds outer json field value) (meaning : SaysField outer [json] datum) :
    ∃ datum, SaysField field [value] datum := by
  induction holds generalizing datum with
  | self => exact ⟨datum, meaning⟩
  | item isList mem _ ih =>
      obtain ⟨⟨⟩⟩ | ⟨items, data, ⟨⟩, all⟩ := meaning.of_list isList
      obtain ⟨datum, meaning⟩ := all.exists_of_mem mem
      exact ih (.value meaning)
  | member isRecord known mem _ ih =>
      obtain ⟨rfl, _⟩ | ⟨_, each⟩ := meaning.of_record isRecord
      · cases mem
      · obtain ⟨datum, meaning⟩ := each _ _ known
        rw [meaning.eq_singleton mem] at meaning
        exact ih meaning

def optionalRecords : List String := ["error", "exceptionHandlerInfo"]

theorem RecordKind.required_of_mem (mem : field ∈ kind.fields) (isRecord : field.shape = .record inner)
    (other : field.key ∉ optionalRecords) : field.required = true := by
  have all : ∀ field ∈ kind.fields, field.shape = .record inner → field.key ∉ optionalRecords →
      field.required = true := by
    cases kind <;> simp [fields, optionalRecords]
  exact all field mem isRecord other

/-- What a document holds is an item, a field of some record, or the document. -/
theorem Holds.field_cases (holds : Holds outer json field value) :
    field = outer ∨ (∃ item, field = .item item) ∨ ∃ kind : RecordKind, field ∈ kind.fields := by
  induction holds with
  | self => exact .inl rfl
  | item _ _ _ ih =>
      rcases ih with same | among
      · exact .inr (.inl ⟨_, same⟩)
      · exact .inr among
  | member _ known _ _ ih =>
      rcases ih with rfl | among
      · exact .inr (.inr ⟨_, List.mem_of_getElem? known⟩)
      · exact .inr among

theorem Holds.required (holds : Holds .document json field value) (isRecord : field.shape = .record kind)
    (other : field.key ∉ optionalRecords) : field.required = true := by
  obtain rfl | ⟨item, rfl⟩ | ⟨kind, mem⟩ := holds.field_cases
  · rfl
  · rfl
  · exact RecordKind.required_of_mem mem isRecord other

/-- What is held by a value with objects in place of lists comes from something that says what it did. -/
theorem Holds.of_keyed (holds : Holds outer (json.keyed outer.shape) field value)
    (meaning : SaysField outer [json] datum) :
    ∃ json datum, value = json.keyed field.shape ∧ SaysField field [json] datum := by
  generalize same : json.keyed outer.shape = whole at holds
  induction holds generalizing json datum with
  | self => exact ⟨json, datum, same.symm, meaning⟩
  | item isList mem _ ih =>
      rw [isList] at same
      obtain rfl | ⟨items, data, rfl, all⟩ := meaning.of_list isList
      · cases same
      · rw [Json.keyed, keyedItems_eq_map] at same
        cases same
        obtain ⟨json, written, rfl⟩ := List.mem_map.mp mem
        obtain ⟨datum, meaning⟩ := all.exists_of_mem written
        exact ih (.value meaning) rfl
  | member isRecord known mem _ ih =>
      rw [isRecord] at same
      subst same
      obtain ⟨rfl, _⟩ | ⟨isRecord, each⟩ := meaning.of_record isRecord
      · cases mem
      · rw [Json.field_keyed isRecord known] at mem
        obtain ⟨json, written, rfl⟩ := List.mem_map.mp mem
        obtain ⟨datum, meaning⟩ := each _ _ known
        rw [meaning.eq_singleton written] at meaning
        exact ih meaning rfl

end Holds

/-- Wherever the format calls for a record there is an object, or null where the record is optional. -/
def Json.HasObjects (json : Json) : Prop :=
  ∀ field kind value, Holds .document json field value → field.shape = .record kind →
    (∃ members, value = .object members) ∨ value = .null ∧ field.key ∈ optionalRecords

/-- Items that can stand for the fields of a record, in their order. Only optional fields may have none. -/
def RecordKind.ListedBy (kind : RecordKind) (items : List Json) : Prop :=
  items.length ≤ kind.fields.length ∧ ∀ (place : Nat) field, kind.fields[place]? = some field →
    ∃ datum, SaysField field items[place]?.toList datum

section Meaning

variable {json value : Json} {field : Field} {kind : RecordKind} {datum : Datum}

theorem hasObjects_keyed (meaning : Says (.record .trace) json datum) :
    (json.keyed (.record .trace)).HasObjects := by
  intro field kind value holds isRecord
  have within : Holds .document (json.keyed Field.document.shape) field value := holds
  obtain ⟨inner, datum, rfl, held⟩ := within.of_keyed (.value meaning)
  rw [isRecord] at holds ⊢
  obtain ⟨rfl, optional⟩ | ⟨readsAsRecord, _⟩ := held.of_record isRecord
  · refine .inr ⟨keyed_eq_null_iff.mpr rfl, ?_⟩
    by_contra other
    rw [holds.required isRecord other] at optional
    cases optional
  · exact .inl (Json.keyed_record readsAsRecord)

/-- Where a document says something, what stands for a record and is no object is a list of its fields. -/
theorem Holds.exists_listedBy (holds : Holds .document json field value) (isRecord : field.shape = .record kind)
    (meaning : Says (.record .trace) json datum) (noObject : ∀ members, value ≠ .object members)
    (present : value = .null → field.key ∉ optionalRecords) :
    ∃ items, value = .list items ∧ kind.ListedBy items := by
  obtain ⟨datum, held⟩ := holds.exists_saysField (.value meaning)
  obtain ⟨rfl, optional⟩ | ⟨readsAsRecord, each⟩ := held.of_record isRecord
  · rw [holds.required isRecord (present rfl)] at optional
    cases optional
  · cases value with
    | list items => exact ⟨items, rfl, readsAsRecord, each⟩
    | object members => exact absurd rfl (noObject members)
    | _ => cases readsAsRecord

end Meaning

end TraceReplay.Interchange

namespace TraceReplay

open Interchange Grammar

/-- The document is at fault, and not the trace that it describes. -/
def LoadError.IsMalformed : LoadError → Prop
  | .malformed .. => True
  | _ => False

namespace Trace

variable {bytes : Bytes} {json value : Json} {field : Field} {kind : RecordKind}

/-- A document in which something other than an object stands for a record, and not null for an optional one, is
malformed, or has there a list of the fields of the record. Which of the two, and as what it loads, is decided by
the trace that is described with objects in place of all such lists. -/
theorem malformed_or_listed (document : Document bytes json) (holds : Holds .document json field value)
    (isRecord : field.shape = .record kind) (noObject : ∀ members, value ≠ .object members)
    (present : value = .null → field.key ∉ optionalRecords) :
    (∃ error, load bytes = .error error ∧ error.IsMalformed) ∧
        (∀ trace : Trace, ¬trace.DescribedBy (json.keyed (.record .trace))) ∨
      (∃ items, value = .list items ∧ kind.ListedBy items) ∧ (json.keyed (.record .trace)).HasObjects ∧
        ∃ trace : Trace, trace.DescribedBy (json.keyed (.record .trace)) ∧ load bytes = trace.checked := by
  simp only [describedBy_iff_means, Means, says_keyed_iff]
  cases decoded : decode bytes with
  | error fault =>
      refine .inl ⟨⟨.ofFault bytes fault, by rw [load, decoded], trivial⟩, ?_⟩
      rintro trace ⟨datum, meaning, _⟩
      rw [decode_eq_ok.mpr ⟨json, document, meaning⟩] at decoded
      cases decoded
  | ok datum =>
      obtain ⟨found, document', meaning⟩ := decode_eq_ok.mp decoded
      obtain rfl := document'.eq document
      refine .inr ⟨holds.exists_listedBy isRecord meaning noObject present, hasObjects_keyed meaning, ?_⟩
      exact ⟨ofDatum datum, ⟨datum, meaning, rfl⟩, by rw [load, decoded]⟩

section Listed

def listedText : String :=
  "[[[\"A\",\"m\",[[7,\"jsr\"]],null,[7,\"halt\"]," ++
  "[[7,[],[],[0,9,7],[[9,[],[]]],[[false,false,null,\"jsr\",7,null,[],[]]]]]]]]"

def listedEvaluation : Json :=
  .list [.flag false, .flag false, .null, .text (some "jsr"), .number (wholeLiteral 7), .null, .list [], .list []]

def listedBlock : Json :=
  .list [.number (wholeLiteral 7), .list [], .list [],
    .list [.number (wholeLiteral 0), .number (wholeLiteral 9), .number (wholeLiteral 7)],
    .list [.list [.number (wholeLiteral 9), .list [], .list []]], .list [listedEvaluation]]

def listedMethod : Json :=
  .list [.text (some "A"), .text (some "m"), .list [.list [.number (wholeLiteral 7), .text (some "jsr")]], .null,
    .list [.number (wholeLiteral 7), .text (some "halt")], .list [listedBlock]]

def listedJson : Json := .list [.list [listedMethod]]

def listedTrace : Trace :=
  let block : BlockEvaluation :=
    ⟨7, [], [], some ⟨0, 9, 7, none⟩, [⟨9, [], []⟩], [⟨false, false, none, "jsr", 7, none, [], [], none⟩]⟩
  ⟨[⟨"A", "m", [⟨7, "jsr"⟩], [], some ⟨7, "halt"⟩, [block]⟩]⟩

theorem document_listed : Document (Utf8.encode listedText) listedJson := by
  have seven {rest : Bytes} : Value (wholeLiteral 7 ++ rest) (.number (wholeLiteral 7)) rest :=
    .number (Reader.isNumber_wholeLiteral 7)
  have nine {rest : Bytes} : Value (wholeLiteral 9 ++ rest) (.number (wholeLiteral 9)) rest :=
    .number (Reader.isNumber_wholeLiteral 9)
  have empty {rest : Bytes} : Value ('['.toUInt8 :: ']'.toUInt8 :: rest) (.list []) rest := .list (.close .none)
  -- the bytes are what the derivation makes of the value
  have derived : Document _ listedJson :=
    ⟨_, _, .none, .list (.item (.first .none) (.list (.item (.first .none) (.list
      (.item (.first .none) (.text (.plain rfl))
      (.item (.comma .none .none) (.text (.plain rfl))
      (.item (.comma .none .none) (.list (.item (.first .none) (.list
        (.item (.first .none) seven
        (.item (.comma .none .none) (.text (.plain rfl))
        (.close .none)))) (.close .none)))
      (.item (.comma .none .none) .null
      (.item (.comma .none .none) (.list
        (.item (.first .none) seven
        (.item (.comma .none .none) (.text (.plain rfl))
        (.close .none))))
      (.item (.comma .none .none) (.list (.item (.first .none) (.list
        (.item (.first .none) seven
        (.item (.comma .none .none) empty
        (.item (.comma .none .none) empty
        (.item (.comma .none .none) (.list
          (.item (.first .none) (.number (Reader.isNumber_wholeLiteral 0))
          (.item (.comma .none .none) nine
          (.item (.comma .none .none) seven
          (.close .none)))))
        (.item (.comma .none .none) (.list (.item (.first .none) (.list
          (.item (.first .none) nine
          (.item (.comma .none .none) empty
          (.item (.comma .none .none) empty
          (.close .none))))) (.close .none)))
        (.item (.comma .none .none) (.list (.item (.first .none) (.list
          (.item (.first .none) .false
          (.item (.comma .none .none) .false
          (.item (.comma .none .none) .null
          (.item (.comma .none .none) (.text (.plain rfl))
          (.item (.comma .none .none) seven
          (.item (.comma .none .none) .null
          (.item (.comma .none .none) empty
          (.item (.comma .none .none) empty
          (.close .none)))))))))) (.close .none)))
        (.close .none)))))))) (.close .none)))
      (.close .none)))))))) (.close .none))) (.close .none)), .none⟩
  have spelled : listedText = String.ofList _ ++ String.ofList _ := rfl
  rw [spelled, ← String.ofList_append, Utf8.encode_ofList]
  refine Eq.subst (motive := fun bytes => Document bytes listedJson) ?_ derived
  decide +kernel

theorem describedBy_listed : listedTrace.DescribedBy listedJson := by
  have flag : Defaulted false IsFlag [.flag false] false := .once rfl
  have evaluation : InstructionEvaluation.DescribedBy listedEvaluation
      ⟨false, false, none, "jsr", 7, none, [], [], none⟩ := by
    simp [listedEvaluation, InstructionEvaluation.describedBy_iff, Json.IsRecord, Json.field, required_iff,
      optional_iff, isList_iff, IsText, IsOffset, flag]
  have block : BlockEvaluation.DescribedBy listedBlock ⟨7, [], [], some ⟨0, 9, 7, none⟩, [⟨9, [], []⟩],
      [⟨false, false, none, "jsr", 7, none, [], [], none⟩]⟩ := by
    simp [listedBlock, BlockEvaluation.describedBy_iff, ExceptionHandler.describedBy_iff,
      BranchTarget.describedBy_iff, Json.IsRecord, Json.field, required_iff, optional_iff, isList_iff, IsOffset,
      evaluation]
  simp [listedJson, listedMethod, listedTrace, Trace.describedBy_iff, MethodTrace.describedBy_iff,
    Instruction.describedBy_iff, EvaluationError.describedBy_iff, Json.IsRecord, Json.field, required_iff,
    optional_iff, isList_iff, IsText, IsOffset, Defaulted.null, block]

theorem holds_listedMethod : Holds .document listedJson (.item (.record .method)) listedMethod := by
  have methods : Holds .document listedJson ⟨"codeAttributes", .list (.record .method), true⟩ _ :=
    Holds.self.toField rfl 0 rfl List.mem_cons_self
  exact methods.toItem rfl List.mem_cons_self

theorem holds_listedBlock : Holds .document listedJson (.item (.record .block)) listedBlock :=
  (holds_listedMethod.toField rfl 5 rfl List.mem_cons_self).toItem rfl List.mem_cons_self

theorem holds_listedEvaluation : Holds .document listedJson (.item (.record .evaluation)) listedEvaluation :=
  (holds_listedBlock.toField rfl 5 rfl List.mem_cons_self).toItem rfl List.mem_cons_self

/-- A null is malformed in place of a trace, and the deepest list of the document of lists is an evaluation. -/
theorem malformed_or_listed_evaluation :
    (∃ error, load (Utf8.encode "null") = .error error ∧ error.IsMalformed) ∧
      (∃ items, listedEvaluation = .list items ∧ RecordKind.evaluation.ListedBy items) ∧
      (listedJson.keyed (.record .trace)).HasObjects ∧
      ∃ trace : Trace, trace.DescribedBy (listedJson.keyed (.record .trace)) ∧
        load (Utf8.encode listedText) = trace.checked := by
  constructor
  · have document : Document (Utf8.encode "null") .null := ⟨_, _, .none, .null, .none⟩
    obtain ⟨malformed, _⟩ | ⟨⟨items, ⟨⟩, _⟩, _⟩ :=
      malformed_or_listed document .self rfl nofun fun _ => by decide
    exact malformed
  · obtain ⟨_, undescribed⟩ | listed :=
      malformed_or_listed document_listed holds_listedEvaluation rfl nofun nofun
    · obtain ⟨datum, meaning, same⟩ := describedBy_iff_means.mp describedBy_listed
      exact absurd (describedBy_iff_means.mpr ⟨datum, says_keyed_iff.mpr meaning, same⟩) (undescribed _)
    · exact listed

/-- Lists are read as records of every kind. -/
theorem load_listed :
    Document (Utf8.encode listedText) listedJson ∧ load (Utf8.encode listedText) = .ok listedTrace ∧
      ∀ kind, ∃ field items, Holds .document listedJson field (.list items) ∧ field.shape = .record kind := by
  refine ⟨document_listed, ?_, fun kind => ?_⟩
  · exact load_eq_ok_iff.mpr ⟨misfit?_eq_none_iff.mp rfl, _, document_listed, describedBy_listed⟩
  · cases kind with
    | trace => exact ⟨_, _, .self, rfl⟩
    | method => exact ⟨_, _, holds_listedMethod, rfl⟩
    | instruction =>
        have instructions := holds_listedMethod.toField rfl 2 rfl List.mem_cons_self
        exact ⟨_, _, instructions.toItem rfl List.mem_cons_self, rfl⟩
    | evaluationError => exact ⟨_, _, holds_listedMethod.toField rfl 4 rfl List.mem_cons_self, rfl⟩
    | block => exact ⟨_, _, holds_listedBlock, rfl⟩
    | exceptionHandler => exact ⟨_, _, holds_listedBlock.toField rfl 3 rfl List.mem_cons_self, rfl⟩
    | branchTarget =>
        have worklist := holds_listedBlock.toField rfl 4 rfl List.mem_cons_self
        exact ⟨_, _, worklist.toItem rfl List.mem_cons_self, rfl⟩
    | evaluation => exact ⟨_, _, holds_listedEvaluation, rfl⟩

end Listed

end Trace

end TraceReplay
