import TraceReplay.Interchange.Shape
import TraceReplay.Proofs.Reading.Grammar

/-!
What a value of a document says when it is read along a shape. A record may be an object or a list. In an
object a field is found by its key, whatever stands around it, and in a list by its place among the fields; a
field with values at two places says nothing.
-/
namespace TraceReplay.Interchange

namespace Json

/-- The values that are written for a field of a record, given by its place and its key. -/
def field (json : Json) (place : Nat) (key : String) : List Json :=
  match json with
  | .object members => members.filterMap fun (name, value) => if name = some key then some value else none
  | .list items => items[place]?.toList
  | _ => []

/-- A value that may be a record of so many fields. All keys of an object must be texts with a meaning, those
of unknown fields as well; in a list there is nothing but fields. -/
def IsRecord (json : Json) (size : Nat) : Prop :=
  match json with
  | .object members => ∀ member ∈ members, member.1.isSome
  | .list items => items.length ≤ size
  | _ => False

section Members

variable {members : List (Option String × Json)} {name : Option String} {json value : Json} {place : Nat}
  {key : String}

theorem sizeOf_lt_of_mem_field (mem : value ∈ json.field place key) : sizeOf value < sizeOf json := by
  cases json with
  | list items => exact sizeOf_lt_of_mem_list (List.mem_of_getElem? (Option.mem_toList.mp mem))
  | object members =>
      obtain ⟨⟨name, found⟩, held, same⟩ := List.mem_filterMap.mp mem
      simp only [Option.ite_none_right_eq_some, Option.some.injEq] at same
      obtain ⟨-, rfl⟩ := same
      exact sizeOf_lt_of_mem_object held
  | _ => cases mem

theorem field_object_cons_self :
    (object ((some key, value) :: members)).field place key =
      value :: (object members).field place key := by
  simp [field]

theorem field_object_cons_of_ne (other : name ≠ some key) :
    (object ((name, value) :: members)).field place key = (object members).field place key := by
  simp [field, other]

end Members

def underKeys : List Field → List Json → List (Option String × Json)
  | field :: fields, value :: values => (some field.key, value) :: underKeys fields values
  | _, _ => []

section UnderKeys

variable {fields : List Field} {field : Field} {values : List Json} {member : Option String × Json}
  {key : String} {place k : Nat}

theorem key_of_mem_underKeys (mem : member ∈ underKeys fields values) :
    ∃ key ∈ fields.map (·.key), member.1 = some key := by
  induction fields generalizing values with
  | nil => simp [underKeys] at mem
  | cons field fields ih =>
      cases values with
      | nil => simp [underKeys] at mem
      | cons value values =>
          rw [underKeys] at mem
          rcases List.mem_cons.mp mem with rfl | mem
          · exact ⟨field.key, List.mem_cons_self, rfl⟩
          · obtain ⟨key, known, same⟩ := ih mem
            exact ⟨key, List.mem_cons_of_mem _ known, same⟩

theorem field_underKeys_of_not_mem (unknown : key ∉ fields.map (·.key)) :
    (object (underKeys fields values)).field place key = [] := by
  refine List.filterMap_eq_nil_iff.mpr fun member mem => ?_
  obtain ⟨other, known, same⟩ := key_of_mem_underKeys mem
  have apart : member.1 ≠ some key := fun found =>
    unknown (Option.some.inj (same.symm.trans found) ▸ known)
  simp [apart]

/-- A field is found where its value stands. -/
theorem field_underKeys (distinct : (fields.map (·.key)).Nodup) (known : fields[k]? = some field) :
    (object (underKeys fields values)).field place field.key = values[k]?.toList := by
  induction k generalizing fields values with
  | zero =>
      obtain ⟨fields, rfl⟩ := List.head?_eq_some_iff.mp (List.head?_eq_getElem? ▸ known)
      cases values with
      | nil => rfl
      | cons value values =>
          rw [underKeys, field_object_cons_self, field_underKeys_of_not_mem (List.nodup_cons.mp distinct).1]
          rfl
  | succ k ih =>
      cases fields with
      | nil => cases known
      | cons first fields =>
          obtain ⟨apart, distinct⟩ : first.key ∉ fields.map (·.key) ∧ (fields.map (·.key)).Nodup :=
            List.nodup_cons.mp distinct
          cases values with
          | nil => rfl
          | cons front values =>
              have later : field.key ∈ fields.map (·.key) :=
                List.mem_map_of_mem (List.mem_of_getElem? known)
              have other : some first.key ≠ some field.key := fun same =>
                apart (Option.some.inj same ▸ later)
              rw [underKeys, field_object_cons_of_ne other]
              exact ih distinct known

end UnderKeys

end Json

namespace RecordKind

variable {kind : RecordKind} {key : String} {k : Nat}

/-- A key tells which field of the record it is for. -/
theorem keys_nodup (kind : RecordKind) : (kind.fields.map (·.key)).Nodup := by
  cases kind <;> decide

theorem fieldIndex?_eq_none_iff : kind.fieldIndex? key = none ↔ ∀ field ∈ kind.fields, field.key ≠ key := by
  simp [fieldIndex?]

/-- The place of a key is the only one where it stands. -/
theorem fieldIndex?_eq_some_iff :
    kind.fieldIndex? key = some k ↔ ∃ field, kind.fields[k]? = some field ∧ field.key = key := by
  rw [fieldIndex?, List.findIdx?_eq_some_iff_getElem]
  constructor
  · rintro ⟨inside, same, -⟩
    exact ⟨_, List.getElem?_eq_getElem inside, by simpa using same⟩
  · rintro ⟨field, at_place, rfl⟩
    obtain ⟨inside, rfl⟩ := List.getElem?_eq_some_iff.mp at_place
    refine ⟨inside, beq_self_eq_true _, fun j before same => ?_⟩
    have apart := List.pairwise_iff_getElem.mp (List.pairwise_map.mp kind.keys_nodup)
    exact apart j k _ inside before (beq_iff_eq.mp same)

end RecordKind

open Grammar

mutual

inductive Says : Shape → Json → Datum → Prop
  | text {value : String} : Says .text (.text (some value)) (.text value)
  | flag {value : Bool} : Says .flag (.flag value) (.flag value)
  | offset {n : Nat} : n < Shape.offset.limit → Says .offset (.number (wholeLiteral n)) (.number n)
  | count {n : Nat} : n < Shape.count.limit → Says .count (.number (wholeLiteral n)) (.number n)
  | list {item : Shape} {items : List Json} {data : List Datum} :
      SaysAll item items data → Says (.list item) (.list items) (.list data)
  | record {kind : RecordKind} {json : Json} {values : List Datum} :
      json.IsRecord kind.fields.length → values.length = kind.fields.length →
      (∀ place field value, kind.fields[place]? = some field → values[place]? = some value →
        SaysField field (json.field place field.key) value) →
      Says (.record kind) json (.record kind values)

inductive SaysAll : Shape → List Json → List Datum → Prop
  | nil {item : Shape} : SaysAll item [] []
  | cons {item : Shape} {json : Json} {datum : Datum} {items : List Json} {data : List Datum} :
      Says item json datum → SaysAll item items data → SaysAll item (json :: items) (datum :: data)

/-- What the values written for a field say of it. -/
inductive SaysField : Field → List Json → Datum → Prop
  | leftOut {field : Field} : field.required = false → SaysField field [] .absent
  | null {field : Field} : field.required = false → SaysField field [.null] .absent
  | value {field : Field} {json : Json} {datum : Datum} :
      Says field.shape json datum → SaysField field [json] datum

end

/-- What is found for each of some fields, counted from the first one, is what the values say of it. -/
structure SaysFields (fields : List Field) (found : Nat → Field → List Json) (values : List Datum) :
    Prop where
  length_eq : values.length = fields.length
  each : ∀ place field value, fields[place]? = some field → values[place]? = some value →
    SaysField field (found place field) value

variable {fields : List Field} {field : Field} {found : Nat → Field → List Json} {values : List Datum}
  {value : Datum}

theorem SaysFields.nil : SaysFields [] found [] where
  length_eq := rfl
  each := by simp

theorem SaysFields.eq_nil (meaning : SaysFields [] found values) : values = [] :=
  List.eq_nil_of_length_eq_zero meaning.length_eq

theorem SaysFields.cons (first : SaysField field (found 0 field) value)
    (others : SaysFields fields (fun place => found (place + 1)) values) :
    SaysFields (field :: fields) found (value :: values) where
  length_eq := congrArg (· + 1) others.length_eq
  each place := by
    cases place with
    | zero =>
        rintro _ _ ⟨⟩ ⟨⟩
        exact first
    | succ place => exact others.each place

theorem SaysFields.exists_cons (meaning : SaysFields (field :: fields) found values) :
    ∃ value others, values = value :: others ∧ SaysField field (found 0 field) value ∧
      SaysFields fields (fun place => found (place + 1)) others := by
  cases values with
  | nil => exact absurd meaning.length_eq (Nat.succ_ne_zero _).symm
  | cons value others =>
      refine ⟨value, others, rfl, meaning.each 0 _ _ rfl rfl, Nat.succ.inj meaning.length_eq, ?_⟩
      exact fun place => meaning.each (place + 1)

/-- A record is an object or a list, and its fields say what stands under their keys or at their places. -/
theorem says_record_iff {kind : RecordKind} {json : Json} :
    Says (.record kind) json (.record kind values) ↔
      json.IsRecord kind.fields.length ∧
        SaysFields kind.fields (fun place field => json.field place field.key) values := by
  constructor
  · rintro (_ | _ | _ | _ | _ | ⟨isRecord, length, each⟩)
    exact ⟨isRecord, length, each⟩
  · rintro ⟨isRecord, length, each⟩
    exact .record isRecord length each

end TraceReplay.Interchange
