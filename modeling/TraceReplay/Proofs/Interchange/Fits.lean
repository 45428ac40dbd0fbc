import Mathlib.Data.List.Forall2
import TraceReplay.Proofs.Reading.Meaning

/-!
Data that fits a shape, and the value that is written for it. Every field is among the members of a record,
under its own key, so the value says the data it was made of.
-/
namespace TraceReplay.Interchange

mutual

/-- What a document can say where a shape is expected. -/
inductive Fits : Shape → Datum → Prop
  | text (value : String) : Fits .text (.text value)
  | flag (value : Bool) : Fits .flag (.flag value)
  | offset {value : Nat} (inRange : value < UInt64.size) : Fits .offset (.number value)
  | count {value : Nat} (inRange : value < UInt32.size) : Fits .count (.number value)
  | list {item : Shape} {items : List Datum} (all : ∀ datum ∈ items, Fits item datum) :
      Fits (.list item) (.list items)
  | record {kind : RecordKind} {values : List Datum}
      (all : List.Forall₂ FitsField kind.fields values) :
      Fits (.record kind) (.record kind values)

inductive FitsField : Field → Datum → Prop
  | absent {field : Field} (optional : field.required = false) : FitsField field .absent
  | present {field : Field} {value : Datum} (fits : Fits field.shape value) : FitsField field value

end

theorem Fits.ne_absent {shape : Shape} {datum : Datum} (fits : Fits shape datum) :
    datum ≠ .absent := by
  intro h
  subst h
  cases fits

mutual

def Datum.json : Datum → Json
  | .absent => .null
  | .text value => .text (some value)
  | .flag value => .flag value
  | .number value => .number (Grammar.wholeLiteral value)
  | .list items => .list (itemsJson items)
  | .record kind values => .object (membersJson kind.fields values)

def itemsJson : List Datum → List Json
  | [] => []
  | item :: items => item.json :: itemsJson items

def membersJson : List Field → List Datum → List (Option String × Json)
  | field :: fields, value :: values => (some field.key, value.json) :: membersJson fields values
  | _, _ => []

end

section Members

variable {fields : List Field} {values : List Datum} {field : Field} {value : Datum} {place : Nat}

theorem itemsJson_eq_map : itemsJson values = values.map Datum.json := by
  induction values with
  | nil => rfl
  | cons value values ih => rw [itemsJson, ih, List.map_cons]

theorem membersJson_eq : membersJson fields values = Json.underKeys fields (itemsJson values) := by
  induction fields generalizing values with
  | nil => cases values <;> rfl
  | cons field fields ih =>
      cases values with
      | nil => rfl
      | cons value values => rw [membersJson, itemsJson, Json.underKeys, ih]

theorem key_mem_of_mem_membersJson {member : Option String × Json}
    (mem : member ∈ membersJson fields values) : ∃ key ∈ fields.map (·.key), member.1 = some key :=
  Json.key_of_mem_underKeys (membersJson_eq ▸ mem)

/-- The keys of a record differ, so under each of them there is one value. -/
theorem field_membersJson {k : Nat} (distinct : (fields.map (·.key)).Nodup)
    (known : fields[k]? = some field) (written : values[k]? = some value) :
    (Json.object (membersJson fields values)).field place field.key = [value.json] := by
  rw [membersJson_eq, Json.field_underKeys distinct known, itemsJson_eq_map, List.getElem?_map, written]
  rfl

end Members

theorem saysAll_itemsJson {item : Shape} {items : List Datum}
    (all : ∀ datum ∈ items, Says item datum.json datum) : SaysAll item (itemsJson items) items := by
  induction items with
  | nil => exact .nil
  | cons datum items ih =>
      obtain ⟨first, others⟩ := List.forall_mem_cons.mp all
      exact .cons first (ih others)

theorem FitsField.saysField_json {field : Field} {value : Datum} (fits : FitsField field value)
    (inside : Fits field.shape value → Says field.shape value.json value) :
    SaysField field [value.json] value := by
  cases fits with
  | absent optional => exact .null optional
  | present fits => exact .value (inside fits)

mutual

/-- What is written for data that fits a shape says the data. -/
theorem says_json {shape : Shape} : (datum : Datum) → Fits shape datum → Says shape datum.json datum
  | .text _, .text _ => .text
  | .flag _, .flag _ => .flag
  | .number _, .offset inRange => .offset inRange
  | .number _, .count inRange => .count inRange
  | .list items, .list all =>
      .list (saysAll_itemsJson fun datum mem => says_json_of_mem items datum mem (all datum mem))
  | .record kind values, .record all => by
      have isRecord : (Json.object (membersJson kind.fields values)).IsRecord kind.fields.length := by
        intro member mem
        obtain ⟨key, -, same⟩ := key_mem_of_mem_membersJson mem
        rw [same]
        rfl
      refine .record isRecord all.length_eq.symm fun place field value known written => ?_
      have inside : Fits field.shape value → Says field.shape value.json value :=
        says_json_of_mem values value (List.mem_of_getElem? written)
      rw [Datum.json, field_membersJson kind.keys_nodup known written]
      obtain ⟨_, rfl⟩ := List.getElem?_eq_some_iff.mp known
      obtain ⟨_, rfl⟩ := List.getElem?_eq_some_iff.mp written
      exact (all.get _ _).saysField_json inside

theorem says_json_of_mem {shape : Shape} : (values : List Datum) → ∀ value ∈ values,
    Fits shape value → Says shape value.json value
  | [] => nofun
  | datum :: values =>
      List.forall_mem_cons.mpr ⟨says_json datum, says_json_of_mem values⟩

end

end TraceReplay.Interchange
