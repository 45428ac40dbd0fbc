import TraceReplay.Proofs.Reading.Meaning

/-!
Lists that are read as records, with objects in their place. A list that has no more items than a record has fields
stands for the object that has those items under the keys of the fields, in their order. A value says the same with
objects in place of all such lists.
-/
namespace TraceReplay.Interchange

def RecordKind.field? (kind : RecordKind) (name : Option String) : Option Field :=
  name.bind fun key => (kind.fieldIndex? key).bind (kind.fields[·]?)

mutual

/-- The value with an object in place of each list that is read as a record; a list with more items than there are
fields is not. -/
def Json.keyed : Shape → Json → Json
  | .list item, .list items => .list (keyedItems item items)
  | .record kind, .object members => .object (keyedMembers kind members)
  | .record kind, .list items =>
    if items.length ≤ kind.fields.length then .object (Json.underKeys kind.fields (keyedFields kind.fields items))
    else .list items
  | _, json => json

def keyedItems (item : Shape) : List Json → List Json
  | [] => []
  | json :: items => json.keyed item :: keyedItems item items

def keyedMembers (kind : RecordKind) : List (Option String × Json) → List (Option String × Json)
  | [] => []
  | (name, value) :: members =>
    (name, match kind.field? name with
      | some field => value.keyed field.shape
      | none => value) :: keyedMembers kind members

def keyedFields : List Field → List Json → List Json
  | field :: fields, json :: items => json.keyed field.shape :: keyedFields fields items
  | _, _ => []

end

section Keyed

variable {kind : RecordKind} {field : Field} {fields : List Field} {json : Json} {item shape : Shape}
  {items found : List Json} {members : List (Option String × Json)} {place : Nat} {datum : Datum}

theorem keyed_eq_null_iff : json.keyed shape = .null ↔ json = .null := by
  cases shape with
  | text | flag | offset | count => cases json <;> rfl
  | list item => cases json <;> simp [Json.keyed]
  | record kind =>
      cases json with
      | list items =>
          rw [Json.keyed]
          split <;> simp
      | _ => simp [Json.keyed]

theorem keyedItems_eq_map : keyedItems item items = items.map (Json.keyed item) := by
  induction items with
  | nil => rfl
  | cons json items ih => rw [keyedItems, ih, List.map_cons]

theorem map_fst_keyedMembers : (keyedMembers kind members).map Prod.fst = members.map Prod.fst := by
  induction members with
  | nil => rfl
  | cons member members ih => rw [keyedMembers, List.map_cons, List.map_cons, ih]

theorem getElem?_keyedFields (known : fields[place]? = some field) :
    (keyedFields fields items)[place]? = items[place]?.map (Json.keyed field.shape) := by
  induction place generalizing fields items with
  | zero =>
      obtain ⟨fields, rfl⟩ := List.head?_eq_some_iff.mp (List.head?_eq_getElem? ▸ known)
      cases items <;> rfl
  | succ place ih =>
      cases fields with
      | nil => cases known
      | cons first fields =>
          cases items with
          | nil => rfl
          | cons json items => exact ih known

theorem RecordKind.field?_key (known : kind.fields[place]? = some field) :
    kind.field? (some field.key) = some field := by
  rw [field?, Option.bind_some, RecordKind.fieldIndex?_eq_some_iff.mpr ⟨field, known, rfl⟩, Option.bind_some, known]

theorem field_keyedMembers (known : kind.fields[place]? = some field) :
    (Json.object (keyedMembers kind members)).field place field.key =
      ((Json.object members).field place field.key).map (Json.keyed field.shape) := by
  induction members with
  | nil => rfl
  | cons member members ih =>
      obtain ⟨name, value⟩ := member
      rw [keyedMembers]
      by_cases same : name = some field.key
      · rw [same, RecordKind.field?_key known, Json.field_object_cons_self, Json.field_object_cons_self, ih]
        rfl
      · rw [Json.field_object_cons_of_ne same, Json.field_object_cons_of_ne same, ih]

/-- A record with objects in place of lists has the same values for its fields, with objects in place of lists. -/
theorem Json.field_keyed (isRecord : json.IsRecord kind.fields.length)
    (known : kind.fields[place]? = some field) :
    (json.keyed (.record kind)).field place field.key =
      (json.field place field.key).map (Json.keyed field.shape) := by
  cases json with
  | object members => exact field_keyedMembers known
  | list items =>
      have few : items.length ≤ kind.fields.length := isRecord
      rw [Json.keyed, if_pos few, Json.field_underKeys kind.keys_nodup known, getElem?_keyedFields known]
      exact Option.toList_map
  | _ => cases isRecord

theorem Json.keyed_record (isRecord : json.IsRecord kind.fields.length) :
    ∃ members, json.keyed (.record kind) = .object members := by
  cases json with
  | object members => exact ⟨_, rfl⟩
  | list items => exact ⟨_, if_pos isRecord⟩
  | _ => cases isRecord

/-- Keys in place of a list change nothing about what may be a record. -/
theorem Json.isRecord_keyed :
    (json.keyed (.record kind)).IsRecord kind.fields.length ↔ json.IsRecord kind.fields.length := by
  cases json with
  | object members =>
      have byNames (members : List (Option String × Json)) :
          (object members).IsRecord kind.fields.length ↔ ∀ name ∈ members.map Prod.fst, name.isSome := by
        rw [List.forall_mem_map]
        rfl
      rw [Json.keyed, byNames, byNames, map_fst_keyedMembers]
  | list items =>
      rw [Json.keyed]
      split
      next few =>
        refine iff_of_true (fun member mem => ?_) few
        obtain ⟨key, _, same⟩ := Json.key_of_mem_underKeys mem
        rw [same]
        rfl
      next => exact Iff.rfl
  | _ => exact Iff.rfl

theorem saysField_singleton_iff :
    SaysField field [json] datum ↔
      (json = .null ∧ field.required = false ∧ datum = .absent) ∨ Says field.shape json datum := by
  constructor
  · rintro (_ | optional | meaning)
    · exact .inl ⟨rfl, optional, rfl⟩
    · exact .inr meaning
  · rintro (⟨rfl, optional, rfl⟩ | meaning)
    · exact .null optional
    · exact .value meaning

/-- A field that is written twice says nothing. -/
theorem not_saysField_twice {first second : Json} : ¬SaysField field (first :: second :: found) datum := nofun

theorem saysField_keyed_iff
    (inside : ∀ json ∈ found, ∀ datum,
      Says field.shape (json.keyed field.shape) datum ↔ Says field.shape json datum) :
    SaysField field (found.map (Json.keyed field.shape)) datum ↔ SaysField field found datum := by
  match found with
  | [] => exact Iff.rfl
  | [json] =>
      rw [List.map_singleton, saysField_singleton_iff, saysField_singleton_iff, keyed_eq_null_iff,
        inside json List.mem_cons_self]
  | first :: second :: found =>
      exact iff_of_false not_saysField_twice not_saysField_twice

theorem saysAll_keyed_iff {data : List Datum}
    (inside : ∀ json ∈ items, ∀ datum, Says item (json.keyed item) datum ↔ Says item json datum) :
    SaysAll item (items.map (Json.keyed item)) data ↔ SaysAll item items data := by
  induction items generalizing data with
  | nil => exact Iff.rfl
  | cons json items ih =>
      obtain ⟨here, others⟩ := List.forall_mem_cons.mp inside
      constructor
      · rintro ⟨⟩
        next meaning all => exact .cons ((here _).mp meaning) ((ih others).mp all)
      · rintro ⟨⟩
        next meaning all => exact .cons ((here _).mpr meaning) ((ih others).mpr all)

/-- With objects in place of lists a value says the same. -/
theorem says_keyed_iff : Says shape (json.keyed shape) datum ↔ Says shape json datum := by
  -- by the size of the value: what is written for a field is found by its key or its place, not by a constructor
  induction size : sizeOf json using Nat.strongRecOn generalizing shape json datum with
  | ind n ih =>
      subst size
      cases shape with
      | text | flag | offset | count => cases json <;> rfl
      | list item =>
          cases json with
          | list items =>
              have inside : ∀ json ∈ items, ∀ datum, Says item (json.keyed item) datum ↔ Says item json datum :=
                fun json mem _ => ih _ (Json.sizeOf_lt_of_mem_list mem) rfl
              rw [Json.keyed, keyedItems_eq_map]
              constructor
              · rintro ⟨⟩
                next all => exact .list ((saysAll_keyed_iff inside).mp all)
              · rintro ⟨⟩
                next all => exact .list ((saysAll_keyed_iff inside).mpr all)
          | _ => rfl
      | record kind =>
          have inside (isRecord : json.IsRecord kind.fields.length) {place : Nat} {field : Field} {value : Datum}
              (known : kind.fields[place]? = some field) :
              SaysField field ((json.keyed (.record kind)).field place field.key) value ↔
                SaysField field (json.field place field.key) value := by
            rw [Json.field_keyed isRecord known]
            exact saysField_keyed_iff fun json mem _ => ih _ (Json.sizeOf_lt_of_mem_field mem) rfl
          constructor
          · intro meaning
            cases meaning with
            | record isRecord sized each =>
                have isRecord := Json.isRecord_keyed.mp isRecord
                exact .record isRecord sized fun place field value known written =>
                  (inside isRecord known).mp (each place field value known written)
          · intro meaning
            cases meaning with
            | record isRecord sized each =>
                exact .record (Json.isRecord_keyed.mpr isRecord) sized fun place field value known written =>
                  (inside isRecord known).mpr (each place field value known written)

end Keyed

end TraceReplay.Interchange
