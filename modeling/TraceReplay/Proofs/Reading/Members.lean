import TraceReplay.Proofs.Reading.Elements

/-!
Records that are written as objects, relative to a reader of the values inside. The reader keeps a slot for
each field, and every member fills the slot of its key or none; what has been read so far stands in the slots,
so the members that are still to come say what makes the last slots of the first.
-/
namespace TraceReplay.Interchange

open Grammar

/-- What the values written for a field make of its slot. A slot is filled once only. -/
inductive Fills (field : Field) : List Json → Option Datum → Option Datum → Prop
  | kept {slot : Option Datum} : Fills field [] slot slot
  | once {json : Json} {datum : Datum} :
      SaysField field [json] datum → Fills field [json] none (some datum)

theorem fills_cons_iff {field : Field} {json : Json} {others : List Json} {slot slot' : Option Datum} :
    Fills field (json :: others) slot slot' ↔
      others = [] ∧ slot = none ∧ ∃ datum, SaysField field [json] datum ∧ slot' = some datum := by
  constructor
  · rintro (_ | ⟨meaning⟩)
    exact ⟨rfl, rfl, _, meaning, rfl⟩
  · rintro ⟨rfl, rfl, datum, meaning, rfl⟩
    exact .once meaning

theorem fills_some_iff {field : Field} {found : List Json} {datum : Datum} {slot' : Option Datum} :
    Fills field found (some datum) slot' ↔ found = [] ∧ slot' = some datum := by
  constructor
  · rintro (_ | _)
    exact ⟨rfl, rfl⟩
  · rintro ⟨rfl, rfl⟩
    exact .kept

structure FillsFields (fields : List Field) (found : Nat → Field → List Json)
    (slots slots' : List (Option Datum)) : Prop where
  length_eq : slots'.length = slots.length
  each : ∀ place field slot slot', fields[place]? = some field → slots[place]? = some slot →
    slots'[place]? = some slot' → Fills field (found place field) slot slot'

section Fields

variable {fields : List Field} {field : Field} {found found' : Nat → Field → List Json}
  {slot slot' : Option Datum} {slots slots' : List (Option Datum)} {values : List Datum}

theorem FillsFields.congr (fills : FillsFields fields found slots slots')
    (same : ∀ place field, fields[place]? = some field → found place field = found' place field) :
    FillsFields fields found' slots slots' := by
  refine ⟨fills.length_eq, fun place field slot slot' at_place before after => ?_⟩
  rw [← same place field at_place]
  exact fills.each place field slot slot' at_place before after

theorem fillsFields_nothing (sized : slots.length = fields.length) :
    FillsFields fields (fun _ _ => []) slots slots' ↔ slots' = slots := by
  constructor
  · rintro ⟨length, each⟩
    refine List.ext_getElem length fun place inside' inside => ?_
    have kept := each place _ _ _ (List.getElem?_eq_getElem (sized ▸ inside))
      (List.getElem?_eq_getElem inside) (List.getElem?_eq_getElem inside')
    generalize slots'[place] = slot' at kept
    cases kept
    rfl
  · rintro rfl
    refine ⟨rfl, fun place field slot slot' _ before after => ?_⟩
    obtain rfl := Option.some.inj (before.symm.trans after)
    exact .kept

theorem FillsFields.cons (first : Fills field (found 0 field) slot slot')
    (others : FillsFields fields (fun place => found (place + 1)) slots slots') :
    FillsFields (field :: fields) found (slot :: slots) (slot' :: slots') where
  length_eq := congrArg (· + 1) others.length_eq
  each place := by
    cases place with
    | zero =>
        rintro _ _ _ ⟨⟩ ⟨⟩ ⟨⟩
        exact first
    | succ place => exact others.each place

theorem FillsFields.exists_cons (fills : FillsFields (field :: fields) found (slot :: slots) slots') :
    ∃ slot' others, slots' = slot' :: others ∧ Fills field (found 0 field) slot slot' ∧
      FillsFields fields (fun place => found (place + 1)) slots others := by
  cases slots' with
  | nil => exact absurd fills.length_eq (Nat.succ_ne_zero _).symm
  | cons slot' others =>
      refine ⟨slot', others, rfl, fills.each 0 _ _ _ rfl rfl rfl, Nat.succ.inj fills.length_eq, ?_⟩
      exact fun place => fills.each (place + 1)

variable {bytes rest : Bytes}

/-- Filling up reads nothing. -/
theorem eq_of_fill (filled : Reader.fill fields slots bytes = .ok values rest) : bytes = rest := by
  induction fields generalizing slots values with
  | nil =>
      rw [Reader.fill.eq_def] at filled
      exact (Reader.pure_eq_ok.mp filled).2
  | cons field fields ih =>
      match slots with
      | [] => exact (Reader.pure_eq_ok.mp filled).2
      | some value :: slots =>
          obtain ⟨values, _, others, done⟩ := Reader.bind_eq_ok.mp filled
          obtain ⟨-, rfl⟩ := Reader.pure_eq_ok.mp done
          exact ih others
      | none :: slots =>
          simp only [Reader.fill, Reader.ite_apply_eq] at filled
          split at filled
          · simp at filled
          · obtain ⟨values, _, others, done⟩ := Reader.bind_eq_ok.mp filled
            obtain ⟨-, rfl⟩ := Reader.pure_eq_ok.mp done
            exact ih others

/-- Slots that were empty at first hold what the values of the fields say, once the fields without a value
are filled up. -/
theorem saysFields_of_fill (fills : FillsFields fields found (fields.map fun _ => none) slots)
    (filled : Reader.fill fields slots bytes = .ok values rest) : SaysFields fields found values := by
  induction fields generalizing found slots values with
  | nil =>
      rw [Reader.fill.eq_def, Reader.pure_eq_ok] at filled
      obtain ⟨rfl, -⟩ := filled
      exact .nil
  | cons field fields ih =>
      obtain ⟨slot, slots, rfl, first, others⟩ := fills.exists_cons
      generalize held : found 0 field = written at first
      cases first with
      | once meaning =>
          simp only [Reader.fill, Reader.bind_eq_ok, Reader.pure_eq_ok] at filled
          obtain ⟨values, _, filled, rfl, rfl⟩ := filled
          exact .cons (held ▸ meaning) (ih others filled)
      | kept =>
          simp only [Reader.fill, Reader.ite_apply_eq] at filled
          split at filled
          · simp at filled
          case isFalse optional =>
              simp only [Reader.bind_eq_ok, Reader.pure_eq_ok] at filled
              obtain ⟨values, _, filled, rfl, rfl⟩ := filled
              exact .cons (held ▸ .leftOut (Bool.eq_false_iff.mpr optional)) (ih others filled)

theorem fill_of_saysFields (meaning : SaysFields fields found values) :
    ∃ slots, FillsFields fields found (fields.map fun _ => none) slots ∧
      ∀ bytes, Reader.fill fields slots bytes = .ok values bytes := by
  induction fields generalizing found values with
  | nil =>
      obtain rfl := meaning.eq_nil
      exact ⟨[], ⟨rfl, by simp⟩, fun _ => rfl⟩
  | cons field fields ih =>
      obtain ⟨value, values, rfl, first, others⟩ := meaning.exists_cons
      obtain ⟨slots, fills, filled⟩ := ih others
      generalize held : found 0 field = written at first
      cases first with
      | leftOut optional =>
          refine ⟨none :: slots, .cons (held ▸ .kept) fills, fun bytes => ?_⟩
          simp only [Reader.fill, optional, Bool.false_eq_true, if_false, Reader.bind_eq_ok]
          exact ⟨values, _, filled bytes, rfl⟩
      | null optional =>
          refine ⟨some .absent :: slots, .cons (held ▸ .once (.null optional)) fills, ?_⟩
          exact fun bytes => Reader.bind_eq_ok.mpr ⟨values, _, filled bytes, rfl⟩
      | value meaning =>
          refine ⟨some value :: slots, .cons (held ▸ .once (.value meaning)) fills, ?_⟩
          exact fun bytes => Reader.bind_eq_ok.mpr ⟨values, _, filled bytes, rfl⟩

end Fields

section Members

variable {kind : RecordKind} {members : List (Option String × Json)} {key : String} {json : Json}
  {k : Nat} {slots slots' : List (Option Datum)}

/-- What the members of an object make of the slots of a record. -/
def FillsRecord (kind : RecordKind) (members : List (Option String × Json))
    (slots slots' : List (Option Datum)) : Prop :=
  FillsFields kind.fields (fun place field => (Json.object members).field place field.key) slots slots'

theorem fillsRecord_nil (sized : slots.length = kind.fields.length) :
    FillsRecord kind [] slots slots' ↔ slots' = slots :=
  fillsFields_nothing sized

theorem fillsRecord_unknown (unknown : kind.fieldIndex? key = none) :
    FillsRecord kind ((some key, json) :: members) slots slots' ↔
      FillsRecord kind members slots slots' := by
  have same (place : Nat) (field : Field) (at_place : kind.fields[place]? = some field) :
      (Json.object ((some key, json) :: members)).field place field.key =
        (Json.object members).field place field.key := by
    have other := RecordKind.fieldIndex?_eq_none_iff.mp unknown field (List.mem_of_getElem? at_place)
    exact Json.field_object_cons_of_ne fun eq => other (Option.some.inj eq).symm
  constructor
  · exact fun fills => fills.congr same
  · exact fun fills => fills.congr fun place field at_place => (same place field at_place).symm

/-- A member with a known key fills the slot of that key, and the others find it filled. -/
theorem fillsRecord_known {field : Field} (known : kind.fields[k]? = some field)
    (sized : slots.length = kind.fields.length) :
    FillsRecord kind ((some field.key, json) :: members) slots slots' ↔
      slots[k]? = some none ∧ ∃ datum, SaysField field [json] datum ∧
        FillsRecord kind members (slots.set k (some datum)) slots' := by
  have elsewhere {place : Nat} {other : Field} (at_place : kind.fields[place]? = some other)
      (apart : place ≠ k) : (Json.object ((some field.key, json) :: members)).field place other.key =
        (Json.object members).field place other.key := by
    refine Json.field_object_cons_of_ne fun same => apart ?_
    have first := RecordKind.fieldIndex?_eq_some_iff.mpr ⟨field, known, Option.some.inj same⟩
    have second := RecordKind.fieldIndex?_eq_some_iff.mpr ⟨other, at_place, rfl⟩
    exact Option.some.inj (second.symm.trans first)
  have inside : k < slots.length := sized ▸ (List.getElem?_eq_some_iff.mp known).1
  constructor
  · rintro ⟨length, each⟩
    have at_k := each k _ _ _ known (List.getElem?_eq_getElem inside)
      (List.getElem?_eq_getElem (length ▸ inside))
    rw [Json.field_object_cons_self, fills_cons_iff] at at_k
    obtain ⟨nothing, empty, datum, meaning, filled⟩ := at_k
    refine ⟨by rw [List.getElem?_eq_getElem inside, empty], datum, meaning, ?_, ?_⟩
    · rw [length, List.length_set]
    · intro place other slot slot' at_place before after
      by_cases same : place = k
      · subst same
        obtain rfl := Option.some.inj (known.symm.trans at_place)
        rw [List.getElem?_set_self inside] at before
        rw [List.getElem?_eq_getElem (length ▸ inside), filled] at after
        cases before
        cases after
        exact fills_some_iff.mpr ⟨nothing, rfl⟩
      · rw [List.getElem?_set_ne (Ne.symm same)] at before
        exact elsewhere at_place same ▸ each place other slot slot' at_place before after
  · rintro ⟨empty, datum, meaning, length, each⟩
    rw [List.length_set] at length
    refine ⟨length, fun place other slot slot' at_place before after => ?_⟩
    by_cases same : place = k
    · subst same
      obtain rfl := Option.some.inj (known.symm.trans at_place)
      obtain rfl := Option.some.inj (empty.symm.trans before)
      have filled := each place field _ slot' known (List.getElem?_set_self inside) after
      obtain ⟨nothing, rfl⟩ := fills_some_iff.mp filled
      rw [Json.field_object_cons_self, nothing]
      exact .once meaning
    · rw [elsewhere at_place same]
      exact each place other slot slot' at_place (by rwa [List.getElem?_set_ne (Ne.symm same)]) after

end Members

namespace Reader

variable {bytes front gap rest fuel : Bytes} {limit k : Nat} {read : Shape → Reader Datum}
  {kind : RecordKind} {isFirst : Bool} {key : String} {slots slots' : List (Option Datum)}

theorem nextKey_eq_ok_none :
    nextKey isFirst bytes = .ok none front ↔ Blank bytes front ∧ front.head? = some '\x7d'.toUInt8 := by
  rw [nextKey, nextMember_eq, bind_eq_ok]
  constructor
  · rintro ⟨more, middle, next, done⟩
    cases more with
    | false =>
        obtain ⟨-, rfl⟩ := pure_eq_ok.mp done
        exact nextItem_eq_ok_false.mp next
    | true =>
        rw [if_pos rfl, look_bind, ite_apply_eq] at done
        split at done
        · rw [advance_bind, bind_eq_ok] at done
          obtain ⟨_, _, _, done⟩ := done
          simp [pure_eq_ok] at done
        · simp at done
  · intro closing
    exact ⟨false, front, nextItem_eq_ok_false.mpr closing, rfl⟩

theorem nextKey_eq_ok_some :
    nextKey isFirst bytes = .ok (some key) gap ↔
      ∃ behind, Gap isFirst bytes ('"'.toUInt8 :: behind) ∧
        TextBytes behind (Utf8.encode key) gap := by
  rw [nextKey, nextMember_eq, bind_eq_ok]
  constructor
  · rintro ⟨more, middle, next, done⟩
    cases more with
    | false => simp [pure_eq_ok] at done
    | true =>
        rw [if_pos rfl, look_bind, ite_apply_eq] at done
        split at done
        case isTrue quote =>
            obtain ⟨behind, rfl⟩ := List.head?_eq_some_iff.mp quote
            rw [advance_bind, bind_eq_ok] at done
            obtain ⟨_, _, text, done⟩ := done
            rw [pure_eq_ok, Option.some_inj] at done
            obtain ⟨rfl, rfl⟩ := done
            exact ⟨behind, gap_of_nextItem next, text_eq_ok.mp text⟩
        case isFalse => simp at done
  · rintro ⟨behind, before, text⟩
    have next : nextItem .record isFirst bytes = .ok true ('"'.toUInt8 :: behind) :=
      nextItem_of_gap before (by decide) (by decide)
    refine ⟨true, _, next, ?_⟩
    rw [if_pos rfl, look_bind, List.head?_cons, if_pos rfl, advance_bind, bind_eq_ok]
    exact ⟨key, gap, text_eq_ok.mpr text, rfl⟩

/-- What is read behind a key: the value of an unknown field is skipped, and one of a known field fills a slot
that was empty. -/
inductive TakesMember (read : Shape → Reader Datum) (kind : RecordKind) (slots : List (Option Datum)) :
    String → List (Option Datum) → Bytes → Bytes → Prop
  | skip {key : String} {gap behind after : Bytes} :
      kind.fieldIndex? key = none → Blank gap (':'.toUInt8 :: behind) → skipValue behind = .ok () after →
      TakesMember read kind slots key slots gap after
  | fill {k : Nat} {field : Field} {datum : Datum} {gap behind after : Bytes} :
      kind.fields[k]? = some field → slots[k]? = some none → Blank gap (':'.toUInt8 :: behind) →
      readField read field behind = .ok datum after →
      TakesMember read kind slots field.key (slots.set k (some datum)) gap after

/-- One round of the members ends them or takes one. -/
theorem membersFrom_cons_eq_ok {f : UInt8} :
    membersFrom read kind (f :: fuel) isFirst slots bytes = .ok slots' front ↔
      nextKey isFirst bytes = .ok none front ∧ slots' = slots ∨
        ∃ key gap between after, nextKey isFirst bytes = .ok (some key) gap ∧
          TakesMember read kind slots key between gap after ∧
          membersFrom read kind fuel false between after = .ok slots' front := by
  rw [membersFrom, bind_eq_ok]
  constructor
  · rintro ⟨found, gap, next, done⟩
    rw [within_eq_ok] at next
    cases found with
    | none =>
        obtain ⟨rfl, rfl⟩ := pure_eq_ok.mp done
        exact .inl ⟨next, rfl⟩
    | some key =>
        refine .inr ⟨key, gap, ?_⟩
        cases place : kind.fieldIndex? key with
        | none =>
            simp only [place, bind_eq_ok, within_eq_ok] at done
            obtain ⟨_, behind, colon, _, after, skipped, done⟩ := done
            exact ⟨slots, after, next, .skip place (colon_eq_ok.mp colon) skipped, done⟩
        | some k =>
            obtain ⟨field, known, rfl⟩ := RecordKind.fieldIndex?_eq_some_iff.mp place
            simp only [place, known] at done
            rcases empty : slots[k]? with _ | _ | _
            · simp [empty] at done
            · simp only [empty, bind_eq_ok, within_eq_ok] at done
              obtain ⟨_, behind, colon, datum, after, held, done⟩ := done
              exact ⟨_, after, next, .fill known empty (colon_eq_ok.mp colon) held, done⟩
            · simp [empty] at done
  · rintro (⟨next, rfl⟩ | ⟨key, gap, between, after, next, takes, done⟩)
    · exact ⟨none, front, within_eq_ok.mpr next, rfl⟩
    · refine ⟨some key, gap, within_eq_ok.mpr next, ?_⟩
      cases takes with
      | skip unknown colon skipped =>
          simp only [unknown, bind_eq_ok, within_eq_ok]
          exact ⟨(), _, colon_eq_ok.mpr colon, (), after, skipped, done⟩
      | fill known empty colon held =>
          have place := RecordKind.fieldIndex?_eq_some_iff.mpr ⟨_, known, rfl⟩
          simp only [place, known, empty, bind_eq_ok, within_eq_ok]
          exact ⟨(), _, colon_eq_ok.mpr colon, _, after, held, done⟩

theorem fillsRecord_of_membersFrom (reads : Reads limit read)
    (sized : slots.length = kind.fields.length)
    (done : membersFrom read kind fuel isFirst slots bytes = .ok slots' front)
    (closes : Blank front ('\x7d'.toUInt8 :: rest)) :
    ∃ members, Series Member '\x7d' isFirst bytes members rest ∧
      (∀ member ∈ members, member.1.isSome) ∧ FillsRecord kind members slots slots' := by
  induction fuel generalizing bytes isFirst slots with
  | nil =>
      obtain ⟨rfl, rfl⟩ := pure_eq_ok.mp done
      exact ⟨[], .close closes, by simp, (fillsRecord_nil sized).mpr rfl⟩
  | cons f fuel ih =>
      rcases membersFrom_cons_eq_ok.mp done with ⟨next, rfl⟩ | ⟨key, gap, between, after, next, takes, done⟩
      · obtain ⟨blank, -⟩ := nextKey_eq_ok_none.mp next
        exact ⟨[], .close (blank.trans closes), by simp, (fillsRecord_nil sized).mpr rfl⟩
      · obtain ⟨behind, before, text⟩ := nextKey_eq_ok_some.mp next
        cases takes with
        | skip unknown colon skipped =>
            obtain ⟨front', json, blank, value⟩ := value_of_skipValue skipped
            obtain ⟨members, series, keys, fills⟩ := ih sized done
            have member : Member _ (some key, json) after := .pair (.value text) colon blank value
            exact ⟨(some key, json) :: members, .item before member series,
              List.forall_mem_cons.mpr ⟨rfl, keys⟩, (fillsRecord_unknown unknown).mpr fills⟩
        | @fill k field datum _ _ _ known empty colon held =>
            obtain ⟨front', json, blank, value, meaning⟩ := meaning_of_readField reads held
            obtain ⟨members, series, keys, fills⟩ := ih (List.length_set.trans sized) done
            have member : Member _ (some field.key, json) after := .pair (.value text) colon blank value
            exact ⟨(some field.key, json) :: members, .item before member series,
              List.forall_mem_cons.mpr ⟨rfl, keys⟩,
              (fillsRecord_known known sized).mpr ⟨empty, datum, meaning, fills⟩⟩

/-- A member of an object is taken just if it can fill its slot, and leaves the others theirs. -/
theorem takesMember_of_member (reads : Reads limit read) {member : Option String × Json}
    {members : List (Option String × Json)} (sized : slots.length = kind.fields.length)
    (before : Gap isFirst bytes front) (spelled : Member front member rest) (named : member.1.isSome)
    (fills : FillsRecord kind (member :: members) slots slots') (follows : Follows rest)
    (within : bytes.length ≤ limit) :
    ∃ key behind between, nextKey isFirst bytes = .ok (some key) behind ∧
      TakesMember read kind slots key between behind rest ∧ between.length = kind.fields.length ∧
      FillsRecord kind members between slots' := by
  have first := before.length_le
  cases spelled with
  | @pair behind gap _ front _ name json text colon blank value =>
      cases text with
      | meaningless => cases named
      | @value _ key text =>
          have next := nextKey_eq_ok_some.mpr ⟨_, before, text⟩
          have progress := text.length_lt
          have small := colon.length_le
          have smaller := blank.length_le
          simp only [List.length_cons] at first small
          cases place : kind.fieldIndex? key with
          | none =>
              have skipped := skipValue_of_value blank value follows
              exact ⟨key, gap, slots, next, .skip place colon skipped, sized,
                (fillsRecord_unknown place).mp fills⟩
          | some k =>
              obtain ⟨field, known, rfl⟩ := RecordKind.fieldIndex?_eq_some_iff.mp place
              obtain ⟨empty, datum, meaning, fills⟩ := (fillsRecord_known known sized).mp fills
              have held := readField_of_meaning reads blank value meaning follows (by omega)
              exact ⟨field.key, gap, _, next, .fill known empty colon held, List.length_set.trans sized, fills⟩

theorem membersFrom_of_fillsRecord (reads : Reads limit read) {members : List (Option String × Json)}
    (sized : slots.length = kind.fields.length)
    (series : Series Member '\x7d' isFirst bytes members rest)
    (keys : ∀ member ∈ members, member.1.isSome) (fills : FillsRecord kind members slots slots')
    (within : bytes.length ≤ limit) (enough : bytes.length < fuel.length) :
    ∃ front, membersFrom read kind fuel isFirst slots bytes = .ok slots' front ∧
      Blank front ('\x7d'.toUInt8 :: rest) := by
  induction fuel generalizing bytes isFirst members slots with
  | nil => exact absurd enough (Nat.not_lt_zero _)
  | cons f fuel ih =>
      rw [List.length_cons] at enough
      cases series with
      | close blank =>
          obtain rfl := (fillsRecord_nil sized).mp fills
          have next : nextKey isFirst bytes = .ok none ('\x7d'.toUInt8 :: rest) :=
            nextKey_eq_ok_none.mpr ⟨blank, rfl⟩
          exact ⟨_, membersFrom_cons_eq_ok.mpr (.inl ⟨next, rfl⟩), .none⟩
      | item before member series =>
          have shorter := member.length_lt
          have first := before.length_le
          obtain ⟨named, others⟩ := List.forall_mem_cons.mp keys
          obtain ⟨key, gap, between, next, takes, sized, fills⟩ :=
            takesMember_of_member reads sized before member named fills (series.follows (by decide)) within
          obtain ⟨left, done, closes⟩ := ih sized series others fills (by omega) (by omega)
          exact ⟨left, membersFrom_cons_eq_ok.mpr (.inr ⟨key, gap, between, _, next, takes, done⟩), closes⟩

variable {values : List Datum}

theorem series_of_members (reads : Reads limit read)
    (done : closedBy (members read kind) closeRecord bytes = .ok values rest) :
    ∃ members, Series Member '\x7d' true bytes members rest ∧
      Says (.record kind) (.object members) (.record kind values) := by
  obtain ⟨middle, done, closes⟩ := closedBy_eq_ok.mp done
  rw [members, bind_eq_ok] at done
  obtain ⟨slots, front, done, filled⟩ := done
  obtain rfl := eq_of_fill filled
  obtain ⟨members, series, keys, fills⟩ :=
    fillsRecord_of_membersFrom reads (List.length_map _) done (closeRecord_eq_ok.mp closes)
  exact ⟨members, series, says_record_iff.mpr ⟨keys, saysFields_of_fill fills filled⟩⟩

theorem members_of_series (reads : Reads limit read) {written : List (Option String × Json)}
    (series : Series Member '\x7d' true bytes written rest)
    (meaning : Says (.record kind) (.object written) (.record kind values)) (within : bytes.length ≤ limit) :
    closedBy (members read kind) closeRecord bytes = .ok values rest := by
  obtain ⟨keys, meaning⟩ := says_record_iff.mp meaning
  have enough : bytes.length < (0 :: bytes : Bytes).length := Nat.lt_succ_self _
  obtain ⟨slots, fills, filled⟩ := fill_of_saysFields meaning
  obtain ⟨middle, done, closes⟩ :=
    membersFrom_of_fillsRecord reads (List.length_map _) series keys fills within enough
  refine closedBy_eq_ok.mpr ⟨middle, ?_, closeRecord_eq_ok.mpr closes⟩
  rw [members, bind_eq_ok]
  exact ⟨slots, middle, done, filled middle⟩

end Reader

end TraceReplay.Interchange
