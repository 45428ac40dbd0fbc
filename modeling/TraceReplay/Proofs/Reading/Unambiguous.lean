import TraceReplay.Proofs.Reading.Ignored

/-!
A document has one value. Where a value ends is where skipping it ends, and up to there the spelling can be
split in one way only: each kind of value has its own first byte, and what stands between two values is read
in one way. The proof goes by the size of the value.
-/
namespace TraceReplay.Interchange.Grammar

open Reader

variable {bytes front rest rest' : Bytes} {json json' : Json}

section Kinds

/-- What the first byte of a value tells of it. -/
inductive Kind
  | null
  | flag (value : Bool)
  | number
  | text
  | list
  | object

def kind : Json → Kind
  | .null => .null
  | .flag value => .flag value
  | .number _ => .number
  | .text _ => .text
  | .list _ => .list
  | .object _ => .object

/-- The first byte, where all that begin a number count as a zero. -/
def Kind.opening : Kind → UInt8
  | .null => 'n'.toUInt8
  | .flag true => 't'.toUInt8
  | .flag false => 'f'.toUInt8
  | .number => '0'.toUInt8
  | .text => '"'.toUInt8
  | .list => '['.toUInt8
  | .object => '\x7b'.toUInt8

def openingOf (b : UInt8) : UInt8 := if b = '-'.toUInt8 ∨ isDigit b then '0'.toUInt8 else b

theorem Kind.opening_injective {kind kind' : Kind} (same : kind.opening = kind'.opening) : kind = kind' := by
  rcases kind with _ | (_ | _) | _ <;> rcases kind' with _ | (_ | _) | _ <;>
    first | rfl | exact absurd same (by decide)

theorem Value.opening_eq (value : Value bytes json rest) :
    bytes.head?.map openingOf = some (kind json).opening := by
  cases value with
  | number number =>
      obtain ⟨b, behind, rfl, first⟩ := number.begins
      exact congrArg some (if_pos (first.imp_right isDigit_iff.mpr))
  | null | true | false | text | list | object => rfl

/-- The first byte tells the kind of a value. -/
theorem Value.kind_eq (value : Value bytes json rest) (value' : Value bytes json' rest') :
    kind json = kind json' :=
  Kind.opening_injective (Option.some.inj (value.opening_eq.symm.trans value'.opening_eq))

theorem value_number_iff {literal : Bytes} :
    Value bytes (.number literal) rest ↔ IsNumber literal ∧ bytes = literal ++ rest := by
  constructor
  · intro value
    cases value with
    | number number => exact ⟨number, rfl⟩
  · rintro ⟨number, rfl⟩
    exact .number number

theorem value_text_iff {value : Option String} :
    Value bytes (.text value) rest ↔ ∃ behind, bytes = '"'.toUInt8 :: behind ∧ Text behind value rest := by
  constructor
  · intro value
    cases value with
    | text text => exact ⟨_, rfl, text⟩
  · rintro ⟨behind, rfl, text⟩
    exact .text text

theorem value_list_iff {items : List Json} :
    Value bytes (.list items) rest ↔
      ∃ behind, bytes = '['.toUInt8 :: behind ∧ Series Value ']' true behind items rest := by
  constructor
  · intro value
    cases value with
    | list series => exact ⟨_, rfl, series⟩
  · rintro ⟨behind, rfl, series⟩
    exact .list series

theorem value_object_iff {members : List (Option String × Json)} :
    Value bytes (.object members) rest ↔
      ∃ behind, bytes = '\x7b'.toUInt8 :: behind ∧ Series Member '\x7d' true behind members rest := by
  constructor
  · intro value
    cases value with
    | object series => exact ⟨_, rfl, series⟩
  · rintro ⟨behind, rfl, series⟩
    exact .object series

end Kinds

theorem Value.rest_eq (value : Value bytes json rest) (value' : Value bytes json' rest')
    (follows : Follows rest) (follows' : Follows rest') : rest = rest' := by
  have skipped := skipValue_of_value .none value follows
  rw [skipValue_of_value .none value' follows'] at skipped
  cases skipped
  rfl

theorem Text.eq {value value' : Option String} (text : Text bytes value rest)
    (text' : Text bytes value' rest') : value = value' ∧ rest = rest' := by
  obtain rfl : rest = rest' := by
    have skipped := skipText_eq_ok_iff (u := ()).mpr ⟨_, text⟩
    rw [skipText_eq_ok_iff.mpr ⟨_, text'⟩] at skipped
    cases skipped
    rfl
  refine ⟨?_, rfl⟩
  cases text with
  | value text =>
      cases text' with
      | value text' =>
          have read := text_eq_ok.mpr text
          rw [text_eq_ok.mpr text'] at read
          cases read
          rfl
      | meaningless _ none => exact absurd text (none _)
  | meaningless _ none =>
      cases text' with
      | value text' => exact absurd text' (none _)
      | meaningless => rfl

theorem Blank.eq {front' : Bytes} (blank : Blank bytes front) (blank' : Blank bytes front')
    (stops : Stops isBlank front) (stops' : Stops isBlank front') : front = front' := by
  have looked := lookPastBlanks_eq_ok.mpr ⟨blank, stops, rfl⟩
  rw [lookPastBlanks_eq_ok.mpr ⟨blank', stops', rfl⟩] at looked
  injection looked with _ same
  exact same.symm

theorem Member.eq {member member' : Option String × Json} (spelled : Member bytes member rest)
    (spelled' : Member bytes member' rest') (follows : Follows rest) (follows' : Follows rest')
    (inside : ∀ {front}, Value front member.2 rest → Value front member'.2 rest' → member.2 = member'.2) :
    member = member' ∧ rest = rest' := by
  cases spelled with
  | pair text colon blank value =>
      cases spelled' with
      | pair text' colon' blank' value' =>
          obtain ⟨rfl, rfl⟩ := text.eq text'
          have notBlank : isBlank ':'.toUInt8 = false := by decide
          cases colon.eq colon' (stops_cons notBlank) (stops_cons notBlank)
          obtain ⟨b, behind, rfl, begins⟩ := value.begins
          obtain ⟨b', behind', rfl, begins'⟩ := value'.begins
          cases blank.eq blank' (stops_cons begins.not_blank) (stops_cons begins'.not_blank)
          exact ⟨congrArg _ (inside value value'), value.rest_eq value' follows follows'⟩

section Series

variable {α : Type} {Item : Bytes → α → Bytes → Prop} {isFirst : Bool} {xs xs' : List α}

/-- Items are found in one way, and each is followed by one way to go on. -/
theorem Series.eq (bracket : Bracket) (series : Series Item bracket.closing isFirst bytes xs rest)
    (series' : Series Item bracket.closing isFirst bytes xs' rest')
    (begins : ∀ {front x after}, Item front x after → ∃ b behind, front = b :: behind ∧ Begins b)
    (each : ∀ x ∈ xs, ∀ {front x' after after'}, Item front x after → Item front x' after' →
      Follows after → Follows after' → x = x' ∧ after = after') : xs = xs' := by
  have isClosing : bracket.closing ∈ [']', '\x7d'] := by cases bracket <;> decide
  induction series generalizing xs' with
  | close blank =>
      cases series' with
      | close => rfl
      | item gap item =>
          obtain ⟨b, behind, rfl, starts⟩ := begins item
          have next := nextItem_of_gap gap starts.not_blank (starts.ne_closing bracket)
          rw [nextItem_eq_ok_false.mpr ⟨blank, rfl⟩] at next
          cases next
  | item gap item others ih =>
      obtain ⟨b, behind, rfl, starts⟩ := begins item
      have next := nextItem_of_gap gap starts.not_blank (starts.ne_closing bracket)
      cases series' with
      | close blank =>
          rw [nextItem_eq_ok_false.mpr ⟨blank, rfl⟩] at next
          cases next
      | item gap' item' others' =>
          obtain ⟨b', behind', rfl, starts'⟩ := begins item'
          rw [nextItem_of_gap gap' starts'.not_blank (starts'.ne_closing _)] at next
          cases next
          obtain ⟨here, later⟩ := List.forall_mem_cons.mp each
          obtain ⟨rfl, rfl⟩ := here item item' (others.follows isClosing) (others'.follows isClosing)
          rw [ih others' later]

end Series

/-- By recursion on the value. Only a number could end at several places, and `Follows` leaves it one. -/
theorem Value.eq (value : Value bytes json rest) (value' : Value bytes json' rest')
    (follows : Follows rest) (follows' : Follows rest') : json = json' := by
  induction size : sizeOf json using Nat.strongRecOn generalizing json json' bytes rest rest' with
  | ind n ih =>
      subst size
      obtain rfl := value.rest_eq value' follows follows'
      have same := value.kind_eq value'
      cases json with
      | null =>
          cases json' with
          | null => rfl
          | _ => cases same
      | flag =>
          cases json' with
          | flag =>
              cases same
              rfl
          | _ => cases same
      | number literal =>
          cases json' with
          | number literal' =>
              obtain ⟨-, spelled⟩ := value_number_iff.mp value
              obtain ⟨-, spelled'⟩ := value_number_iff.mp value'
              rw [List.append_cancel_right (spelled.symm.trans spelled')]
          | _ => cases same
      | text =>
          cases json' with
          | text =>
              obtain ⟨behind, rfl, text⟩ := value_text_iff.mp value
              obtain ⟨_, ⟨⟩, text'⟩ := value_text_iff.mp value'
              rw [(text.eq text').1]
          | _ => cases same
      | list items =>
          cases json' with
          | list items' =>
              obtain ⟨behind, rfl, series⟩ := value_list_iff.mp value
              obtain ⟨_, ⟨⟩, series'⟩ := value_list_iff.mp value'
              refine congrArg Json.list (Series.eq .list series series' Value.begins ?_)
              intro item mem front item' after after' value value' follows follows'
              have smaller := Json.sizeOf_lt_of_mem_list mem
              exact ⟨ih _ smaller value value' follows follows' rfl, value.rest_eq value' follows follows'⟩
          | _ => cases same
      | object members =>
          cases json' with
          | object members' =>
              obtain ⟨behind, rfl, series⟩ := value_object_iff.mp value
              obtain ⟨_, ⟨⟩, series'⟩ := value_object_iff.mp value'
              refine congrArg Json.object (Series.eq .record series series' Member.begins ?_)
              intro (key, value) mem front member' after after' spelled spelled' follows follows'
              have smaller := Json.sizeOf_lt_of_mem_object mem
              exact spelled.eq spelled' follows follows' fun value value' =>
                ih _ smaller value value' follows follows' rfl
          | _ => cases same

/-- The bytes of a document have one value. -/
theorem Document.eq (document : Document bytes json) (document' : Document bytes json') : json = json' := by
  obtain ⟨front, rest, before, value, after⟩ := document
  obtain ⟨front', rest', before', value', after'⟩ := document'
  obtain ⟨b, behind, rfl, begins⟩ := value.begins
  obtain ⟨b', behind', rfl, begins'⟩ := value'.begins
  cases before.eq before' (stops_cons begins.not_blank) (stops_cons begins'.not_blank)
  exact value.eq value' (after.follows nofun) (after'.follows nofun)

end TraceReplay.Interchange.Grammar
