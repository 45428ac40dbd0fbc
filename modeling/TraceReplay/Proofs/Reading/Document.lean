import TraceReplay.Proofs.Reading.Members

/-!
Reading a whole document gives what its one value says, whatever its spelling, and fails on all others.
-/
namespace TraceReplay.Interchange

open Grammar

namespace Reader

variable {bytes rest fuel : Bytes} {b : UInt8} {limit : Nat} {shape item : Shape} {kind : RecordKind}
  {json : Json} {datum : Datum} {read : Shape → Reader Datum}

section Sound

theorem meaning_of_readText (done : readText b (b :: bytes) = .ok datum rest) :
    ∃ json, Value (b :: bytes) json rest ∧ Says .text json datum := by
  rw [readText, ite_apply_eq] at done
  split at done
  case isTrue quote =>
      rw [advance_bind, bind_eq_ok] at done
      obtain ⟨value, _, text, done⟩ := done
      obtain ⟨rfl, rfl⟩ := pure_eq_ok.mp done
      exact ⟨.text (some value), quote ▸ .text (.value (text_eq_ok.mp text)), .text⟩
  case isFalse => exact absurd done mismatch_ne_ok

theorem meaning_of_readFlag (done : readFlag b (b :: bytes) = .ok datum rest) :
    ∃ json, Value (b :: bytes) json rest ∧ Says .flag json datum := by
  rw [readFlag, ite_apply_eq] at done
  split at done
  case isTrue first =>
      rw [advance_bind, bind_eq_ok] at done
      obtain ⟨_, _, letters, done⟩ := done
      obtain ⟨rfl, rfl⟩ := pure_eq_ok.mp done
      exact ⟨.flag true, first ▸ (word_eq_ok.mp letters : bytes = _) ▸ .true, .flag⟩
  rw [ite_apply_eq] at done
  split at done
  case isTrue first =>
      rw [advance_bind, bind_eq_ok] at done
      obtain ⟨_, _, letters, done⟩ := done
      obtain ⟨rfl, rfl⟩ := pure_eq_ok.mp done
      exact ⟨.flag false, first ▸ (word_eq_ok.mp letters : bytes = _) ▸ .false, .flag⟩
  case isFalse => exact absurd done mismatch_ne_ok

theorem meaning_of_readNumber (meaning : ∀ {n}, n < shape.limit → Says shape (.number (wholeLiteral n)) (.number n))
    (done : readNumber shape b bytes = .ok datum rest) :
    ∃ json, Value bytes json rest ∧ Says shape json datum := by
  obtain ⟨n, inShape, rfl, rfl, -⟩ := literal_of_readNumber done
  exact ⟨_, .number (isNumber_wholeLiteral n), meaning inShape⟩

theorem meaning_of_readList (reads : Reads limit read)
    (done : readList (read item) item b (b :: bytes) = .ok datum rest) :
    ∃ json, Value (b :: bytes) json rest ∧ Says (.list item) json datum := by
  rw [readList, ite_apply_eq] at done
  split at done
  case isTrue bracket =>
      rw [advance_bind, bind_eq_ok] at done
      obtain ⟨data, _, inside, done⟩ := done
      obtain ⟨rfl, rfl⟩ := pure_eq_ok.mp done
      obtain ⟨items, series, meaning⟩ := series_of_elements reads inside
      exact ⟨.list items, bracket ▸ .list series, .list meaning⟩
  case isFalse => exact absurd done mismatch_ne_ok

theorem meaning_of_readRecord (reads : Reads limit read)
    (done : readRecord read kind b (b :: bytes) = .ok datum rest) :
    ∃ json, Value (b :: bytes) json rest ∧ Says (.record kind) json datum := by
  rw [readRecord, ite_apply_eq] at done
  split at done
  case isTrue bracket =>
      rw [advance_bind, bind_eq_ok] at done
      obtain ⟨values, _, inside, done⟩ := done
      obtain ⟨rfl, rfl⟩ := pure_eq_ok.mp done
      obtain ⟨members, series, meaning⟩ := series_of_members reads inside
      exact ⟨.object members, bracket ▸ .object series, meaning⟩
  rw [ite_apply_eq] at done
  split at done
  case isTrue bracket =>
      rw [advance_bind, bind_eq_ok] at done
      obtain ⟨values, _, inside, done⟩ := done
      obtain ⟨rfl, rfl⟩ := pure_eq_ok.mp done
      obtain ⟨items, series, meaning⟩ := series_of_positional reads inside
      exact ⟨.list items, bracket ▸ .list series, meaning⟩
  case isFalse => exact absurd done mismatch_ne_ok

end Sound

section Complete

variable (value : Value bytes json rest) (head : bytes.head? = some b)

include value head

theorem readText_of_meaning (meaning : Says .text json datum) : readText b bytes = .ok datum rest := by
  cases meaning with
  | text =>
      cases value with
      | text text =>
          cases head
          cases text with
          | value text =>
              rw [readText, if_pos rfl, advance_bind, bind_eq_ok]
              exact ⟨_, _, text_eq_ok.mpr text, rfl⟩

theorem readFlag_of_meaning (meaning : Says .flag json datum) : readFlag b bytes = .ok datum rest := by
  cases meaning with
  | flag => cases value <;> cases head <;> rfl

theorem readNumber_of_meaning {n : Nat} (inShape : n < shape.limit) (follows : Follows rest)
    (literal : json = .number (wholeLiteral n)) : readNumber shape b bytes = .ok (.number n) rest := by
  subst literal
  cases value with
  | number => exact readNumber_wholeLiteral inShape follows head

theorem readList_of_meaning (reads : Reads limit read) (meaning : Says (.list item) json datum)
    (within : bytes.length ≤ limit + 1) : readList (read item) item b bytes = .ok datum rest := by
  cases meaning with
  | list meaning =>
      cases value with
      | list series =>
          cases head
          rw [readList, if_pos rfl, advance_bind, bind_eq_ok]
          exact ⟨_, _, elements_of_series reads series meaning (Nat.le_of_succ_le_succ within), rfl⟩

theorem readRecord_of_meaning (reads : Reads limit read) (meaning : Says (.record kind) json datum)
    (within : bytes.length ≤ limit + 1) : readRecord read kind b bytes = .ok datum rest := by
  obtain ⟨values, rfl⟩ : ∃ values, datum = .record kind values := by
    cases meaning
    exact ⟨_, rfl⟩
  cases value with
  | list series =>
      cases head
      rw [readRecord, if_neg (by decide), if_pos rfl, advance_bind, bind_eq_ok]
      exact ⟨_, _, positional_of_series reads series meaning (Nat.le_of_succ_le_succ within), rfl⟩
  | object series =>
      cases head
      rw [readRecord, if_pos rfl, advance_bind, bind_eq_ok]
      exact ⟨_, _, members_of_series reads series meaning (Nat.le_of_succ_le_succ within), rfl⟩
  | _ => exact absurd (says_record_iff.mp meaning).1 id

end Complete

/-- Values are shorter than what stands around them, so a byte of fuel goes with each level. -/
theorem reads_valueFrom (fuel : Bytes) : Reads fuel.length (valueFrom fuel) := by
  induction fuel with
  | nil =>
      constructor
      · intro shape bytes rest datum done
        simp [valueFrom] at done
      · intro shape bytes front rest json datum blank value meaning follows short
        have := value.length_lt
        rw [List.length_nil] at short
        omega
  | cons f fuel ih =>
      constructor
      · intro shape bytes rest datum done
        rw [valueFrom, bind_eq_ok] at done
        obtain ⟨b, front, looked, done⟩ := done
        obtain ⟨blank, -, head⟩ := lookAtValue_eq_ok.mp looked
        obtain ⟨behind, rfl⟩ := List.head?_eq_some_iff.mp head
        refine ⟨_, Exists.imp (fun _ => And.intro blank) ?_⟩
        cases shape with
        | text => exact meaning_of_readText done
        | flag => exact meaning_of_readFlag done
        | offset => exact meaning_of_readNumber .offset done
        | count => exact meaning_of_readNumber .count done
        | list item => exact meaning_of_readList ih done
        | record kind => exact meaning_of_readRecord ih done
      · intro shape bytes front rest json datum blank value meaning follows short
        obtain ⟨b, behind, rfl, begins⟩ := value.begins
        rw [valueFrom, bind_eq_ok]
        refine ⟨b, _, lookAtValue_eq_ok.mpr ⟨blank, stops_cons begins.not_blank, rfl⟩, ?_⟩
        cases shape with
        | text => exact readText_of_meaning value rfl meaning
        | flag => exact readFlag_of_meaning value rfl meaning
        | offset =>
            cases meaning with
            | offset inShape => exact readNumber_of_meaning value rfl inShape follows rfl
        | count =>
            cases meaning with
            | count inShape => exact readNumber_of_meaning value rfl inShape follows rfl
        | list item => exact readList_of_meaning value rfl ih meaning short
        | record kind => exact readRecord_of_meaning value rfl ih meaning short

/-- A document is read to its end, and what it says is given. -/
theorem document_eq_ok :
    document shape bytes = .ok datum rest ↔
      rest = [] ∧ ∃ json, Document bytes json ∧ Says shape json datum := by
  have reads := reads_valueFrom (0 :: bytes)
  rw [document, bind_eq_ok]
  constructor
  · rintro ⟨datum, behind, done, finished⟩
    obtain ⟨_, after, ended, finished⟩ := bind_eq_ok.mp finished
    obtain ⟨rfl, rfl⟩ := pure_eq_ok.mp finished
    obtain ⟨blank, rfl⟩ := finish_eq_ok.mp ended
    obtain ⟨front, json, before, value, meaning⟩ := reads.sound done
    exact ⟨rfl, json, ⟨front, behind, before, value, blank⟩, meaning⟩
  · rintro ⟨rfl, json, ⟨front, behind, before, value, blank⟩, meaning⟩
    refine ⟨datum, behind, ?_, bind_eq_ok.mpr ⟨(), [], finish_eq_ok.mpr ⟨blank, rfl⟩, rfl⟩⟩
    exact reads.complete before value meaning (blank.follows nofun) (Nat.le_succ_of_le before.length_le)

end Reader

/-- A document is read for what it says. -/
theorem decode_eq_ok {bytes : Bytes} {datum : Datum} :
    decode bytes = .ok datum ↔ ∃ json, Document bytes json ∧ Says (.record .trace) json datum := by
  rw [decode]
  constructor
  · intro done
    cases read : Reader.document (.record .trace) bytes with
    | ok found rest =>
        simp only [read, Except.ok.injEq] at done
        subst done
        exact (Reader.document_eq_ok.mp read).2
    | error => simp [read] at done
  · intro meaning
    rw [Reader.document_eq_ok.mpr ⟨rfl, meaning⟩]

end TraceReplay.Interchange
