import TraceReplay.Proofs.Interchange.Fits
import TraceReplay.Proofs.Interchange.Text
import TraceReplay.Proofs.Reading.Document

/-!
What is written is a document, in either layout. Its value is the one of the data that was written, so
whatever fits the shape of a trace is read back from it. The proofs follow the nesting of the writer.
-/
namespace TraceReplay.Interchange

open Utf8 Grammar

section Layout

variable (layout : Layout) (level : Nat) (rest : List Char)

theorem blank_cons {c : Char} {bytes : Bytes} {cs : List Char} (isBlank : c ∈ [' ', '\t', '\n', '\r'])
    (blank : Blank (ofChars cs) bytes) : Blank (ofChars (c :: cs)) bytes := by
  have ascii : ∀ c ∈ [' ', '\t', '\n', '\r'], c.toNat < 0x80 := by simp
  rw [ofChars_cons_ascii (ascii c isBlank)]
  exact .more isBlank blank

theorem blank_lineBreak : Blank (ofChars (layout.lineBreak level ++ rest)) (ofChars rest) := by
  cases layout with
  | compact => exact .none
  | pretty =>
      have indent (n : Nat) : Blank (ofChars (List.replicate n ' ' ++ rest)) (ofChars rest) := by
        induction n with
        | zero => exact .none
        | succ n ih => exact blank_cons (by decide) ih
      exact blank_cons (by decide) (indent (2 * level))

/-- The first item has no comma before it. -/
theorem gap_before (index : Nat) :
    Gap (index == 0) (ofChars (layout.before level index ++ rest)) (ofChars rest) := by
  have blank := blank_lineBreak layout (level + 1) rest
  cases index with
  | zero => exact .first blank
  | succ index => exact .comma .none blank

theorem blank_colon : ∃ behind, ofChars (layout.colon ++ rest) = ':'.toUInt8 :: behind ∧
    Blank behind (ofChars rest) := by
  cases layout with
  | compact => exact ⟨_, rfl, .none⟩
  | pretty => exact ⟨_, rfl, blank_cons (by decide) .none⟩

end Layout

theorem ofChars_toDigits (n : Nat) (rest : List Char) :
    ofChars (Nat.toDigits 10 n ++ rest) = wholeLiteral n ++ ofChars rest := by
  have ascii : ∀ c ∈ Nat.toDigits 10 n, String.utf8EncodeChar c = [c.toUInt8] := by
    intro c mem
    have digit := Nat.isDigit_of_mem_toDigits (by decide) (by decide) mem
    rw [Char.isDigit_iff_toNat] at digit
    exact utf8EncodeChar_ascii (Nat.lt_of_le_of_lt digit.2 (by decide))
  rw [ofChars_append, ofChars, List.flatMap_congr ascii, ← List.map_eq_flatMap, wholeLiteral, letters]

section Writing

variable (layout : Layout)

theorem member_write (key : String) {cs rest : List Char} {json : Json}
    (value : Value (ofChars cs) json (ofChars rest)) :
    Member (ofChars (writeText key (layout.colon ++ cs))) (some key, json) (ofChars rest) := by
  obtain ⟨behind, colon, blank⟩ := blank_colon layout cs
  have text := text_flatMap_textChar key (layout.colon ++ cs)
  rw [colon] at text
  exact .pair text .none blank value

mutual

/-- What is written for a datum spells its value, in front of anything. -/
theorem value_write (level : Nat) (rest : List Char) : (datum : Datum) →
    Value (ofChars (datum.write layout level rest)) datum.json (ofChars rest)
  | .absent => .null
  | .text text => .text (text_flatMap_textChar text rest)
  | .flag true => .true
  | .flag false => .false
  | .number n => by
      rw [Datum.write, ofChars_toDigits]
      exact .number (Reader.isNumber_wholeLiteral n)
  | .list [] => .list (.close .none)
  | .list (item :: items) => .list (series_writeItems level 0 rest (item :: items))
  | .record kind values => .object (series_writeMembers level 0 rest kind.fields values)

theorem series_writeItems (level index : Nat) (rest : List Char) : (items : List Datum) →
    Series Value ']' (index == 0)
      (ofChars (writeItems layout level index (layout.lineBreak level ++ ']' :: rest) items))
      (itemsJson items) (ofChars rest)
  | [] => .close (blank_lineBreak layout level (']' :: rest))
  | item :: items =>
      .item (gap_before layout level _ index) (value_write (level + 1) _ item)
        (series_writeItems level (index + 1) rest items)

theorem series_writeMembers (level index : Nat) (rest : List Char) :
    (fields : List Field) → (values : List Datum) →
      Series Member '\x7d' (index == 0)
        (ofChars (writeMembers layout level index (layout.lineBreak level ++ '\x7d' :: rest) fields
          values))
        (membersJson fields values) (ofChars rest)
  | [], [] | [], _ :: _ | _ :: _, [] => .close (blank_lineBreak layout level ('\x7d' :: rest))
  | field :: fields, value :: values =>
      .item (gap_before layout level _ index)
        (member_write layout field.key (value_write (level + 1) _ value))
        (series_writeMembers level (index + 1) rest fields values)

end

/-- A document that is written has the value of its datum, in either layout. -/
theorem document_write (datum : Datum) : Document (ofChars (datum.write layout 0 [])) datum.json :=
  ⟨_, [], .none, value_write layout 0 [] datum, .none⟩

end Writing

/-- Decoding undoes writing. -/
theorem decode_write (layout : Layout) {datum : Datum} (fits : Fits (.record .trace) datum) :
    decode (Utf8.encode (String.ofList (datum.write layout 0 []))) = .ok datum := by
  rw [encode_ofList]
  exact decode_eq_ok.mpr ⟨datum.json, document_write layout datum, says_json datum fits⟩

end TraceReplay.Interchange
