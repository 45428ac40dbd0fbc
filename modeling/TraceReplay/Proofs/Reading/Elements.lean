import TraceReplay.Proofs.Reading.Ignored
import TraceReplay.Proofs.Reading.Meaning
import TraceReplay.Proofs.Reading.Whole

/-!
Lists, and records that are written as lists, relative to a reader of the values inside. A list ends before
its closing bracket, so what is known of the rest is that this bracket comes next.
-/
namespace TraceReplay.Interchange

open Grammar

theorem Says.ne_null {shape : Shape} {json : Json} {datum : Datum} (meaning : Says shape json datum) :
    json ≠ .null := by
  rintro rfl
  cases meaning with
  | record isRecord => exact isRecord

namespace Reader

variable {bytes front rest fuel : Bytes} {limit : Nat} {read : Shape → Reader Datum}

/-- A reader of values reads what they say, as far as they have no more bytes than a limit. -/
structure Reads (limit : Nat) (read : Shape → Reader Datum) : Prop where
  sound {shape : Shape} {bytes rest : Bytes} {datum : Datum} :
    read shape bytes = .ok datum rest →
      ∃ front json, Blank bytes front ∧ Value front json rest ∧ Says shape json datum
  complete {shape : Shape} {bytes front rest : Bytes} {json : Json} {datum : Datum} :
    Blank bytes front → Value front json rest → Says shape json datum → Follows rest →
      front.length ≤ limit → read shape bytes = .ok datum rest

/-- Only a null begins as one. -/
theorem eq_null_of_begins {json : Json} (value : Value bytes json rest)
    (head : bytes.head? = some 'n'.toUInt8) : json = .null := by
  cases value with
  | null => rfl
  | number number =>
      obtain ⟨b, behind, rfl, first⟩ := number.begins
      cases head
      rcases first with minus | digit
      · exact absurd minus (by decide)
      · exact absurd (isDigit_iff.mpr digit) (by decide)
  | _ => exact absurd (Option.some.inj head) (by decide)

section Field

variable {field : Field} {datum : Datum}

theorem meaning_of_readField (reads : Reads limit read) (done : readField read field bytes = .ok datum rest) :
    ∃ front json, Blank bytes front ∧ Value front json rest ∧ SaysField field [json] datum := by
  rw [readField, ite_apply_eq] at done
  split at done
  case isTrue =>
      obtain ⟨front, json, blank, value, meaning⟩ := reads.sound done
      exact ⟨front, json, blank, value, .value meaning⟩
  case isFalse optional =>
      rw [lookPastBlanks_bind] at done
      obtain ⟨front, blank, _, done⟩ := done
      rw [ite_apply_eq] at done
      split at done
      case isTrue head =>
          obtain ⟨behind, rfl⟩ := List.head?_eq_some_iff.mp head
          simp only [advance_bind, List.tail_cons, bind_eq_ok, word_eq_ok, pure_eq_ok] at done
          obtain ⟨_, _, rfl, rfl, rfl⟩ := done
          exact ⟨_, .null, blank, .null, .null (Bool.eq_false_iff.mpr optional)⟩
      case isFalse =>
          obtain ⟨front', json, blank', value, meaning⟩ := reads.sound done
          exact ⟨front', json, blank.trans blank', value, .value meaning⟩

theorem readField_of_meaning (reads : Reads limit read) {json : Json} (blank : Blank bytes front)
    (value : Value front json rest) (meaning : SaysField field [json] datum) (follows : Follows rest)
    (short : front.length ≤ limit) : readField read field bytes = .ok datum rest := by
  obtain ⟨b, behind, rfl, begins⟩ := value.begins
  rw [readField]
  cases meaning with
  | null optional =>
      generalize spelled : b :: behind = front at value
      cases value with
      | null =>
          cases spelled
          rw [optional, if_neg (by decide), lookPastBlanks_bind]
          exact ⟨_, blank, stops_cons begins.not_blank, rfl⟩
  | value meaning =>
      rw [ite_apply_eq]
      split
      case isTrue => exact reads.complete blank value meaning follows short
      case isFalse =>
          rw [lookPastBlanks_bind]
          refine ⟨_, blank, stops_cons begins.not_blank, ?_⟩
          have other : (b :: behind).head? ≠ some 'n'.toUInt8 := fun head =>
            meaning.ne_null (eq_null_of_begins value head)
          rw [if_neg other]
          exact reads.complete .none value meaning follows short

end Field

section List

variable {item : Shape} {items : List Json} {data : List Datum} {k : Nat}

theorem saysAll_of_elementsFrom (reads : Reads limit read)
    (done : elementsFrom (read item) fuel k bytes = .ok data front)
    (closes : Blank front (']'.toUInt8 :: rest)) :
    ∃ items, Series Value ']' (k == 0) bytes items rest ∧ SaysAll item items data := by
  induction fuel generalizing bytes k data with
  | nil =>
      obtain ⟨rfl, rfl⟩ := pure_eq_ok.mp done
      exact ⟨[], .close closes, .nil⟩
  | cons f fuel ih =>
      rw [elementsFrom, bind_eq_ok] at done
      obtain ⟨more, middle, next, done⟩ := done
      rw [nextElement_eq] at next
      cases more with
      | false =>
          obtain ⟨rfl, rfl⟩ := pure_eq_ok.mp done
          exact ⟨[], .close ((nextItem_eq_ok_false.mp next).1.trans closes), .nil⟩
      | true =>
          simp only [if_true, bind_eq_ok, within_eq_ok, pure_eq_ok] at done
          obtain ⟨datum, after, element, data, _, others, rfl, rfl⟩ := done
          obtain ⟨front, json, blank, value, meaning⟩ := reads.sound element
          obtain ⟨items, series, saysAll⟩ := ih others
          exact ⟨json :: items, .item ((gap_of_nextItem next).trans blank) value series,
            .cons meaning saysAll⟩

/-- Each element takes bytes, so the fuel lasts for all of them. -/
theorem elementsFrom_of_saysAll (reads : Reads limit read)
    (series : Series Value ']' (k == 0) bytes items rest) (meaning : SaysAll item items data)
    (within : bytes.length ≤ limit) (enough : bytes.length < fuel.length) :
    ∃ front, elementsFrom (read item) fuel k bytes = .ok data front ∧
      Blank front (']'.toUInt8 :: rest) := by
  induction fuel generalizing bytes k items data with
  | nil => exact absurd enough (Nat.not_lt_zero _)
  | cons f fuel ih =>
      rw [List.length_cons] at enough
      cases series with
      | close blank =>
          cases meaning
          refine ⟨_, ?_, .none⟩
          rw [elementsFrom, bind_eq_ok, nextElement_eq]
          exact ⟨false, _, nextItem_eq_ok_false.mpr ⟨blank, rfl⟩, rfl⟩
      | item gap value others =>
          cases meaning with
          | cons first saysAll =>
              obtain ⟨b, behind, rfl, begins⟩ := value.begins
              have small := gap.length_le
              have progress := value.length_lt
              obtain ⟨front, done, closes⟩ := ih (k := k + 1) others saysAll (by omega) (by omega)
              have element := reads.complete .none value first (others.follows (by decide)) (by omega)
              refine ⟨front, ?_, closes⟩
              rw [elementsFrom, bind_eq_ok, nextElement_eq]
              refine ⟨true, _, nextItem_of_gap gap begins.not_blank (begins.ne_closing _), ?_⟩
              simp only [if_true, bind_eq_ok, within_eq_ok, pure_eq_ok]
              exact ⟨_, _, element, _, _, done, rfl, rfl⟩

theorem series_of_elements (reads : Reads limit read)
    (done : closedBy (elements (read item)) closeList bytes = .ok data rest) :
    ∃ items, Series Value ']' true bytes items rest ∧ SaysAll item items data := by
  obtain ⟨middle, done, closes⟩ := closedBy_eq_ok.mp done
  exact saysAll_of_elementsFrom reads done (closeList_eq_ok.mp closes)

theorem elements_of_series (reads : Reads limit read) (series : Series Value ']' true bytes items rest)
    (meaning : SaysAll item items data) (within : bytes.length ≤ limit) :
    closedBy (elements (read item)) closeList bytes = .ok data rest := by
  have enough : bytes.length < (0 :: bytes : Bytes).length := Nat.lt_succ_self _
  obtain ⟨middle, done, closes⟩ := elementsFrom_of_saysAll (k := 0) reads series meaning within enough
  exact closedBy_eq_ok.mpr ⟨middle, done, closeList_eq_ok.mpr closes⟩

end List

section Positional

variable {kind : RecordKind} {fields : List Field} {values : List Datum} {k : Nat}

/-- Where the bracket comes next there are no more items. -/
theorem eq_nil_of_closing {items : List Json} (series : Series Value ']' false bytes items rest)
    (head : bytes.head? = some ']'.toUInt8) : items = [] := by
  cases series with
  | close => rfl
  | item gap =>
      cases gap with
      | comma blank =>
          cases blank with
          | none => exact absurd (Option.some.inj head) (by decide)
          | more mem =>
              have closing := isBlank_iff.mpr ⟨_, mem, Option.some.inj head.symm⟩
              exact absurd closing (by decide)

theorem meaning_of_positional (reads : Reads limit read)
    (done : positional read kind k fields bytes = .ok values front)
    (closes : Blank front (']'.toUInt8 :: rest)) :
    ∃ items, Series Value ']' (k == 0) bytes items rest ∧ items.length ≤ fields.length ∧
      SaysFields fields (fun place _ => items[place]?.toList) values := by
  induction fields generalizing bytes k values with
  | nil =>
      obtain ⟨rfl, rfl⟩ := pure_eq_ok.mp done
      exact ⟨[], .close closes, Nat.le_refl _, .nil⟩
  | cons field fields ih =>
      rw [positional, bind_eq_ok] at done
      obtain ⟨more, middle, next, done⟩ := done
      rw [nextElement_eq] at next
      cases more with
      | false =>
          obtain ⟨blank, head⟩ := nextItem_eq_ok_false.mp next
          simp only [Bool.false_eq_true, if_false, ite_apply_eq] at done
          split at done
          · simp at done
          case isFalse optional =>
              simp only [bind_eq_ok, pure_eq_ok] at done
              obtain ⟨values, _, done, rfl, rfl⟩ := done
              obtain ⟨items, series, -, meaning⟩ := ih done
              obtain rfl := eq_nil_of_closing series head
              cases series with
              | close closing =>
                  refine ⟨[], .close (blank.trans closing), Nat.zero_le _, .cons ?_ meaning⟩
                  exact .leftOut (Bool.eq_false_iff.mpr optional)
      | true =>
          simp only [if_true, bind_eq_ok, within_eq_ok, pure_eq_ok] at done
          obtain ⟨value, after, element, values, _, done, rfl, rfl⟩ := done
          obtain ⟨front, json, blank, spelled, saysValue⟩ := meaning_of_readField reads element
          obtain ⟨items, series, few, meaning⟩ := ih done
          refine ⟨json :: items, .item ((gap_of_nextItem next).trans blank) spelled series, ?_, ?_⟩
          · exact Nat.succ_le_succ few
          · exact .cons saysValue meaning

/-- For the fields behind the last item there is nothing written. -/
theorem positional_of_meaning (reads : Reads limit read) {items : List Json}
    (series : Series Value ']' (k == 0) bytes items rest) (few : items.length ≤ fields.length)
    (meaning : SaysFields fields (fun place _ => items[place]?.toList) values)
    (within : bytes.length ≤ limit) :
    ∃ front, positional read kind k fields bytes = .ok values front ∧
      Blank front (']'.toUInt8 :: rest) := by
  induction fields generalizing bytes k items values with
  | nil =>
      obtain rfl := List.eq_nil_of_length_eq_zero (Nat.le_zero.mp few)
      cases series with
      | close blank => exact ⟨bytes, pure_eq_ok.mpr ⟨meaning.eq_nil.symm, rfl⟩, blank⟩
  | cons field fields ih =>
      obtain ⟨value, values, rfl, first, others⟩ := meaning.exists_cons
      rw [positional]
      cases series with
      | close blank =>
          cases first with
          | leftOut optional =>
              have ended : Series Value ']' (k + 1 == 0) (']'.toUInt8 :: rest) [] rest := .close .none
              obtain ⟨front, done, closes⟩ :=
                ih ended (Nat.zero_le _) others (Nat.le_trans blank.length_le within)
              refine ⟨front, bind_eq_ok.mpr ⟨false, _, nextItem_eq_ok_false.mpr ⟨blank, rfl⟩, ?_⟩, closes⟩
              simp only [Bool.false_eq_true, if_false, optional, bind_eq_ok, pure_eq_ok]
              exact ⟨_, _, done, rfl, rfl⟩
      | item gap spelled series =>
          obtain ⟨b, behind, rfl, begins⟩ := spelled.begins
          have small := gap.length_le
          have progress := spelled.length_lt
          obtain ⟨front, done, closes⟩ :=
            ih (k := k + 1) series (Nat.le_of_succ_le_succ few) others (by omega)
          have element := readField_of_meaning reads .none spelled first (series.follows (by decide)) (by omega)
          have next : nextElement (k == 0) bytes = .ok true (b :: behind) :=
            nextItem_of_gap gap begins.not_blank (begins.ne_closing _)
          refine ⟨front, bind_eq_ok.mpr ⟨true, _, next, ?_⟩, closes⟩
          simp only [if_true, bind_eq_ok, within_eq_ok, pure_eq_ok]
          exact ⟨_, _, element, _, _, done, rfl, rfl⟩

theorem series_of_positional (reads : Reads limit read)
    (done : closedBy (positional read kind 0 kind.fields) closeList bytes = .ok values rest) :
    ∃ items, Series Value ']' true bytes items rest ∧
      Says (.record kind) (.list items) (.record kind values) := by
  obtain ⟨middle, done, closes⟩ := closedBy_eq_ok.mp done
  obtain ⟨items, series, few, meaning⟩ := meaning_of_positional reads done (closeList_eq_ok.mp closes)
  exact ⟨items, series, says_record_iff.mpr ⟨few, meaning⟩⟩

theorem positional_of_series (reads : Reads limit read) {items : List Json}
    (series : Series Value ']' true bytes items rest)
    (meaning : Says (.record kind) (.list items) (.record kind values)) (within : bytes.length ≤ limit) :
    closedBy (positional read kind 0 kind.fields) closeList bytes = .ok values rest := by
  obtain ⟨few, meaning⟩ := says_record_iff.mp meaning
  obtain ⟨middle, done, closes⟩ := positional_of_meaning (k := 0) reads series few meaning within
  exact closedBy_eq_ok.mpr ⟨middle, done, closeList_eq_ok.mpr closes⟩

end Positional

end Reader

end TraceReplay.Interchange
