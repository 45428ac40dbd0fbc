import Mathlib.Logic.Relation
import TraceReplay.Proofs.Reading.Grammar

/-!
A value ends where it ends, whatever stands behind it. The productions of the grammar relate the bytes before and
behind something; what they take lies in between and can be put in front of anything else.
-/
namespace TraceReplay.Interchange.Grammar

variable {bytes front gap middle rest : Bytes} {b : UInt8}

/-- Between these bytes stands what the production takes in front of any others as well. -/
def Takes (production : Bytes → Bytes → Prop) (bytes rest : Bytes) : Prop :=
  ∃ taken, bytes = taken ++ rest ∧ ∀ other, production (taken ++ other) other

namespace Takes

variable {first second production : Bytes → Bytes → Prop}

theorem nothing (holds : ∀ other, production other other) : Takes production rest rest :=
  ⟨[], rfl, holds⟩

theorem mono (takes : Takes first bytes rest)
    (implies : ∀ {bytes rest}, first bytes rest → production bytes rest) :
    Takes production bytes rest := by
  obtain ⟨taken, split, holds⟩ := takes
  exact ⟨taken, split, fun other => implies (holds other)⟩

theorem behind (takes : Takes first bytes rest)
    (implies : ∀ {bytes rest}, first bytes rest → production (b :: bytes) rest) :
    Takes production (b :: bytes) rest := by
  obtain ⟨taken, rfl, holds⟩ := takes
  exact ⟨b :: taken, rfl, fun other => implies (holds other)⟩

/-- A byte in front of what is taken, as part of a longer production. -/
theorem after (takes : Takes first bytes rest) (b : UInt8) :
    Takes (fun bytes rest => ∃ behind, bytes = b :: behind ∧ first behind rest) (b :: bytes) rest :=
  takes.behind fun holds => ⟨_, rfl, holds⟩

theorem comp (takes : Takes first bytes middle) (more : Takes second middle rest) :
    Takes (Relation.Comp first second) bytes rest := by
  obtain ⟨taken, rfl, holds⟩ := takes
  obtain ⟨taken', rfl, holds'⟩ := more
  refine ⟨taken ++ taken', (List.append_assoc _ _ _).symm, fun other => ⟨taken' ++ other, ?_, holds' other⟩⟩
  rw [List.append_assoc]
  exact holds _

/-- What is taken in front of some bytes can be taken in front of others. -/
theorem replace {taken : Bytes} (takes : Takes production (taken ++ rest) rest) (other : Bytes) :
    production (taken ++ other) other := by
  obtain ⟨same, split, holds⟩ := takes
  rw [List.append_cancel_right split]
  exact holds other

end Takes

theorem Blank.takes (blank : Blank bytes rest) : Takes Blank bytes rest := by
  induction blank with
  | none => exact .nothing fun _ => .none
  | more isBlank _ ih => exact ih.behind (.more isBlank)

theorem HexUnit.takes {n : Nat} (unit : HexUnit bytes n rest) : Takes (HexUnit · n) bytes rest := by
  cases unit with
  | @digits a b c d _ _ _ _ _ first second third fourth =>
      exact ⟨[a, b, c, d], rfl, fun other => .digits first second third fourth⟩

theorem Escape.takes {c : Char} (escape : Escape bytes c rest) : Takes (Escape · c) bytes rest := by
  cases escape with
  | @short letter _ _ mem => exact ⟨[letter.toUInt8], rfl, fun _ => .short mem⟩
  | unit unit inPlane => exact unit.takes.behind (.unit · inPlane)
  | pair high low fromHigh toHigh fromLow toLow =>
      obtain ⟨taken, rfl, holds⟩ := high.takes
      obtain ⟨taken', rfl, holds'⟩ := low.takes
      refine ⟨'u'.toUInt8 :: (taken ++ '\\'.toUInt8 :: 'u'.toUInt8 :: taken'), by simp, fun other => ?_⟩
      have spelled := Escape.pair (holds _) (holds' other) fromHigh toHigh fromLow toLow
      simpa using spelled

theorem AnyEscape.takes (escape : AnyEscape bytes rest) : Takes AnyEscape bytes rest := by
  cases escape with
  | @short letter _ _ mem => exact ⟨[letter.toUInt8], rfl, fun _ => .short mem⟩
  | unit unit => exact unit.takes.behind .unit

theorem TextBytes.takes {value : Bytes} (text : TextBytes bytes value rest) :
    Takes (TextBytes · value) bytes rest := by
  induction text with
  | close => exact ⟨['"'.toUInt8], rfl, fun _ => .close⟩
  | plain plain _ ih => exact ih.behind (.plain plain)
  | escape escape _ ih => exact (escape.takes.comp ih).behind fun ⟨_, escape, text⟩ => .escape escape text

theorem AnyText.takes (text : AnyText bytes rest) : Takes AnyText bytes rest := by
  induction text with
  | close => exact ⟨['"'.toUInt8], rfl, fun _ => .close⟩
  | plain plain _ ih => exact ih.behind (.plain plain)
  | escape escape _ ih => exact (escape.takes.comp ih).behind fun ⟨_, escape, text⟩ => .escape escape text

/-- Also what a text does not mean is up to its own bytes. -/
theorem Text.takes {value : Option String} (text : Text bytes value rest) : Takes (Text · value) bytes rest := by
  cases text with
  | value text => exact text.takes.mono .value
  | meaningless text none =>
      obtain ⟨taken, rfl, holds⟩ := text.takes
      refine ⟨taken, rfl, fun other => .meaningless (holds other) fun value text => ?_⟩
      exact none value (text.takes.replace rest)

theorem Gap.takes {isFirst : Bool} (gap : Gap isFirst bytes front) : Takes (Gap isFirst) bytes front := by
  cases gap with
  | first blank => exact blank.takes.mono .first
  | comma blank behind =>
      refine (blank.takes.comp (behind.takes.after ','.toUInt8)).mono ?_
      rintro bytes front ⟨_, blank, behind, rfl, more⟩
      exact .comma blank more

section Series

variable {α : Type} {Item : Bytes → α → Bytes → Prop} {closing : Char} {isFirst : Bool} {xs : List α}

theorem Series.takes (series : Series Item closing isFirst bytes xs rest)
    (each : ∀ x ∈ xs, ∀ {front after}, Item front x after → Takes (Item · x) front after) :
    Takes (Series Item closing isFirst · xs) bytes rest := by
  induction series with
  | @close isFirst bytes rest blank =>
      have closes : Takes (fun bytes rest => bytes = closing.toUInt8 :: rest) (closing.toUInt8 :: rest) rest :=
        ⟨[closing.toUInt8], rfl, fun _ => rfl⟩
      refine (blank.takes.comp closes).mono ?_
      rintro bytes rest ⟨_, blank, rfl⟩
      exact .close blank
  | item gap item _ ih =>
      obtain ⟨here, later⟩ := List.forall_mem_cons.mp each
      refine (gap.takes.comp ((here item).comp (ih later))).mono ?_
      rintro bytes rest ⟨_, gap, _, item, others⟩
      exact .item gap item others

end Series

theorem Member.takes {key : Option String} {json : Json} (spelled : Member bytes (key, json) rest)
    (inside : ∀ {front}, Value front json rest → Takes (Value · json) front rest) :
    Takes (Member · (key, json)) bytes rest := by
  cases spelled with
  | pair text colon blank value =>
      have behindColon := (blank.takes.comp (inside value)).after ':'.toUInt8
      refine (text.takes.comp (colon.takes.comp behindColon)).behind ?_
      rintro bytes rest ⟨_, text, _, colon, _, rfl, _, blank, value⟩
      exact .pair text colon blank value

/-- How a value is spelled does not depend on what stands behind it. -/
theorem Value.takes {json : Json} (value : Value bytes json rest) : Takes (Value · json) bytes rest := by
  induction size : sizeOf json using Nat.strongRecOn generalizing json bytes rest with
  | ind n ih =>
      subst size
      cases value with
      | null => exact ⟨_, rfl, fun _ => .null⟩
      | true => exact ⟨_, rfl, fun _ => .true⟩
      | false => exact ⟨_, rfl, fun _ => .false⟩
      | number number => exact ⟨_, rfl, fun _ => .number number⟩
      | text text => exact text.takes.behind .text
      | list series =>
          refine (series.takes fun item mem front after value => ?_).behind .list
          exact ih _ (Json.sizeOf_lt_of_mem_list mem) value rfl
      | object series =>
          refine (series.takes fun (key, x) mem front after member => ?_).behind .object
          exact member.takes fun value => ih _ (Json.sizeOf_lt_of_mem_object mem) value rfl

/-- A value that stands alone can stand in front of anything. -/
theorem Value.append {json : Json} (value : Value bytes json []) (rest : Bytes) :
    Value (bytes ++ rest) json rest := by
  rw [← List.append_nil bytes] at value
  exact value.takes.replace rest

end TraceReplay.Interchange.Grammar
