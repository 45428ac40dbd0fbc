import Mathlib.Data.List.Basic
import TraceReplay.Render.Display

/-!
Printing write by write. A write hands over some bytes, of which the output takes those that it has room for,
and a further write is made only once all were taken. The reset after a text in a colour is the exception: it
is tried even where the text was refused. As an output takes nothing more once it has refused a byte, neither
this nor the size of the writes shows: the bytes taken are those of one write of everything.
-/
namespace TraceReplay

namespace Output

variable {output : Output}

/-- What two writes take is what one write of both takes. -/
theorem accepted_append (output : Output) (first second : Bytes) :
    output.accepted (first ++ second) =
      output.accepted first ++ (output.after first).accepted second := by
  obtain ⟨room, refusal⟩ := output
  cases room with
  | none => rfl
  | some room => exact List.take_append

theorem after_append (output : Output) (first second : Bytes) :
    output.after (first ++ second) = (output.after first).after second := by
  obtain ⟨room, refusal⟩ := output
  cases room with
  | none => rfl
  | some room =>
      simp only [after, Option.map_some, List.length_append, Nat.sub_add_eq]

theorem fits_append (output : Output) (first second : Bytes) :
    output.fits (first ++ second) = (output.fits first && (output.after first).fits second) := by
  obtain ⟨room, refusal⟩ := output
  cases room with
  | none => rfl
  | some room =>
      simp only [fits, after, Option.map_some, List.length_append, ← Bool.decide_and]
      congr 1
      exact propext (by omega)

theorem accepted_of_fits {bytes : Bytes} (fits : output.fits bytes = true) :
    output.accepted bytes = bytes := by
  obtain ⟨room, refusal⟩ := output
  cases room with
  | none => rfl
  | some room => exact List.take_of_length_le (of_decide_eq_true fits)

theorem fits_of_unlimited (unlimited : output.room = none) (bytes : Bytes) :
    output.fits bytes = true := by
  rw [fits, unlimited]

theorem after_of_unlimited (unlimited : output.room = none) (bytes : Bytes) :
    output.after bytes = output := by
  obtain ⟨room, refusal⟩ := output
  cases unlimited
  rfl

@[simp] theorem fits_nil (output : Output) : output.fits [] = true := by
  obtain ⟨room, refusal⟩ := output
  cases room with
  | none => rfl
  | some room => exact decide_eq_true (Nat.zero_le room)

@[simp] theorem after_nil (output : Output) : output.after [] = output := by
  obtain ⟨room, refusal⟩ := output
  cases room with
  | none => rfl
  | some room => rfl

@[simp] theorem accepted_nil (output : Output) : output.accepted [] = [] :=
  accepted_of_fits output.fits_nil

/-- An output that has refused a byte has no room left. -/
theorem room_after_of_refused {bytes : Bytes} (refused : output.fits bytes = false) :
    (output.after bytes).room = some 0 := by
  obtain ⟨room, refusal⟩ := output
  cases room with
  | none => cases refused
  | some room =>
      have short : ¬bytes.length ≤ room := of_decide_eq_false refused
      exact congrArg some (Nat.sub_eq_zero_of_le (Nat.le_of_not_le short))

theorem accepted_of_full (full : output.room = some 0) (bytes : Bytes) :
    output.accepted bytes = [] := by
  rw [accepted, full]
  exact List.take_zero

theorem after_of_full (full : output.room = some 0) (bytes : Bytes) :
    output.after bytes = output := by
  obtain ⟨room, refusal⟩ := output
  cases full
  exact congrArg (Output.mk · refusal) (congrArg some (Nat.zero_sub _))

theorem fits_of_full (full : output.room = some 0) (bytes : Bytes) :
    output.fits bytes = bytes.isEmpty := by
  rw [fits, full]
  cases bytes <;> rfl

end Output

structure Written where
  bytes : Bytes
  output : Output
  complete : Bool

abbrev Writing := Output → Written

namespace Writing

def whole (bytes : Bytes) : Writing := fun output =>
  ⟨output.accepted bytes, output.after bytes, output.fits bytes⟩

theorem whole_nil (output : Output) : whole [] output = ⟨[], output, true⟩ := by
  rw [whole, output.accepted_nil, output.after_nil, output.fits_nil]

/-- The second writing is made only where the first one was taken as a whole. -/
def andThen (first second : Writing) : Writing := fun output =>
  let written := first output
  if written.complete then
    let rest := second written.output
    { rest with bytes := written.bytes ++ rest.bytes }
  else written

/-- The second writing is made in any case. -/
def andAlways (first second : Writing) : Writing := fun output =>
  let written := first output
  let rest := second written.output
  ⟨written.bytes ++ rest.bytes, rest.output, written.complete && rest.complete⟩

theorem andAlways_whole (first second : Bytes) :
    (whole first).andAlways (whole second) = whole (first ++ second) := by
  funext output
  rw [whole, output.accepted_append, output.after_append, output.fits_append]
  rfl

/-- It is the same whether more is tried on an output that has refused bytes. -/
theorem andThen_whole (first second : Bytes) :
    (whole first).andThen (whole second) = whole (first ++ second) := by
  rw [← andAlways_whole]
  funext output
  cases fits : output.fits first with
  | true => simp only [andThen, andAlways, whole, fits, if_true, Bool.true_and]
  | false =>
      have full := Output.room_after_of_refused fits
      simp only [andThen, andAlways, whole, fits, Bool.false_eq_true, if_false, Bool.false_and,
        Output.accepted_of_full full, Output.after_of_full full, List.append_nil]

def inTurn : List Bytes → Writing
  | [] => whole []
  | part :: parts => (whole part).andThen (inTurn parts)

/-- Where a text is parted does not show in what is taken of it. -/
theorem inTurn_eq_whole (parts : List Bytes) : inTurn parts = whole parts.flatten := by
  induction parts with
  | nil => rfl
  | cons part parts ih => rw [inTurn, ih, andThen_whole, List.flatten_cons]

end Writing

/-- A way to hand texts over in several writes. -/
structure Parting where
  parts : Bytes → List Bytes
  flatten_parts : ∀ bytes, (parts bytes).flatten = bytes

namespace Parting

def bytewise : Parting where
  parts bytes := bytes.map fun byte => [byte]
  flatten_parts := List.flatMap_singleton'

variable (parting : Parting) (coloured : Bool)

def writing (piece : Piece) : Writing :=
  .inTurn (parting.parts (Utf8.encode (piece.shown coloured)))

/-- The pieces in turn, where a text in a colour is reset in any case. -/
def writingAll : List Piece → Writing
  | [] => .whole []
  | .ink colour :: .plain text :: .reset :: pieces =>
    ((parting.writing coloured (.ink colour)).andThen
      ((parting.writing coloured (.plain text)).andAlways (parting.writing coloured .reset))).andThen
      (writingAll pieces)
  | piece :: pieces => (parting.writing coloured piece).andThen (writingAll pieces)

theorem writing_eq_whole (piece : Piece) :
    parting.writing coloured piece = .whole (Utf8.encode (piece.shown coloured)) := by
  rw [writing, Writing.inTurn_eq_whole, parting.flatten_parts]

theorem writingAll_eq_whole (pieces : List Piece) :
    parting.writingAll coloured pieces = .whole (Piece.bytes coloured pieces) := by
  fun_induction writingAll parting coloured pieces with
  | case1 => rfl
  | case2 colour text pieces ih =>
      rw [ih]
      simp only [writing_eq_whole, Writing.andAlways_whole, Writing.andThen_whole, Piece.bytes,
        List.flatMap_cons, List.append_assoc]
  | case3 piece pieces _ ih =>
      rw [ih, writing_eq_whole, Writing.andThen_whole]
      rfl

def printFrom (last : Cursor) (output : Output) : List (Cursor × List Piece) → Printed
  | [] => ⟨[], output, last, true⟩
  | (cursor, pieces) :: scenes =>
    let written := parting.writingAll coloured pieces output
    if written.complete then
      let rest := printFrom last written.output scenes
      { rest with bytes := written.bytes ++ rest.bytes }
    else ⟨written.bytes, written.output, cursor, false⟩

def print (script : Script) (output : Output) : Printed :=
  parting.printFrom coloured script.last output script.scenes

theorem printFrom_eq (last : Cursor) (output : Output) (scenes : List (Cursor × List Piece)) :
    parting.printFrom coloured last output scenes =
      Script.printFrom coloured last output scenes := by
  induction scenes generalizing output with
  | nil => rfl
  | cons scene scenes ih =>
      rw [printFrom, Script.printFrom, writingAll_eq_whole, Writing.whole, ih]
      cases fits : output.fits (Piece.bytes coloured scene.2) with
      | true => simp only [if_true, Output.accepted_of_fits fits]
      | false => simp only [Bool.false_eq_true, if_false]

/-- However the texts are handed over, a script prints the same. -/
theorem print_eq (script : Script) (output : Output) :
    parting.print coloured script output = script.print coloured output :=
  parting.printFrom_eq coloured script.last output script.scenes

end Parting

def Printed.written (printed : Printed) : Written :=
  ⟨printed.bytes, printed.output, printed.complete⟩

namespace Script

def bytes (script : Script) (coloured : Bool) : Bytes :=
  script.scenes.flatMap fun scene => Piece.bytes coloured scene.2

theorem printFrom_written (coloured : Bool) (last : Cursor) (output : Output)
    (scenes : List (Cursor × List Piece)) :
    (printFrom coloured last output scenes).written =
      Writing.whole (scenes.flatMap fun scene => Piece.bytes coloured scene.2) output := by
  induction scenes generalizing output with
  | nil =>
      rw [List.flatMap_nil, Writing.whole_nil]
      rfl
  | cons scene scenes ih =>
      rw [List.flatMap_cons, ← Writing.andThen_whole, Writing.andThen, ← ih, printFrom]
      cases fits : output.fits (Piece.bytes coloured scene.2) with
      | true => simp only [Writing.whole, Printed.written, fits, if_true, Output.accepted_of_fits fits]
      | false => simp only [Writing.whole, Printed.written, fits, Bool.false_eq_true, if_false]

theorem print_written (script : Script) (coloured : Bool) (output : Output) :
    (script.print coloured output).written = Writing.whole (script.bytes coloured) output :=
  printFrom_written coloured script.last output script.scenes

def cursors (script : Script) : List Cursor := script.scenes.map Prod.fst ++ [script.last]

/-- Printing ends with the cursor of the scene that was refused, or else the last one. -/
theorem print_cursor_mem (script : Script) (coloured : Bool) (output : Output) :
    (script.print coloured output).cursor ∈ script.cursors := by
  obtain ⟨scenes, last⟩ := script
  rw [print, cursors]
  induction scenes generalizing output with
  | nil => exact List.mem_singleton_self last
  | cons scene scenes ih =>
      rw [printFrom]
      split
      · exact List.mem_cons_of_mem _ (ih _)
      · exact List.mem_cons_self

/-- What the output has room for is printed to its end. -/
theorem print_of_fits {script : Script} {coloured : Bool} {output : Output}
    (fits : output.fits (script.bytes coloured) = true) :
    script.print coloured output =
      ⟨script.bytes coloured, output.after (script.bytes coloured), script.last, true⟩ := by
  obtain ⟨scenes, last⟩ := script
  rw [print]
  rw [bytes] at fits ⊢
  induction scenes generalizing output with
  | nil =>
      rw [List.flatMap_nil, output.after_nil, printFrom]
  | cons scene scenes ih =>
      rw [List.flatMap_cons, Output.fits_append, Bool.and_eq_true] at fits
      rw [printFrom, if_pos fits.1, ih fits.2, List.flatMap_cons, Output.after_append]

end Script

end TraceReplay
