import TraceReplay.Proofs.Text.Utf8
import TraceReplay.Proofs.Trace.Visit
import TraceReplay.Render.View

/-!
The line of a step as a text. Two spaces for each frame of the address, the offset, the instruction, the mark and
the values on the stack stand in columns, and a single newline ends the line. Nothing here speaks of a projection
or of pieces; that the line printed for a visit is such a text is what is proved.
-/
namespace TraceReplay

namespace Text

/-- Spaces that fill a text up to a width. A text of that width or more is not cut. -/
structure Fills (width : Nat) (text spaces : String) : Prop where
  blank : ∀ c ∈ spaces.toList, c = ' '
  length_add : spaces.length + text.length = max width text.length

theorem fills_padding (width : Nat) (text : String) : Fills width text (padding width text) where
  blank c mem := by
    rw [padding, String.toList_ofList] at mem
    exact List.eq_of_mem_replicate mem
  length_add := by
    rw [padding, String.length_ofList, List.length_replicate]
    omega

end Text

/-- Values in brackets: the first ones up to a limit, and how many more there are. -/
inductive ListsValues : Option Nat → List String → String → Prop
  | all {limit : Option Nat} {values : List String} :
      (∀ most, limit = some most → values.length ≤ most) →
      ListsValues limit values ("[" ++ String.intercalate ", " values ++ "]")
  | front {front rest : List String} : rest ≠ [] →
      ListsValues (some front.length) (front ++ rest)
        ("[" ++ String.intercalate ", " (front ++ ["... " ++ toString rest.length ++ " more"]) ++ "]")

theorem listsValues_values (settings : RenderSettings) (values : List String) :
    ListsValues settings.valueLimit values (settings.values values) := by
  rw [RenderSettings.values]
  cases settings.valueLimit with
  | none =>
      dsimp only
      rw [Nat.sub_self, if_pos rfl]
      exact .all nofun
  | some most =>
      dsimp only
      by_cases few : values.length ≤ most
      · simp only [List.take_of_length_le few, Nat.sub_self, if_true]
        refine .all fun other same => ?_
        cases same
        exact few
      · have long : most ≤ values.length := Nat.le_of_not_le few
        obtain ⟨front, rest, rfl, rfl⟩ : ∃ front rest, values = front ++ rest ∧ front.length = most :=
          ⟨_, _, (List.take_append_drop most values).symm, List.length_take_of_le long⟩
        have some_left : rest ≠ [] := by
          rintro rfl
          exact few (by rw [List.append_nil])
        have counted : (front ++ rest).length - front.length = rest.length := by
          rw [List.length_append, Nat.add_sub_cancel_left]
        simp only [List.take_left, counted, mt List.eq_nil_of_length_eq_zero some_left, if_false]
        exact .front some_left

/-- The text behind the codes that select a style, and before the one that resets it. -/
def styled (coloured : Bool) (code text : String) : String :=
  if coloured then "\x1b[0m" ++ ("\x1b[" ++ code ++ "m") ++ text ++ "\x1b[0m" else text

namespace InstructionEvaluation

/-- What marks an evaluation: whether it is cut off, whether it generalizes, and then how often it was visited. -/
def mark (evaluation : InstructionEvaluation) : String :=
  (if evaluation.skip then "S" else "") ++
    if evaluation.isGeneralization then
      "G" ++ (evaluation.visitCount.elim "" fun count => " x" ++ toString count.toNat)
    else ""

/-- A text in the colour of the mark: yellow where the evaluation is cut off, or else magenta where it generalizes. -/
def inMarkColour (evaluation : InstructionEvaluation) (coloured : Bool) (text : String) : String :=
  if evaluation.skip then styled coloured "33" text
  else if evaluation.isGeneralization then styled coloured "35" text
  else text

end InstructionEvaluation

/-- A line that shows a visit. Two spaces for each frame of the address come first, and the mark alone is coloured. -/
inductive Visit.Shows (settings : RenderSettings) (coloured : Bool) (visit : Visit) : String → Prop
  | line {indent beforeOffset behindText behindMark stack : String} :
      indent.toList = List.replicate (2 * visit.frames.length) ' ' →
      Text.Fills 5 (toString visit.evaluation.offset.toNat) beforeOffset →
      Text.Fills 24 visit.evaluation.text behindText →
      Text.Fills 6 visit.evaluation.mark behindMark →
      ListsValues settings.valueLimit visit.evaluation.stackBefore stack →
      Shows settings coloured visit
        (indent ++ beforeOffset ++ toString visit.evaluation.offset.toNat ++ " " ++
          visit.evaluation.text ++ behindText ++
          visit.evaluation.inMarkColour coloured (" " ++ visit.evaluation.mark ++ behindMark) ++
          " stack " ++ stack ++ "\n")

namespace Piece

def text (coloured : Bool) (pieces : List Piece) : String :=
  String.join (pieces.map (Piece.shown coloured))

/-- The bytes that are printed are those of a text. -/
theorem bytes_eq_encode (coloured : Bool) (pieces : List Piece) :
    bytes coloured pieces = Utf8.encode (text coloured pieces) := by
  induction pieces with
  | nil => rfl
  | cons piece pieces ih =>
      rw [text, List.map_cons, String.join_cons, Utf8.encode_append, ← text, ← ih]
      rfl

theorem text_append (coloured : Bool) (first second : List Piece) :
    text coloured (first ++ second) = text coloured first ++ text coloured second := by
  rw [text, List.map_append, String.join_append]
  rfl

theorem text_plain (coloured : Bool) (shown : String) : text coloured [.plain shown] = shown :=
  String.join_cons.trans String.append_empty

theorem text_styled {style : Piece} {coloured : Bool} {code : String}
    (selects : style.shown coloured = if coloured then styleCode "0" ++ styleCode code else "") (shown : String) :
    text coloured [style, .plain shown, .reset] = styled coloured code shown := by
  rw [text, List.map_cons, selects]
  cases coloured with
  | true => simp [Piece.shown, styled, styleCode, String.append_assoc]
  | false => simp [Piece.shown, styled]

end Piece

/-- The line of a visit, which depends on the evaluation and its depth alone. -/
def Visit.line (visit : Visit) (settings : RenderSettings) : List Piece :=
  let standing := { Projection.empty with depth := visit.owners.length }
  (standing.withEvaluation visit.evaluation).line settings

theorem marker_withEvaluation (standing : Projection) (evaluation : InstructionEvaluation) :
    (standing.withEvaluation evaluation).marker = evaluation.mark := by
  obtain ⟨skip, generalizes, count, _⟩ := evaluation
  cases skip <;> cases generalizes <;> cases count <;> rfl

theorem text_markerColour (standing : Projection) (evaluation : InstructionEvaluation) (coloured : Bool)
    (shown : String) :
    Piece.text coloured
        (match (standing.withEvaluation evaluation).markerColour? with
        | some colour => Piece.inColour colour shown
        | none => [.plain shown]) = evaluation.inMarkColour coloured shown := by
  obtain ⟨skip, generalizes, _⟩ := evaluation
  cases skip with
  | true => exact Piece.text_styled rfl shown
  | false =>
      cases generalizes with
      | true => exact Piece.text_styled rfl shown
      | false => exact Piece.text_plain coloured shown

/-- The line of a step, column by column. -/
theorem text_line (standing : Projection) (evaluation : InstructionEvaluation) (settings : RenderSettings)
    (coloured : Bool) :
    Piece.text coloured ((standing.withEvaluation evaluation).line settings) =
      String.ofList (List.replicate (2 * (standing.depth + 1)) ' ') ++
          Text.alignRight 5 (toString evaluation.offset.toNat) ++ " " ++ Text.alignLeft 24 evaluation.text ++
        evaluation.inMarkColour coloured (" " ++ Text.alignLeft 6 evaluation.mark) ++
        (" stack " ++ settings.values evaluation.stackBefore ++ "\n") := by
  rw [← text_markerColour standing, ← marker_withEvaluation standing, Projection.line, Piece.text_append,
    Piece.text_append, Piece.text_plain, Piece.text_plain]
  rfl

/-- What is printed for a visit is a line that shows it. -/
theorem Visit.shows_line (visit : Visit) (settings : RenderSettings) (coloured : Bool) :
    visit.Shows settings coloured (Piece.text coloured (visit.line settings)) := by
  have indent : (String.ofList (List.replicate (2 * (visit.owners.length + 1)) ' ')).toList =
      List.replicate (2 * visit.frames.length) ' ' := by
    rw [String.toList_ofList, Visit.frames, List.length_append, List.length_reverse]
    rfl
  have shows : visit.Shows settings coloured _ :=
    .line indent (Text.fills_padding 5 _) (Text.fills_padding 24 _) (Text.fills_padding 6 _)
      (listsValues_values settings visit.evaluation.stackBefore)
  rw [Visit.line, text_line]
  simpa only [Text.alignLeft, Text.alignRight, String.append_assoc] using shows

end TraceReplay
