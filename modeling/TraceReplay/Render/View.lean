import TraceReplay.Cursor.Jump
import TraceReplay.Cursor.Projection
import TraceReplay.Render.Piece
import TraceReplay.Text.Basic
import TraceReplay.Trace.Statistics

/-!
The views of a trace: a line for a step, the full view of the step a cursor is on, and the summary
of a whole trace.
-/
namespace TraceReplay

namespace RenderSettings

/-- A list of values, cut off at the limit with the number of those left out. -/
def values (settings : RenderSettings) (values : List String) : String :=
  let shown :=
    match settings.valueLimit with
    | some limit => values.take limit
    | none => values
  let missing := values.length - shown.length
  let parts := if missing = 0 then shown else shown ++ ["... " ++ toString missing ++ " more"]
  "[" ++ String.intercalate ", " parts ++ "]"

end RenderSettings

namespace Projection

/-- The marker of a step, with the count of visits of a generalization. -/
def marker (projection : Projection) : String :=
  match projection.flags.generalization, projection.visitCount with
  | true, some count => projection.flags.marker ++ " x" ++ toString count.toNat
  | _, _ => projection.flags.marker

def markerColour? (projection : Projection) : Option Colour :=
  if projection.flags.skip then some .yellow
  else if projection.flags.generalization then some .magenta
  else none

def offsetText (projection : Projection) : String :=
  match projection.instructionOffset with
  | some offset => toString offset.toNat
  | none => "-"

/-- One line for a step, indented by its depth. -/
def line (projection : Projection) (settings : RenderSettings) : List Piece :=
  let indent := String.ofList (List.replicate (2 * (projection.depth + 1)) ' ')
  let marker := " " ++ Text.alignLeft 6 projection.marker
  [.plain (indent ++ Text.alignRight 5 projection.offsetText ++ " " ++
      Text.alignLeft 24 projection.instructionText)] ++
    (match projection.markerColour? with
    | some colour => Piece.inColour colour marker
    | none => [.plain marker]) ++
    [.plain (" stack " ++ settings.values projection.stackBefore ++ "\n")]

def worklistText (projection : Projection) (settings : RenderSettings) : String :=
  let updated := if projection.updatedWorklist.isSome then " (updated)" else ""
  if projection.pendingWorklist.isEmpty then "  worklist:  empty" ++ updated ++ "\n"
  else
    "  worklist:" ++ updated ++ "\n" ++ String.join (projection.pendingWorklist.map fun target =>
      "    @" ++ toString target.startOffset.toNat ++
        " variables " ++ settings.values target.startVariables ++
        " stack " ++ settings.values target.startStack ++ "\n")

/-- The block of a step and the handler it runs, if it runs one. -/
def blockText (projection : Projection) : String :=
  (match projection.blockStartOffset with
  | some start => "  block starts at " ++ toString start.toNat
  | none => "") ++
  (match projection.exceptionHandler with
  | some handler =>
    " (exception handler for " ++ toString handler.catchStart.toNat ++ ".." ++
      toString handler.catchEnd.toNat ++ ", catches " ++ handler.catchType.getD "any" ++ ")"
  | none => "") ++ "\n"

end Projection

/-- What is shown in place of the steps of a method that has none. -/
def noEvaluations : Piece := .plain "  (no instruction evaluations)\n"

def EvaluationError.text (error : EvaluationError) : String :=
  toString error.offset.toNat ++ ": " ++ error.message

namespace Cursor

/-- Where the cursor stands: indices, and the number of the step or else the depth. -/
def standing (cursor : Cursor) : String :=
  "  [method " ++ toString cursor.method ++ ", block " ++ toString cursor.frame.block ++
    ", eval " ++ toString cursor.frame.eval ++
    (match cursor.stepIndex? with
    | some step =>
      ", step " ++ toString (step + 1) ++ "/" ++ toString cursor.trace.totalEvaluationCount
    | none => if 0 < cursor.depth then ", depth " ++ toString cursor.depth else "") ++ "]\n"

/-- The step itself, with all that is known before it. -/
def stepView (cursor : Cursor) (settings : RenderSettings) : List Piece :=
  let projection := cursor.projection
  projection.line settings ++
    [.plain projection.blockText,
     .plain ("  variables: " ++ settings.values projection.variablesBefore ++ "\n"),
     .plain ("  stack:     " ++ settings.values projection.stackBefore ++ "\n")] ++
    (if settings.showWorklist then [.plain (projection.worklistText settings)] else []) ++
    (if projection.hasNested then
      [.plain "  (subroutine sub-trace available, `enter` to step into it)\n"]
    else [])

def view (cursor : Cursor) (settings : RenderSettings) : List Piece :=
  match cursor.currentMethod? with
  | none => [.plain "(empty trace)\n"]
  | some method =>
    [.bold, .plain method.displayName, .reset, .plain cursor.standing] ++
      (match method.error with
      | some error => Piece.errorLine ("  evaluation failed at " ++ error.text)
      | none => []) ++
      (if cursor.projection.isEmpty then [noEvaluations] else cursor.stepView settings)

end Cursor

/-- A line for a method in a summary, and one for the error that ended it. -/
def MethodTrace.summary (method : MethodTrace) (index : Nat) : List Piece :=
  let stats := method.statistics
  [.plain ("  [" ++ toString index ++ "] " ++ method.displayName ++ ": " ++
      toString stats.blocks ++ " blocks, " ++ toString stats.evaluations ++ " steps (" ++
      toString stats.skipped ++ " skipped, " ++ toString stats.generalized ++ " generalized, " ++
      toString stats.exceptionHandlerBlocks ++ " handler blocks, " ++
      toString stats.nestedBlocks ++ " subroutine blocks)\n")] ++
    match method.error with
    | some error => Piece.errorLine ("      error at " ++ error.text)
    | none => []

def Trace.summary (trace : Trace) (path : String) : List Piece :=
  [.bold,
   .plain (path ++ " (" ++ toString trace.methodCount ++ " methods, " ++
     toString trace.totalEvaluationCount ++ " steps)\n"),
   .reset] ++
    trace.methods.zipIdx.flatMap fun (method, index) => method.summary index

end TraceReplay
