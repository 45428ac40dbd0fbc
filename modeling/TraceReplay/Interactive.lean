import TraceReplay.Command
import TraceReplay.Render.View
import TraceReplay.Session

/-!
The interactive loop: each command is answered with what it has to say and the view of the step then
shown. A line that is no command is answered with its error alone.
-/
namespace TraceReplay.Interactive

/-- How a file is read: its bytes, or why it cannot be read. -/
abbrev FileReader := String → Except String Bytes

def noTrace : List Piece := Piece.errorLine "no trace loaded (use `load <path>`)"

/-- What is on display. -/
def display (settings : RenderSettings) (session : Session) : List Piece :=
  match session.cursor with
  | some cursor => cursor.view settings
  | none => noTrace

/-- Loads a file, and reports it if that fails. -/
def loadFile (read : FileReader) (session : Session) (path : String) : Session × List Piece :=
  let (session, outcome, _) := session.loadFile path (read path)
  match outcome, session.lastError with
  | .failed, some error => (session, Piece.errorLine (path ++ " - " ++ error.message))
  | _, _ => (session, [])

/-- What a move has to say for itself. -/
def comment : Reply → List Piece
  | .stepped false => Piece.errorLine "can't step any further"
  | .refused error => Piece.errorLine error.message
  | .stepped true | .done => []

/-- The session and the answer after a line, or nothing once the line ends the loop. -/
def respond (settings : RenderSettings) (read : FileReader) (session : Session) (line : String) :
    Option (Session × List Piece) :=
  match Command.parse line with
  | .error error => some (session, Piece.errorLine error.message)
  | .ok none => some (session, [])
  | .ok (some .quit) => none
  | .ok (some .help) => some (session, [.plain Command.helpText])
  | .ok (some (.load path)) =>
    let (session, report) := loadFile read session path
    some (session, report ++ display settings session)
  | .ok (some (.move move)) =>
    match session.perform move with
    | (session, some reply, _) => some (session, comment reply ++ display settings session)
    | (session, none, _) => some (session, noTrace)

/-- What came of a series of lines. -/
structure Conversation where
  session : Session
  printed : List Piece
  /-- Whether a line ended the loop. -/
  ended : Bool
deriving Inhabited

/-- Answers lines until one ends the loop. -/
def converse (settings : RenderSettings) (read : FileReader) (session : Session) :
    List String → Conversation
  | [] => ⟨session, [], false⟩
  | line :: lines =>
    match respond settings read session line with
    | none => ⟨session, [], true⟩
    | some (session, answer) =>
      let rest := converse settings read session lines
      { rest with printed := answer ++ rest.printed }

end TraceReplay.Interactive
