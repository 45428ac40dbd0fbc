import TraceReplay.CommandLine
import TraceReplay.Interactive
import TraceReplay.Render.Display
import TraceReplay.Storage
import TraceReplay.Text.Basic
import TraceReplay.Trace.Lookup

/-!
The program: what it prints for its options, given the files around it and its input. A run makes a
transcript, which holds what to print and the error that ends the run; delivering it decides what
an output with limited room gets of that.
-/
namespace TraceReplay

/-- What ends a run early. -/
inductive ProgramError
  | io (reason : String)
  | load (path : String) (error : LoadError)
  | navigation (error : NavigationError)
  | unknownMethod (text : String)
  | noTraces (directory : String)
deriving Inhabited

def ProgramError.message : ProgramError → String
  | .io reason => "IO - " ++ reason
  | .load path error => path ++ " - " ++ error.message
  | .navigation error => "navigation - " ++ error.message
  | .unknownMethod text => "no method trace matches `" ++ text ++ "`"
  | .noTraces directory => "no `.json` traces found in " ++ directory

/-- The files around the program. -/
structure Surroundings where
  read : Interactive.FileReader
  /-- The paths of the trace files below a directory, in order; none for what is no directory. -/
  tracesBelow : String → Option (List String)

/-- Whether a file name has the extension of trace files, with something before it. -/
def isTraceName (name : String) : Bool :=
  let extension := ['n', 'o', 's', 'j', '.']
  let reversed := name.toList.reverse
  extension.isPrefixOf reversed && extension.length < reversed.length

/-- The path of what lies below a directory. -/
def joinPath (directory : String) (names : Location) : String :=
  directory ++ (if directory.toList.getLast? = some '/' then "" else "/") ++
    String.intercalate "/" names

namespace FileSystem

def tracesBelow (files : FileSystem) (path : String) : Option (List String) :=
  match files.resolve path with
  | .error _ => none
  | .ok location =>
    if files.entry? location = some .directory then
      some (((files.filesBelow location).filter fun names => isTraceName (names.getLastD "")).map
        (joinPath path))
    else none

def surroundings (files : FileSystem) : Surroundings where
  read path := (files.read path).mapError StorageError.message
  tracesBelow := files.tracesBelow

end FileSystem

/-- What a run prints, and the error that ends it, if one does. -/
structure Transcript where
  printed : List Piece
  error : Option ProgramError
deriving Inhabited

namespace Transcript

def ofError (error : ProgramError) : Transcript := ⟨[], some error⟩

/-- Prints first. -/
def after (pieces : List Piece) (transcript : Transcript) : Transcript :=
  { transcript with printed := pieces ++ transcript.printed }

end Transcript

namespace Surroundings

def load (files : Surroundings) (path : String) : Except LoadError Trace :=
  match files.read path with
  | .ok document => Trace.load document
  | .error reason => .error (.unreadable reason)

/-- The summary of a trace file, or why it cannot be loaded. -/
def summary (files : Surroundings) (path : String) : List Piece :=
  match files.load path with
  | .ok trace => trace.summary path
  | .error error => Piece.errorLine (ProgramError.load path error).message

def summaries (files : Surroundings) (directory : String) (paths : List String) : Transcript :=
  if paths.isEmpty then .ofError (.noTraces directory) else ⟨paths.flatMap files.summary, none⟩

end Surroundings

/-- The method that an option selects. -/
def Trace.chosenMethod (trace : Trace) (text : String) : Except ProgramError Nat :=
  match trace.selectMethod text with
  | some index => .ok index
  | none => .error (.unknownMethod text)

/-- Dumps methods one after the other. -/
def Cursor.dumpAll (settings : RenderSettings) (cursor : Cursor) : List Nat → Transcript
  | [] => ⟨[], none⟩
  | method :: methods =>
    match cursor.dump settings method with
    | .error error => .ofError (.navigation error)
    | .ok script =>
      (script.last.dumpAll settings methods).after (script.scenes.flatMap Prod.snd)

/-- The view from a cursor, if there is one. -/
def viewFrom (settings : RenderSettings) : Except NavigationError Cursor → Transcript
  | .ok cursor => ⟨cursor.view settings, none⟩
  | .error error => .ofError (.navigation error)

namespace Options

/-- Shows a trace once: a dump, a step, a method, or else the summary. -/
def present (options : Options) (trace : Trace) (method : Option Nat) : Transcript :=
  let cursor := Cursor.start trace
  if options.dump then
    cursor.dumpAll options.settings
      (match method with
      | some method => [method]
      | none => List.range trace.methodCount)
  else
    match options.step, method with
    | some step, _ => viewFrom options.settings (cursor.jumpToStep (step - 1))
    | none, some method => viewFrom options.settings (cursor.jumpToMethod method)
    | none, none => ⟨trace.summary options.input, none⟩

def runOnce (options : Options) (files : Surroundings) : Transcript :=
  match files.load options.input with
  | .error error => .ofError (.load options.input error)
  | .ok trace =>
    match options.method with
    | none => options.present trace none
    | some text =>
      match trace.chosenMethod text with
      | .ok method => options.present trace (some method)
      | .error error => .ofError error

/-- The session that the interactive loop begins with, and what is printed before. -/
def openSession (options : Options) (read : Interactive.FileReader) :
    Session × List Piece × Option ProgramError :=
  let (session, report) := Interactive.loadFile read .new options.input
  match session.cursor, options.method with
  | some cursor, some text =>
    match cursor.trace.chosenMethod text with
    | .error error => (session, report, some error)
    | .ok method => ((session.perform (.method method)).1, report, none)
  | _, _ => (session, report, none)

def runInteractive (options : Options) (files : Surroundings) (input : Bytes) : Transcript :=
  match options.openSession files.read with
  | (_, report, some error) => ⟨report, some error⟩
  | (session, report, none) =>
    let (lines, broken) := Text.readableLines (Text.lines input)
    let conversation := Interactive.converse options.settings files.read session lines
    let error :=
      if broken ∧ ¬conversation.ended then
        some (ProgramError.io "stream did not contain valid UTF-8")
      else none
    ⟨report ++ Interactive.display options.settings session ++ conversation.printed, error⟩

/-- What a run prints. A directory is summarized whatever else is asked for. -/
def run (options : Options) (files : Surroundings) (input : Bytes) : Transcript :=
  match files.tracesBelow options.input with
  | some paths => files.summaries options.input paths
  | none =>
    if options.interactive then options.runInteractive files input else options.runOnce files

end Options

/-- What the program leaves behind: its exit code and its two outputs. -/
structure Outcome where
  exit : Nat
  stdout : Bytes
  stderr : Bytes
deriving DecidableEq, Inhabited

namespace Transcript

/-- Reports the error that ends a run on the output, or beside it if the output refuses. -/
def report (coloured : Bool) (output : Output) (printed : Bytes) : Option ProgramError → Outcome
  | none => ⟨0, printed, []⟩
  | some error =>
    let line := Piece.bytes coloured (Piece.errorLine error.message)
    if output.fits line then ⟨1, printed ++ line, []⟩
    else ⟨1, printed ++ output.accepted line, Utf8.encode (error.message ++ "\n")⟩

/-- Prints a transcript. An output that refuses a part of it is itself the error. -/
def deliver (transcript : Transcript) (coloured : Bool) (output : Output) : Outcome :=
  let bytes := Piece.bytes coloured transcript.printed
  let error := if output.fits bytes then transcript.error else some (.io output.refusal)
  report coloured (output.after bytes) (output.accepted bytes) error

end Transcript

def versionText : String := "Partial evaluator trace navigator 0.1.0\n"

def helpText : String :=
  "Step through the traces recorded by a JVM bytecode partial evaluator\n\n" ++
  "Arguments: [OPTIONS] <INPUT>\n\n" ++
  "  <INPUT>          trace file, or directory of `.json` trace files to summarize\n" ++
  "  --method VALUE   select a method by index or by name\n" ++
  "  --step STEP      show the step with this number\n" ++
  "  --dump           print every step of the selected method, or of all methods\n" ++
  "  -i, --interactive\n" ++
  "                   read navigation commands from standard input\n" ++
  "  --no-worklist    leave out the pending branch worklist\n" ++
  "  --nested         include subroutine sub-traces in a dump\n" ++
  "  --color WHEN     auto, always or never\n" ++
  "  --limit COUNT    print at most this many values of a list\n" ++
  "  -h, --help       print this help\n" ++
  "  -V, --version    print the version\n"

/-- What the program leaves behind for its arguments, the terminal's name and the wish for no colour
if they are set, the files around it, its input and an output. -/
def execute (arguments : List String) (terminal noColor : Option String) (files : Surroundings)
    (input : Bytes) (output : Output) : Outcome :=
  match CommandLine.parse arguments with
  | .run options =>
    (options.run files input).deliver (options.color.colours terminal noColor) output
  | .version => ⟨0, output.accepted (Utf8.encode versionText), []⟩
  | .help => ⟨0, output.accepted (Utf8.encode helpText), []⟩
  | .usageError => ⟨2, [], Utf8.encode helpText⟩

end TraceReplay
