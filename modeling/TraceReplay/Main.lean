import TraceReplay.Program

/-!
The command line. It reads the files and the input that a run asks for and prints what comes of it.
-/
open TraceReplay

/-- Why a file cannot be read, in the words used for stored files where there are such. -/
def readFailure : IO.Error → String
  | .noFileOrDirectory .. => StorageError.notFound.message
  | .inappropriateType .. => StorageError.isDirectory.message
  | error => toString error

def readFile (path : String) : IO (Except String Bytes) := do
  try
    let content ← IO.FS.readBinFile path
    return .ok content.toList
  catch error => return .error (readFailure error)

def isDirectory (path : String) : IO Bool := do
  try
    return (← (← IO.FS.realPath path).isDir)
  catch _ => return false

/-- The files in and below a directory, each with its bytes. -/
partial def snapshot (files : FileSystem) (path : String) (location : Location) :
    IO FileSystem := do
  let mut files := files
  for entry in ← (← IO.FS.realPath path).readDir do
    let below := path ++ "/" ++ entry.fileName
    let place := location ++ [entry.fileName]
    if ← isDirectory below then
      files ← snapshot (files.put place .directory) below place
    else if isTraceName entry.fileName then
      match ← readFile below with
      | .ok content => files := files.put place (.file content)
      | .error _ => pure ()
  return files

/-- Answers lines as they come. -/
partial def converse (settings : RenderSettings) (coloured : Bool) (session : Session) :
    IO (Option ProgramError) := do
  let line ← (← IO.getStdin).getLine
  if line.isEmpty then return none
  let text := line.trimAsciiEnd.toString
  let content ←
    match Command.parse text with
    | .ok (some (.load path)) => readFile path
    | _ => pure (.error "")
  match Interactive.respond settings (fun _ => content) session text with
  | none => return none
  | some (session, answer) =>
    let stdout ← IO.getStdout
    stdout.write (Piece.bytes coloured answer).toByteArray
    stdout.flush
    converse settings coloured session

def finish (outcome : Outcome) : IO UInt32 := do
  (← IO.getStdout).write outcome.stdout.toByteArray
  (← IO.getStderr).write outcome.stderr.toByteArray
  return outcome.exit.toUInt32

def runWith (options : Options) : IO UInt32 := do
  let coloured := options.color.colours (← IO.getEnv "TERM") (← IO.getEnv "NO_COLOR")
  let output : Output := ⟨none, ""⟩
  if ← isDirectory options.input then
    let files ← snapshot .empty options.input []
    let paths := (files.tracesBelow ".").getD []
    let shown (path : String) : String := joinPath options.input [(path.drop 2).toString]
    let around : Surroundings :=
      { read := fun path =>
          match paths.find? fun inner => shown inner == path with
          | some inner => files.surroundings.read inner
          | none => .error StorageError.notFound.message
        tracesBelow := fun _ => some (paths.map shown) }
    finish ((options.run around []).deliver coloured output)
  else
    let content ← readFile options.input
    let around : Surroundings := { read := fun _ => content, tracesBelow := fun _ => none }
    if options.interactive then
      match options.openSession around.read with
      | (_, report, some error) =>
        finish ((Transcript.mk report (some error)).deliver coloured output)
      | (session, report, none) =>
        let first := report ++ Interactive.display options.settings session
        (← IO.getStdout).write (Piece.bytes coloured first).toByteArray
        (← IO.getStdout).flush
        let error ← converse options.settings coloured session
        finish ((Transcript.mk [] error).deliver coloured output)
    else finish ((options.run around []).deliver coloured output)

def main (arguments : List String) : IO UInt32 := do
  match CommandLine.parse arguments with
  | .run options => runWith options
  | .version =>
    IO.print versionText
    return 0
  | .help =>
    IO.print helpText
    return 0
  | .usageError =>
    IO.eprint helpText
    return 2
