import TraceReplay.Load
import TraceReplay.Interchange.Encode
import TraceReplay.Text.Basic

/-!
Files and directories around a working directory. Paths are plain: every directory on the way must
exist, also one that is left again. Opening a file is the only thing that fails; what is opened
for writing holds exactly what is written.
-/
namespace TraceReplay

inductive StorageError
  | notFound
  | alreadyExists
  | notDirectory
  | isDirectory
  | nameTooLong
  | nulInPath
deriving DecidableEq, Inhabited

def StorageError.message : StorageError → String
  | .notFound => "No such file or directory (os error 2)"
  | .alreadyExists => "File exists (os error 17)"
  | .notDirectory => "Not a directory (os error 20)"
  | .isDirectory => "Is a directory (os error 21)"
  | .nameTooLong => "File name too long (os error 36)"
  | .nulInPath => "file name contained an unexpected NUL byte"

/-- The names that lead from the working directory to a file or directory. Outside of it they begin
with the ways up, or with the slash of the root. -/
abbrev Location := List String

namespace Location

def root : Location := ["/"]

/-- Whether a location is the root, the working directory or one above it, which always exist. -/
def isGround (location : Location) : Bool := location == root || location.all (· == "..")

/-- The directory that a location lies in. The root lies in itself. -/
def parent (location : Location) : Location :=
  if location = root then root
  else if location.isGround then location ++ [".."]
  else location.dropLast

end Location

inductive Entry
  | file (content : Bytes)
  | directory
deriving DecidableEq, Inhabited

structure FileSystem where
  entries : List (Location × Entry)
deriving Inhabited

namespace FileSystem

def empty : FileSystem := ⟨[]⟩

def entry? (files : FileSystem) (location : Location) : Option Entry :=
  if location.isGround then some .directory else files.entries.lookup location

/-- Puts an entry in place of the one that was there. -/
def put (files : FileSystem) (location : Location) (entry : Entry) : FileSystem :=
  ⟨(location, entry) :: files.entries.filter (·.1 != location)⟩

/-- Goes from a place, which must be a directory, to what a name in it stands for. -/
def step (files : FileSystem) (location : Location) (name : String) :
    Except StorageError Location :=
  match files.entry? location with
  | none => .error .notFound
  | some (.file _) => .error .notDirectory
  | some .directory =>
    if name = "" ∨ name = "." then .ok location
    else if name = ".." then .ok location.parent
    else if 255 < name.utf8ByteSize then .error .nameTooLong
    else .ok (location ++ [name])

/-- Where a path begins. -/
def origin (path : String) : Location := if path.toList.head? = some '/' then .root else []

/-- The names in a path. -/
def names (path : String) : Except StorageError (List String) :=
  if path.toList.contains '\x00' then .error .nulInPath
  else if path = "" then .error .notFound
  else if 4096 ≤ path.utf8ByteSize then .error .nameTooLong
  else .ok (Text.split '/' path)

/-- What a path stands for, whether it exists or not. After a slash at the end it must be a
directory. -/
def resolve (files : FileSystem) (path : String) : Except StorageError Location := do
  (← names path).foldlM files.step (origin path)

def isDirectory (files : FileSystem) (path : String) : Bool :=
  match files.resolve path with
  | .ok location => files.entry? location = some .directory
  | .error _ => false

def read (files : FileSystem) (path : String) : Except StorageError Bytes := do
  match files.entry? (← files.resolve path) with
  | none => .error .notFound
  | some .directory => .error .isDirectory
  | some (.file content) => .ok content

/-- The place of a file that is opened for writing. A name with a slash behind it can only be that
of a directory, and is not looked up. -/
def target (files : FileSystem) (path : String) (overwrite : Bool) :
    Except StorageError Location := do
  let given ← names path
  let kept := (given.reverse.dropWhile (· == "")).reverse
  let last := kept.getLastD "."
  let parent ← files.step (← kept.dropLast.foldlM files.step (origin path)) "."
  if last ≠ "." ∧ last ≠ ".." ∧ kept.length < given.length then .error .isDirectory
  else
    let location ← files.step parent last
    match files.entry? location with
    | none => .ok location
    | some entry =>
      if overwrite then if entry = .directory then .error .isDirectory else .ok location
      else .error .alreadyExists

def write (files : FileSystem) (path : String) (overwrite : Bool) (content : Bytes) :
    Except StorageError FileSystem := do
  return files.put (← files.target path overwrite) (.file content)

/-- Goes along names from a place and makes the directories that are missing. Those made before a
failure stay. -/
def makeAlong (files : FileSystem) (location : Location) :
    List String → FileSystem × Except StorageError Location
  | [] => (files, .ok location)
  | name :: names =>
    match files.step location name with
    | .error error => (files, .error error)
    | .ok place =>
      let made := if files.entry? place = none then files.put place .directory else files
      made.makeAlong place names

/-- Makes a directory and those above it that are missing. -/
def makeDirectories (files : FileSystem) (path : String) : FileSystem × Option StorageError :=
  match names path with
  | .error error => (files, some error)
  | .ok given =>
    match files.makeAlong (origin path) given with
    | (files, .error error) => (files, some error)
    | (files, .ok location) =>
      (files, if files.entry? location = some .directory then none else some .alreadyExists)

/-- Puts a file in directories made for it. -/
def addFile (files : FileSystem) (path : String) (content : Bytes) :
    Except StorageError FileSystem := do
  let (files, _) := files.makeAlong (origin path) (← names path).dropLast
  files.write path true content

/-- Whether a location comes no later than another when each directory is listed by name and its
content stands in its place. -/
def listedBefore : Location → Location → Bool
  | [], _ => true
  | _ :: _, [] => false
  | a :: as, b :: bs => if a = b then listedBefore as bs else decide (a < b)

/-- The names that lead from a directory to the files in and below it, in listed order. -/
def filesBelow (files : FileSystem) (directory : Location) : List Location :=
  let below := files.entries.filterMap fun (location, entry) =>
    if entry != .directory && directory.isPrefixOf location then
      some (location.drop directory.length)
    else none
  below.mergeSort listedBefore

end FileSystem

namespace Trace

/-- Saves a trace in the pretty layout. -/
def save (trace : Trace) (files : FileSystem) (path : String) (overwrite : Bool) :
    Except StorageError FileSystem :=
  files.write path overwrite (Utf8.encode (trace.encode .pretty))

end Trace

/-- Loads the trace in a file. -/
def FileSystem.loadTrace (files : FileSystem) (path : String) : Except LoadError Trace :=
  match files.read path with
  | .ok document => Trace.load document
  | .error error => .error (.unreadable error.message)

end TraceReplay
