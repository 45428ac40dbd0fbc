import TraceReplay.Proofs.Storage.Paths
import TraceReplay.Proofs.Trace.WellFormed

/-!
Saving a trace. A save that fails changes nothing, and one that succeeds changes the one file that its path
stands for; the trace loads from there until something else is written there. Directories never go away, so
what happens elsewhere changes neither what the path stands for nor what is there.
-/
namespace TraceReplay

/-- What may be done to files between a save and a load. -/
inductive FileAction
  | save (trace : Trace) (path : String) (overwrite : Bool)
  | write (path : String) (content : Bytes)
  | makeDirectories (path : String)
  | load (path : String)

namespace FileSystem

def perform (files : FileSystem) : FileAction → FileSystem
  | .save trace path overwrite => (trace.save files path overwrite).toOption.getD files
  | .write path content => (files.write path true content).toOption.getD files
  | .makeDirectories path => (files.makeDirectories path).1
  | .load _ => files

def run (files : FileSystem) (actions : List FileAction) : FileSystem := actions.foldl perform files

def written? (files : FileSystem) : FileAction → Option Location
  | .save _ path overwrite => (files.target path overwrite).toOption
  | .write path _ => (files.target path true).toOption
  | .makeDirectories _ | .load _ => none

/-- None of the actions writes the file at the location. -/
def Spares (location : Location) (files : FileSystem) : List FileAction → Prop
  | [] => True
  | action :: actions =>
    files.written? action ≠ some location ∧ Spares location (files.perform action) actions

instance decidableSpares (location : Location) :
    (files : FileSystem) → (actions : List FileAction) → Decidable (Spares location files actions)
  | _, [] => isTrue trivial
  | files, action :: actions =>
    have := decidableSpares location (files.perform action) actions
    inferInstanceAs (Decidable (_ ∧ _))

def KeepsDirectories (files after : FileSystem) : Prop :=
  ∀ place, files.entry? place = some .directory → after.entry? place = some .directory

/-- Every directory and what is at the location are still there. -/
structure Keeps (location : Location) (files after : FileSystem) : Prop where
  directories : KeepsDirectories files after
  entry : ∀ entry, files.entry? location = some entry → after.entry? location = some entry

section Keeping

variable {files after later : FileSystem} {location place start : Location} {entry : Entry}
  {path : String} {overwrite : Bool} {content : Bytes}

theorem Keeps.refl (location : Location) (files : FileSystem) : Keeps location files files :=
  ⟨fun _ => id, fun _ => id⟩

theorem Keeps.trans (keeps : Keeps location files after) (keeps' : Keeps location after later) :
    Keeps location files later where
  directories place holds := keeps'.directories place (keeps.directories place holds)
  entry found there := keeps'.entry found (keeps.entry found there)

/-- On the way to what exists there are only directories, so the way stays. -/
theorem KeepsDirectories.walk (keeps : KeepsDirectories files after) {names : List String}
    (walks : names.foldlM files.step start = .ok place) :
    names.foldlM after.step start = .ok place := by
  induction names generalizing start with
  | nil => exact walks
  | cons name names ih =>
      rw [List.foldlM_cons, bind_eq_ok] at walks ⊢
      obtain ⟨next, steps, walks⟩ := walks
      obtain ⟨holds, stands⟩ := step_eq_ok_iff.mp steps
      exact ⟨next, step_eq_ok_iff.mpr ⟨keeps start holds, stands⟩, ih walks⟩

theorem KeepsDirectories.resolve (keeps : KeepsDirectories files after)
    (resolves : files.resolve path = .ok place) : after.resolve path = .ok place := by
  obtain ⟨given, named, walks⟩ := resolve_eq_ok_iff.mp resolves
  exact resolve_eq_ok_iff.mpr ⟨given, named, keeps.walk walks⟩

theorem read_eq_ok_iff :
    files.read path = .ok content ↔
      ∃ place, files.resolve path = .ok place ∧ files.entry? place = some (.file content) := by
  rw [read, bind_eq_ok]
  refine exists_congr fun place => and_congr_right fun _ => ?_
  cases files.entry? place with
  | none => simp
  | some entry => cases entry <;> simp

theorem Keeps.read (keeps : Keeps location files after) (resolves : files.resolve path = .ok location)
    (holds : files.entry? location = some (.file content)) : after.read path = .ok content :=
  read_eq_ok_iff.mpr ⟨location, keeps.directories.resolve resolves, keeps.entry _ holds⟩

/-- What is put where no directory is leaves all directories there. -/
theorem keepsDirectories_put (free : files.entry? place ≠ some .directory) :
    KeepsDirectories files (files.put place entry) := by
  intro kept holds
  have elsewhere : kept ≠ place := by
    rintro rfl
    exact free holds
  rwa [entry?_put_of_ne elsewhere]

theorem write_eq_ok_iff :
    files.write path overwrite content = .ok after ↔
      ∃ place, files.target path overwrite = .ok place ∧ files.put place (.file content) = after := by
  rw [write, bind_eq_ok]
  exact exists_congr fun place => and_congr_right fun _ => ⟨Except.ok.inj, congrArg Except.ok⟩

theorem free_of_target (opens : files.target path overwrite = .ok place) :
    files.entry? place ≠ some .directory := (target_eq_ok opens).2.ne_directory

theorem keeps_write (spares : (files.target path overwrite).toOption ≠ some location) :
    Keeps location files ((files.write path overwrite content).toOption.getD files) := by
  cases writes : files.write path overwrite content with
  | error error => exact .refl location files
  | ok after =>
      obtain ⟨place, opens, rfl⟩ := write_eq_ok_iff.mp writes
      have elsewhere : location ≠ place := by
        rintro rfl
        exact spares (by rw [opens]; rfl)
      exact ⟨keepsDirectories_put (free_of_target opens), fun entry there => by
        rwa [Except.toOption, Option.getD_some, entry?_put_of_ne elsewhere]⟩

/-- Directories are made only where there was nothing. -/
theorem entry?_makeAlong (names : List String) (there : files.entry? place = some entry) :
    entry? (files.makeAlong start names).1 place = some entry := by
  induction names generalizing files start with
  | nil => exact there
  | cons name names ih =>
      rw [makeAlong]
      split
      · exact there
      next next _ =>
          refine ih ?_
          split
          next missing =>
              have elsewhere : place ≠ next := by
                rintro rfl
                cases missing.symm.trans there
              rwa [entry?_put_of_ne elsewhere]
          next => exact there

theorem entry?_makeDirectories (path : String) (there : files.entry? place = some entry) :
    entry? (files.makeDirectories path).1 place = some entry := by
  rw [makeDirectories]
  cases names path with
  | error error => exact there
  | ok given =>
      have stays : entry? (files.makeAlong (origin path) given).1 place = some entry :=
        entry?_makeAlong given there
      dsimp only
      generalize files.makeAlong (origin path) given = made at stays ⊢
      obtain ⟨made, result⟩ := made
      cases result <;> exact stays

theorem keeps_perform {action : FileAction} (spares : files.written? action ≠ some location) :
    Keeps location files (files.perform action) := by
  cases action with
  | save => exact keeps_write spares
  | write => exact keeps_write spares
  | makeDirectories path =>
      exact ⟨fun _ => entry?_makeDirectories path, fun _ => entry?_makeDirectories path⟩
  | load => exact .refl location files

theorem keeps_run {actions : List FileAction} (spares : Spares location files actions) :
    Keeps location files (files.run actions) := by
  induction actions generalizing files with
  | nil => exact .refl location files
  | cons action actions ih => exact (keeps_perform spares.1).trans (ih spares.2)

end Keeping

section Parts

variable {files after : FileSystem} {location place : Location} {path : String} {overwrite : Bool}
  {content : Bytes}

def append (files : FileSystem) (location : Location) (bytes : Bytes) : FileSystem :=
  match files.entry? location with
  | some (.file content) => files.put location (.file (content ++ bytes))
  | _ => files

/-- Opens a file, which empties it, and then writes to it part by part. -/
def writeParts (files : FileSystem) (path : String) (overwrite : Bool) (parts : List Bytes) :
    FileSystem × Option StorageError :=
  match files.target path overwrite with
  | .error error => (files, some error)
  | .ok location => (parts.foldl (·.append location ·) (files.put location (.file [])), none)

theorem append_put (onGround : ¬location.isGround) (files : FileSystem) (content bytes : Bytes) :
    (files.put location (.file content)).append location bytes =
      files.put location (.file (content ++ bytes)) := by
  rw [append, entry?_put_self onGround]
  exact put_put files location _ _

theorem foldl_append_put (onGround : ¬location.isGround) (files : FileSystem) (content : Bytes)
    (parts : List Bytes) :
    parts.foldl (·.append location ·) (files.put location (.file content)) =
      files.put location (.file (content ++ parts.flatten)) := by
  induction parts generalizing content with
  | nil => rw [List.flatten_nil, List.append_nil, List.foldl_nil]
  | cons part parts ih =>
      rw [List.foldl_cons, append_put onGround, ih, List.flatten_cons, List.append_assoc]

theorem not_isGround_of_free (free : files.entry? location ≠ some .directory) : ¬location.isGround :=
  fun ground => free (entry?_of_isGround ground files)

/-- However it is parted, a file ends up with the whole of what is written. -/
theorem writeParts_eq (files : FileSystem) (path : String) (overwrite : Bool) (parts : List Bytes) :
    files.writeParts path overwrite parts =
      match files.write path overwrite parts.flatten with
      | .ok after => (after, none)
      | .error error => (files, some error) := by
  rw [writeParts, write]
  cases opens : files.target path overwrite with
  | error error => rfl
  | ok location =>
      have onGround := not_isGround_of_free (free_of_target opens)
      exact congrArg (·, none) (foldl_append_put onGround files [] parts)

end Parts

def Holds (files : FileSystem) (path : String) : Prop :=
  ∃ location entry, files.resolve path = .ok location ∧ files.entry? location = some entry

section Saving

variable {files after : FileSystem} {location : Location} {path : String} {overwrite : Bool}
  {content : Bytes} {trace : Trace}

/-- Without leave to overwrite, nothing is opened that is there. -/
theorem target_of_holds (holds : files.Holds path) : ∃ error, files.target path false = .error error := by
  obtain ⟨location, entry, resolves, there⟩ := holds
  cases opens : files.target path false with
  | error error => exact ⟨error, rfl⟩
  | ok place =>
      obtain ⟨resolves', missing | ⟨leave, _⟩⟩ := target_eq_ok opens
      · cases resolves.symm.trans resolves'
        cases missing.symm.trans there
      · cases leave

/-- What a write leaves behind. -/
theorem written (writes : files.write path overwrite content = .ok after) :
    ∃ location, files.resolve path = .ok location ∧ after.resolve path = .ok location ∧
      after.entry? location = some (.file content) ∧
      ∀ other, other ≠ location → after.entry? other = files.entry? other := by
  obtain ⟨location, opens, rfl⟩ := write_eq_ok_iff.mp writes
  have free := free_of_target opens
  obtain ⟨resolves, _⟩ := target_eq_ok opens
  have keeps : KeepsDirectories files (files.put location (.file content)) := keepsDirectories_put free
  exact ⟨location, resolves, keeps.resolve resolves, entry?_put_self (not_isGround_of_free free),
    fun other elsewhere => entry?_put_of_ne elsewhere⟩

theorem loadTrace_of_read (wellFormed : trace.WellFormed)
    (reads : files.read path = .ok (Utf8.encode (trace.encode .pretty))) :
    files.loadTrace path = .ok trace := by
  rw [loadTrace, reads]
  dsimp only
  rw [Trace.load_encode_eq_checked]
  exact Trace.checked_eq_ok_iff.mpr ⟨rfl, Trace.misfit?_eq_none_iff.mpr wellFormed⟩

/-- What is read elsewhere is read again after a write. -/
theorem read_of_written {before : Bytes} {other : String} (reads : files.read other = .ok before)
    (writes : files.write path overwrite content = .ok after) (resolves : files.resolve path = .ok location)
    (elsewhere : files.resolve other ≠ .ok location) : after.read other = .ok before := by
  obtain ⟨place, opens, rfl⟩ := write_eq_ok_iff.mp writes
  cases (target_eq_ok opens).1.symm.trans resolves
  obtain ⟨found, resolves', there⟩ := read_eq_ok_iff.mp reads
  have apart : found ≠ location := by
    rintro rfl
    exact elsewhere resolves'
  refine read_eq_ok_iff.mpr ⟨found, ?_, by rwa [entry?_put_of_ne apart]⟩
  exact (keepsDirectories_put (free_of_target opens)).resolve resolves'

end Saving

end FileSystem

namespace Trace

open FileSystem

/-- Without leave to overwrite, a save to what is there fails. A save that fails changes no file, and one
that succeeds no file but its own, in which the trace then is until something else is written there. The
document may be handed over in any parts. -/
theorem save_safe_and_faithful {trace : Trace} (wellFormed : trace.WellFormed) (files : FileSystem)
    (path : String) (overwrite : Bool) :
    (overwrite = false → files.Holds path →
      ∃ error, trace.save files path overwrite = .error error) ∧
      (∀ parts : List Bytes, parts.flatten = Utf8.encode (trace.encode .pretty) →
        (∀ error, trace.save files path overwrite = .error error →
          files.writeParts path overwrite parts = (files, some error)) ∧
        ∀ after, trace.save files path overwrite = .ok after →
          files.writeParts path overwrite parts = (after, none)) ∧
      ∀ after, trace.save files path overwrite = .ok after →
        ∃ location, files.resolve path = .ok location ∧
          (∀ other, other ≠ location → after.entry? other = files.entry? other) ∧
          (∀ other content, files.read other = .ok content →
            files.resolve other ≠ .ok location → after.read other = .ok content) ∧
          ∀ actions, after.Spares location actions →
            (after.run actions).loadTrace path = .ok trace := by
  refine ⟨?refused, ?parted, ?saved⟩
  case refused =>
    rintro rfl holds
    obtain ⟨error, refuses⟩ := target_of_holds holds
    exact ⟨error, by rw [save, FileSystem.write, refuses]; rfl⟩
  case parted =>
    intro parts whole
    rw [writeParts_eq, whole]
    constructor
    · intro error fails
      rw [save] at fails
      rw [fails]
    · intro after saves
      rw [save] at saves
      rw [saves]
  case saved =>
    intro after saves
    obtain ⟨location, resolves, resolves', there, others⟩ := written saves
    refine ⟨location, resolves, others, fun other content reads elsewhere =>
      read_of_written reads saves resolves elsewhere, fun actions spares => ?_⟩
    exact loadTrace_of_read wellFormed ((keeps_run spares).read resolves' there)

/-- A short document in place of a long one, and then a save that is refused, one to another file, a file
taken for a directory and a file outside. -/
theorem save_safe_and_faithful_shorter :
    let long := extremeTrace 7
    let short : Trace := ⟨[⟨"A", "m()V", [], [], none, []⟩]⟩
    let files := FileSystem.empty.run [.makeDirectories "d", .save long "d/t.json" false]
    let after := files.put ["d", "t.json"] (.file (Utf8.encode (short.encode .pretty)))
    let actions : List FileAction := [.save long "d/t.json" false, .save long "./d/u.json" false,
      .makeDirectories "d/t.json/x", .write "d/../../e.json" [0], .load "d/t.json"]
    short.WellFormed ∧ files.Holds "d/t.json" ∧
      (∃ error, short.save files "d/t.json" false = .error error) ∧
      short.save files "d/t.json" true = .ok after ∧ after.Spares ["d", "t.json"] actions ∧
      (after.run actions).loadTrace "d/t.json" = .ok short := by
  intro long short files after actions
  have wellFormed : short.WellFormed := misfit?_eq_none_iff.mp rfl
  have holds : files.Holds "d/t.json" := ⟨["d", "t.json"], _, rfl, rfl⟩
  have saves : short.save files "d/t.json" true = .ok after := rfl
  have spares : after.Spares ["d", "t.json"] actions := by decide +kernel
  obtain ⟨refused, _⟩ := save_safe_and_faithful wellFormed files "d/t.json" false
  obtain ⟨_, _, saved⟩ := save_safe_and_faithful wellFormed files "d/t.json" true
  obtain ⟨location, resolves, _, _, loads⟩ := saved after saves
  have place : files.resolve "d/t.json" = .ok ["d", "t.json"] := rfl
  cases resolves.symm.trans place
  exact ⟨wellFormed, holds, refused rfl holds, saves, spares, loads actions spares⟩

end Trace

end TraceReplay
