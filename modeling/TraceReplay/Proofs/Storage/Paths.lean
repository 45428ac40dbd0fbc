import Mathlib.Data.List.TakeWhile
import TraceReplay.Storage

/-!
What a path stands for, and where a file is put that is opened for writing. Every name on the way is taken
in a directory, and so is each way up, so a path that is opened ends in a name that stands for a file or for
nothing yet.
-/
namespace TraceReplay.FileSystem

variable {files after : FileSystem} {location place : Location} {entry : Entry} {path name : String}
  {given : List String} {overwrite : Bool} {content : Bytes}

theorem bind_eq_ok {ε α β : Type} {x : Except ε α} {f : α → Except ε β} {b : β} :
    (x >>= f) = .ok b ↔ ∃ a, x = .ok a ∧ f a = .ok b := by
  cases x with
  | ok a => exact ⟨fun done => ⟨a, rfl, done⟩, fun ⟨_, same, done⟩ => Except.ok.inj same ▸ done⟩
  | error e => exact ⟨fun done => (nomatch done), fun ⟨_, same, _⟩ => (nomatch same)⟩

section Entries

theorem entry?_of_isGround (ground : location.isGround) (files : FileSystem) :
    files.entry? location = some .directory := if_pos ground

theorem lookup_filter_ne {β : Type} (entries : List (Location × β)) (other : place ≠ location) :
    (entries.filter (·.1 != location)).lookup place = entries.lookup place := by
  induction entries with
  | nil => rfl
  | cons item entries ih =>
      obtain ⟨key, value⟩ := item
      rw [List.filter_cons, List.lookup_cons]
      by_cases removed : key = location
      · subst removed
        simp [ih, beq_false_of_ne other]
      · rw [if_pos (bne_iff_ne.mpr removed), List.lookup_cons, ih]

theorem entry?_put_self (onGround : ¬location.isGround) :
    entry? (files.put location entry) location = some entry := by
  unfold entry?
  rw [if_neg onGround, put, List.lookup_cons, beq_self_eq_true]

/-- What is at other places is not touched. -/
theorem entry?_put_of_ne (other : place ≠ location) :
    entry? (files.put location entry) place = files.entry? place := by
  unfold entry?
  rw [put, List.lookup_cons, beq_false_of_ne other, lookup_filter_ne _ other]

theorem put_put (files : FileSystem) (location : Location) (entry later : Entry) :
    (files.put location entry).put location later = files.put location later := by
  simp [put, List.filter_filter]

end Entries

section Steps

/-- Only a directory can be stepped from. An empty name and a dot stay there, and two dots go back up. -/
theorem step_eq_ok_iff :
    files.step location name = .ok place ↔ files.entry? location = some .directory ∧
      if name = "" ∨ name = "." then place = location
      else if name = ".." then place = location.parent
      else name.utf8ByteSize ≤ 255 ∧ place = location ++ [name] := by
  rw [step]
  cases files.entry? location with
  | none => simp
  | some entry =>
      cases entry with
      | file content => simp
      | directory =>
          dsimp only
          split
          case isTrue => simp [eq_comm]
          case isFalse =>
              split
              case isTrue => simp [eq_comm]
              case isFalse =>
                  split
                  case isTrue long => simp [Nat.not_le.mpr long]
                  case isFalse short => simp [Nat.le_of_not_lt short, eq_comm]

theorem step_dot_iff :
    files.step location "." = .ok place ↔
      files.entry? location = some .directory ∧ place = location := by
  rw [step_eq_ok_iff, if_pos (.inr rfl)]

/-- The way to a place: down from the ground, where each directory holds the next. -/
inductive Housed (files : FileSystem) : Location → Prop
  | ground {location : Location} : location.isGround → Housed files location
  | inside {location : Location} {name : String} :
      files.entry? location = some .directory → Housed files location →
      ¬Location.isGround (location ++ [name]) → Housed files (location ++ [name])

theorem isGround_parent (ground : location.isGround) : location.parent.isGround := by
  rw [Location.parent]
  split
  case isTrue => rfl
  case isFalse other =>
      have up : location.all (· == "..") := by
        simpa [Location.isGround, other] using ground
      rw [Location.isGround, List.all_append, up]
      simp

theorem parent_inside (onGround : ¬Location.isGround (location ++ [name])) :
    Location.parent (location ++ [name]) = location := by
  have notRoot : location ++ [name] ≠ Location.root := by
    intro root
    rw [root] at onGround
    exact onGround rfl
  rw [Location.parent, if_neg notRoot, if_neg onGround, List.dropLast_concat]

theorem Housed.parent (housed : Housed files location) : Housed files location.parent := by
  cases housed with
  | ground ground => exact .ground (isGround_parent ground)
  | inside _ housed onGround => rwa [parent_inside onGround]

theorem Housed.directory_parent (housed : Housed files location) :
    files.entry? location.parent = some .directory := by
  cases housed with
  | ground ground => exact entry?_of_isGround (isGround_parent ground) files
  | inside holds _ onGround => rwa [parent_inside onGround]

/-- No step leads to a place without a directory around it. -/
theorem Housed.step (housed : Housed files location) (steps : files.step location name = .ok place) :
    Housed files place := by
  obtain ⟨holds, stands⟩ := step_eq_ok_iff.mp steps
  split at stands
  case isTrue => exact stands ▸ housed
  case isFalse =>
      split at stands
      case isTrue => exact stands ▸ housed.parent
      case isFalse =>
          obtain ⟨_, rfl⟩ := stands
          by_cases ground : Location.isGround (location ++ [name])
          · exact .ground ground
          · exact .inside holds housed ground

theorem Housed.walk {names : List String} (housed : Housed files location)
    (walks : names.foldlM files.step location = .ok place) : Housed files place := by
  induction names generalizing location with
  | nil =>
      cases walks
      exact housed
  | cons name names ih =>
      rw [List.foldlM_cons, bind_eq_ok] at walks
      obtain ⟨next, steps, walks⟩ := walks
      exact ih (housed.step steps) walks

/-- A path begins at the root or at the working directory. -/
theorem housed_origin (files : FileSystem) (path : String) : Housed files (origin path) := by
  refine .ground ?_
  rw [origin]
  split <;> rfl

end Steps

section Opening

theorem resolve_eq_ok_iff :
    files.resolve path = .ok location ↔
      ∃ given, names path = .ok given ∧ given.foldlM files.step (origin path) = .ok location := by
  rw [resolve, bind_eq_ok]

/-- From a directory, a name that stands for no directory leads neither up nor to the same place. -/
theorem ne_of_step_of_free (housed : Housed files location)
    (holds : files.entry? location = some .directory) (steps : files.step location name = .ok place)
    (free : files.entry? place ≠ some .directory) : name ≠ ".." ∧ name ≠ "." := by
  obtain ⟨_, stands⟩ := step_eq_ok_iff.mp steps
  constructor
  · rintro rfl
    rw [if_neg (by decide), if_pos rfl] at stands
    exact free (stands ▸ housed.directory_parent)
  · rintro rfl
    rw [if_pos (.inr rfl)] at stands
    exact free (stands ▸ holds)

theorem kept_eq_of_length {kept : List String}
    (behind : (given.reverse.dropWhile (· == "")).reverse = kept) (all : given.length ≤ kept.length) :
    kept = given := by
  have suffix := List.dropWhile_suffix (l := given.reverse) (· == "")
  have same : given.reverse.dropWhile (· == "") = given.reverse := by
    refine suffix.eq_of_length (Nat.le_antisymm suffix.length_le ?_)
    rw [← behind, List.length_reverse] at all
    rwa [List.length_reverse]
  rw [← behind, same, List.reverse_reverse]

theorem append_of_getLastD {kept : List String} (final : kept.getLastD "." = name)
    (named : name ≠ ".") : ∃ front, kept = front ++ [name] := by
  rw [List.getLastD_eq_getLast?] at final
  cases ends : kept.getLast? with
  | none =>
      rw [ends] at final
      exact absurd final.symm named
  | some last =>
      rw [ends] at final
      cases final
      exact List.getLast?_eq_some_iff.mp ends

/-- Where a file may be opened for writing: nothing is there yet, or a file, with leave to overwrite it. -/
def Vacant (files : FileSystem) (overwrite : Bool) (location : Location) : Prop :=
  files.entry? location = none ∨
    overwrite = true ∧ ∃ content, files.entry? location = some (.file content)

theorem Vacant.ne_directory (vacant : files.Vacant overwrite location) :
    files.entry? location ≠ some .directory := by
  obtain missing | ⟨_, content, existing⟩ := vacant
  · simp [missing]
  · simp [existing]

/-- A file is opened in the directory that the names before the last one lead to, and the last one is its
name there: no way up, no way to stay, and no slash behind it. -/
theorem target_eq_ok (opens : files.target path overwrite = .ok location) :
    files.resolve path = .ok location ∧ files.Vacant overwrite location := by
  rw [target, bind_eq_ok] at opens
  obtain ⟨given, named, opens⟩ := opens
  dsimp only at opens
  generalize behind : (given.reverse.dropWhile (· == "")).reverse = kept at opens
  generalize final : kept.getLastD "." = last at opens
  rw [bind_eq_ok] at opens
  obtain ⟨stop, walks, opens⟩ := opens
  rw [bind_eq_ok] at opens
  obtain ⟨parent, stays, opens⟩ := opens
  obtain ⟨holds, rfl⟩ := step_dot_iff.mp stays
  by_cases slash : last ≠ "." ∧ last ≠ ".." ∧ kept.length < given.length
  · rw [if_pos slash] at opens
    cases opens
  rw [if_neg slash, bind_eq_ok] at opens
  obtain ⟨found, steps, opens⟩ := opens
  have isFree : found = location ∧ files.Vacant overwrite location := by
    cases existing : files.entry? found with
    | none =>
        rw [existing] at opens
        cases opens
        exact ⟨rfl, .inl existing⟩
    | some entry =>
        rw [existing] at opens
        cases entry with
        | directory => cases overwrite <;> cases opens
        | file content =>
            cases overwrite with
            | false => cases opens
            | true =>
                cases opens
                exact ⟨rfl, .inr ⟨rfl, content, existing⟩⟩
  obtain ⟨rfl, vacant⟩ := isFree
  refine ⟨?_, vacant⟩
  have housed : Housed files parent := (housed_origin files path).walk walks
  obtain ⟨notUp, notHere⟩ := ne_of_step_of_free housed holds steps vacant.ne_directory
  -- the path ends in its last name
  have noSlash : given.length ≤ kept.length := by
    by_contra shorter
    exact slash ⟨notHere, notUp, Nat.lt_of_not_le shorter⟩
  obtain rfl := kept_eq_of_length behind noSlash
  obtain ⟨front, rfl⟩ := append_of_getLastD final notHere
  rw [List.dropLast_concat] at walks
  refine resolve_eq_ok_iff.mpr ⟨_, named, ?_⟩
  rw [List.foldlM_append, bind_eq_ok]
  exact ⟨parent, walks, bind_eq_ok.mpr ⟨found, steps, rfl⟩⟩

end Opening

end TraceReplay.FileSystem
