import TraceReplay.Command
import TraceReplay.Proofs.Text.Words

/-!
The language of the prompt. A line says a command with one of its names and the arguments it takes: none, a number
or a path. White space is free around the words. How many arguments there are is checked once for all commands,
so one that takes none is understood with a surplus word behind its name as well.
-/
namespace TraceReplay

/-- The number that is typed for the first one. -/
def Quantity.first : Quantity → Nat
  | .methodIndex | .blockIndex => 0
  | .stepNumber => 1

def Quantity.move : Quantity → Nat → Move
  | .methodIndex => .method
  | .blockIndex => .block
  | .stepNumber => .step

namespace Command

def Request.names : Request → List String
  | .plain (.move .forward) => ["n", "next"]
  | .plain (.move .backward) => ["p", "prev"]
  | .number .methodIndex => ["m", "method"]
  | .number .blockIndex => ["b", "block"]
  | .number .stepNumber => ["s", "step"]
  | .plain (.move .enter) => ["enter"]
  | .plain (.move .leave) => ["leave"]
  | .plain (.move .reset) => ["r", "reset"]
  | .path => ["load"]
  | .plain .help => ["h", "help", "?"]
  | .plain .quit => ["q", "quit", "exit"]
  | .plain (.move _) | .plain (.load _) => []

/-- The arguments that go with a request, and the command they make of it. -/
inductive Request.Takes : Request → List String → Command → Prop
  | nothing {command : Command} : Takes (.plain command) [] command
  | number {quantity : Quantity} {text : String} {index : Nat} :
      Text.Spells text (quantity.first + index) → quantity.first + index < Text.wordLimit →
      Takes (.number quantity) [text] (.move (quantity.move index))
  | path {path : String} : Takes .path [path] (.load path)

/-- The words that say a command. -/
inductive Written : List String → Command → Prop
  | named {name : String} {arguments : List String} {request : Request} {command : Command} :
      name ∈ request.names → request.Takes arguments command → Written (name :: arguments) command

section Words

variable {name line : String} {arguments words : List String} {argument : Option String} {request : Request}
  {command : Command} {quantity : Quantity} {n : Nat}

theorem request?_of_mem : (request : Request) → ∀ name ∈ request.names, request? name = some request
  | .plain (.move .forward) | .plain (.move .backward) | .plain (.move .enter) | .plain (.move .leave)
  | .plain (.move .reset) | .plain .help | .plain .quit | .path
  | .number .methodIndex | .number .blockIndex | .number .stepNumber => by decide
  | .plain (.move (.method _)) | .plain (.move (.block _)) | .plain (.move (.step _)) | .plain (.load _) => nofun

/-- A name asks for the one thing that it is a name of. -/
theorem request?_eq_some_iff : request? name = some request ↔ name ∈ request.names := by
  refine ⟨fun asked => ?_, request?_of_mem request name⟩
  unfold request? at asked
  split at asked <;> cases asked <;> decide

theorem written_cons_iff :
    Written (name :: arguments) command ↔
      ∃ request, request? name = some request ∧ request.Takes arguments command := by
  simp only [request?_eq_some_iff]
  constructor
  · rintro ⟨named, takes⟩
    exact ⟨_, named, takes⟩
  · rintro ⟨request, named, takes⟩
    exact .named named takes

/-- Indices are typed from zero on, and steps from one on. -/
theorem ofNumber_eq_ok_iff :
    ofNumber quantity n = .ok command ↔
      ∃ index, quantity.first + index = n ∧ .move (quantity.move index) = command := by
  cases quantity with
  | methodIndex | blockIndex => simp [ofNumber, Quantity.first, Quantity.move]
  | stepNumber =>
      cases n with
      | zero => simp [ofNumber, Quantity.first]
      | succ n => simp [ofNumber, Quantity.first, Quantity.move, Nat.add_comm 1]

theorem ofRequest_number_iff {text : String} :
    ofRequest name (some text) (.number quantity) = .ok command ↔
      (Request.number quantity).Takes [text] command := by
  simp only [ofRequest]
  constructor
  · intro understood
    cases read : Text.number? text with
    | none =>
        rw [read] at understood
        cases understood
    | some n =>
        rw [read] at understood
        obtain ⟨spells, small⟩ := Text.number?_eq_some_iff.mp read
        obtain ⟨index, rfl, rfl⟩ := ofNumber_eq_ok_iff.mp understood
        exact .number spells small
  · rintro (_ | ⟨spells, small⟩)
    rw [Text.number?_eq_some_iff.mpr ⟨spells, small⟩]
    exact ofNumber_eq_ok_iff.mpr ⟨_, rfl, rfl⟩

/-- What is asked for takes the argument, or takes none and ignores it. -/
theorem ofRequest_eq_ok_iff :
    ofRequest name argument request = .ok command ↔
      request.Takes argument.toList command ∨ request.Takes [] command := by
  cases request with
  | plain asked =>
      constructor
      · rintro ⟨⟩
        exact .inr .nothing
      · generalize argument.toList = arguments
        rintro (takes | takes) <;> cases takes <;> rfl
  | path =>
      cases argument with
      | none => exact iff_of_false nofun (by rintro (takes | takes) <;> cases takes)
      | some path =>
          constructor
          · rintro ⟨⟩
            exact .inl .path
          · rintro (takes | takes) <;> cases takes
            rfl
  | number quantity =>
      cases argument with
      | none => exact iff_of_false nofun (by rintro (takes | takes) <;> cases takes)
      | some text => exact ofRequest_number_iff.trans (or_iff_left nofun).symm

theorem map_some_eq_ok_iff {result : Except CommandError Command} :
    result.map some = .ok (some command) ↔ result = .ok command := by
  cases result <;> simp [Except.map]

/-- A name with at most one argument behind it. -/
theorem parse_of_argument (argument : Option String) (found : Text.words line = name :: argument.toList) :
    parse line = .ok (some command) ↔
      Written (name :: argument.toList) command ∨ Written [name] command := by
  have few : ¬1 < argument.toList.length := by cases argument <;> simp
  have given : argument.toList.head? = argument := by cases argument <;> rfl
  simp only [parse, found, if_neg few, given, written_cons_iff, ← exists_or, ← and_or_left]
  cases asked : request? name with
  | none => simp
  | some request => simpa [map_some_eq_ok_iff] using ofRequest_eq_ok_iff

theorem parse_eq_ok_some_iff (found : Text.words line = words) :
    parse line = .ok (some command) ↔
      Written words command ∨ ∃ name surplus, words = [name, surplus] ∧ Written [name] command := by
  match words with
  | [] =>
      refine iff_of_false (by simp [parse, found]) ?_
      rintro (written | ⟨_, _, ⟨⟩, _⟩)
      cases written
  | [name] =>
      rw [parse_of_argument none found]
      simp
  | [name, argument] =>
      rw [parse_of_argument (some argument) found]
      simp
  | name :: _ :: _ :: _ =>
      refine iff_of_false (by simp [parse, found]) ?_
      rintro (⟨_, takes⟩ | ⟨_, _, ⟨⟩, _⟩)
      cases takes

theorem parse_eq_ok_none_iff : parse line = .ok none ↔ ∀ c ∈ line.toList, Text.isBlank c = true := by
  rw [← Text.words_eq_nil_iff, parse]
  split
  next none => exact iff_of_true rfl none
  next name arguments found =>
      refine iff_of_false (fun same => ?_) (by simp [found])
      split at same
      · cases same
      · split at same
        next request _ => cases made : ofRequest name arguments.head? request <;> simp [made, Except.map] at same
        next => cases same

end Words

/-- A line is understood as nothing just if it is blank, and as a command just if its words say that command, or
say a command without arguments and have one word more. White space has no other part in it. -/
theorem parse_exactly (line : String) :
    (parse line = .ok none ↔ ∀ c ∈ line.toList, Text.isBlank c = true) ∧
      (∀ command, parse line = .ok (some command) ↔ ∃ words, Text.Spaced line.toList words ∧
        (Written words command ∨ ∃ name surplus, words = [name, surplus] ∧ Written [name] command)) ∧
      ∀ other words, Text.Spaced line.toList words → Text.Spaced other.toList words →
        parse other = parse line := by
  refine ⟨parse_eq_ok_none_iff, fun command => ?_, fun other words spaced spaced' => ?_⟩
  · constructor
    · intro understood
      exact ⟨_, Text.words_eq_iff.mp rfl, (parse_eq_ok_some_iff rfl).mp understood⟩
    · rintro ⟨words, spaced, said⟩
      exact (parse_eq_ok_some_iff (Text.words_eq_iff.mpr spaced)).mpr said
  · rw [parse, parse, Text.words_eq_iff.mpr spaced, Text.words_eq_iff.mpr spaced']

/-- The largest number of a step, after a plus sign and with white space of several kinds around it. -/
theorem parse_exactly_last_step :
    parse "s +18446744073709551615" = .ok (some (.move (.step 18446744073709551614))) ∧
      parse "\u3000s\t\u00a0+18446744073709551615\u2003" =
        .ok (some (.move (.step 18446744073709551614))) := by
  obtain ⟨_, understood, spacing⟩ := parse_exactly "s +18446744073709551615"
  have spaced : Text.Spaced "s +18446744073709551615".toList ["s", "+18446744073709551615"] :=
    Text.words_eq_iff.mp rfl
  have spells : Text.Spells "+18446744073709551615" (Quantity.stepNumber.first + 18446744073709551614) :=
    (Text.number?_eq_some_iff.mp rfl).1
  have named : "s" ∈ (Request.number .stepNumber).names := by decide
  have said := (understood _).mpr ⟨_, spaced, .inl (.named named (.number spells (by decide)))⟩
  exact ⟨said, (spacing _ _ spaced (Text.words_eq_iff.mp rfl)).trans said⟩

/-- A surplus word goes unnoticed behind the name of a command that takes no argument. -/
theorem parse_surplus :
    parse "n 1" = .ok (some (.move .forward)) ∧
      ∀ words command, Text.Spaced "n 1".toList words → ¬Written words command := by
  refine ⟨rfl, fun words command spaced written => ?_⟩
  rw [← Text.words_eq_iff] at spaced
  subst spaced
  obtain ⟨request, asked, takes⟩ := written_cons_iff.mp (written : Written ["n", "1"] command)
  cases asked
  cases takes

end Command

end TraceReplay
