import TraceReplay.CommandLine
import TraceReplay.Proofs.Text.Number

/-!
A step or a method asked for among other arguments. Where it stands makes no difference: the other arguments
are read as they are without it, and what they ask for is then shown for that step or method.
-/
namespace TraceReplay

inductive Choice
  | step (k : Nat)
  | method (text : String)

def Options.choose (options : Options) : Choice → Options
  | .step k => { options with step := some k }
  | .method text => { options with method := some text }

def Options.Unchosen (options : Options) : Prop := options.step = none ∧ options.method = none

namespace CommandLine

namespace Given

def choose (given : Given) : Choice → Given
  | .step k => { given with step := some k }
  | .method text => { given with method := some text }

def Unchosen (given : Given) : Prop := given.step = none ∧ given.method = none

section Choosing

variable {given after : Given} {value : String} (choice : Choice)

theorem setInput_choose (set : given.setInput value = some after) (unchosen : after.Unchosen) :
    given.Unchosen ∧ (given.choose choice).setInput value = some (after.choose choice) := by
  obtain ⟨input, taken, rfl⟩ := Option.map_eq_some_iff.mp set
  refine ⟨unchosen, ?_⟩
  cases choice <;> exact Option.map_eq_some_iff.mpr ⟨input, taken, rfl⟩

theorem once_ne_none {α : Type} {given value : Option α} : once given value ≠ some none := by
  cases given <;> cases value <;> simp [once]

theorem setValue_choose {option : ValueOption} (set : given.setValue value option = some after)
    (unchosen : after.Unchosen) :
    given.Unchosen ∧ (given.choose choice).setValue value option = some (after.choose choice) := by
  cases option with
  | limit | color =>
      obtain ⟨_, taken, rfl⟩ := Option.map_eq_some_iff.mp set
      refine ⟨unchosen, ?_⟩
      cases choice <;> exact Option.map_eq_some_iff.mpr ⟨_, taken, rfl⟩
  | step =>
      obtain ⟨_, taken, rfl⟩ := Option.map_eq_some_iff.mp set
      cases unchosen.1
      exact absurd taken once_ne_none
  | method =>
      obtain ⟨_, taken, rfl⟩ := Option.map_eq_some_iff.mp set
      cases unchosen.2
      exact absurd taken once_ne_none

theorem setFlag_choose {flag : Flag} (set : given.setFlag flag = .ok after)
    (unchosen : after.Unchosen) :
    given.Unchosen ∧ (given.choose choice).setFlag flag = .ok (after.choose choice) := by
  cases flag with
  | version | help => cases set
  | dump | interactive | noWorklist | nested =>
      rw [setFlag] at set
      split at set
      case isTrue => cases set
      case isFalse unset =>
          cases set
          refine ⟨unchosen, ?_⟩
          cases choice <;> exact if_neg unset

theorem setShortFlags_choose {letters : List Char} (set : given.setShortFlags letters = .ok after)
    (unchosen : after.Unchosen) :
    given.Unchosen ∧ (given.choose choice).setShortFlags letters = .ok (after.choose choice) := by
  induction letters generalizing given with
  | nil =>
      cases set
      exact ⟨unchosen, rfl⟩
  | cons c letters ih =>
      rw [setShortFlags] at set
      cases known : shortFlag? c with
      | none => simp [known] at set
      | some flag =>
          cases taken : given.setFlag flag with
          | error invocation => simp [known, taken] at set
          | ok between =>
              simp only [known, taken] at set
              obtain ⟨unchosen', others⟩ := ih set
              obtain ⟨unchosen'', first⟩ := setFlag_choose choice taken unchosen'
              refine ⟨unchosen'', ?_⟩
              rw [setShortFlags]
              simp only [known, first, others]

/-- A flag that ends the reading asks for no run. -/
theorem setFlag_ne_run {flag : Flag} {invocation : Invocation} {options : Options}
    (ends : given.setFlag flag = .error invocation) : invocation ≠ .run options := by
  rintro rfl
  cases flag with
  | version | help => cases ends
  | dump | interactive | noWorklist | nested =>
      rw [setFlag] at ends
      split at ends <;> cases ends

theorem setShortFlags_ne_run {letters : List Char} {invocation : Invocation} {options : Options}
    (ends : given.setShortFlags letters = .error invocation) : invocation ≠ .run options := by
  induction letters generalizing given with
  | nil => cases ends
  | cons c letters ih =>
      rw [setShortFlags] at ends
      split at ends
      case h_1 =>
          cases ends
          nofun
      case h_2 flag _ =>
          split at ends
          case h_1 => exact ih ends
          case h_2 invocation taken =>
              cases ends
              exact setFlag_ne_run taken

theorem invocation_choose {options : Options} (ran : given.invocation = .run options)
    (unchosen : options.Unchosen) :
    given.Unchosen ∧ (given.choose choice).invocation = .run (options.choose choice) := by
  rw [invocation] at ran
  split at ran
  case h_1 => cases ran
  case h_2 input named =>
      split at ran
      case isTrue => cases ran
      case isFalse =>
          cases ran
          obtain ⟨noStep, noMethod⟩ := unchosen
          refine ⟨⟨noStep, noMethod⟩, ?_⟩
          cases choice <;> simp_all [invocation, choose, Options.choose]

end Choosing

end Given

open Given

section Reading

variable {given : Given} {options : Options} (choice : Choice)

theorem inputsFrom_choose {texts : List String} (ran : inputsFrom given texts = .run options)
    (unchosen : options.Unchosen) :
    given.Unchosen ∧ inputsFrom (given.choose choice) texts = .run (options.choose choice) := by
  induction texts generalizing given with
  | nil => exact invocation_choose choice ran unchosen
  | cons text texts ih =>
      rw [inputsFrom] at ran
      cases taken : given.setInput text with
      | none => simp [taken] at ran
      | some between =>
          simp only [taken] at ran
          obtain ⟨unchosen', others⟩ := ih ran
          obtain ⟨unchosen'', first⟩ := setInput_choose choice taken unchosen'
          refine ⟨unchosen'', ?_⟩
          rw [inputsFrom]
          simp only [first, others]

/-- With a choice made before them, arguments that make none themselves are read as they are without it. -/
theorem parseFrom_choose {awaiting : Option ValueOption} {texts : List String}
    (ran : parseFrom given awaiting texts = .run options) (unchosen : options.Unchosen) :
    given.Unchosen ∧ parseFrom (given.choose choice) awaiting texts = .run (options.choose choice) := by
  fun_induction parseFrom given awaiting texts with
  | case1 | case4 | case5 | case8 | case13 | case16 => cases ran
  | case2 given awaiting ends =>
      obtain ⟨unchosen', asked⟩ := invocation_choose choice ran unchosen
      rw [parseFrom, if_neg ends]
      exact ⟨unchosen', asked⟩
  | case3 given text texts option value plain between taken ih =>
      obtain ⟨unchosen', others⟩ := ih ran
      obtain ⟨unchosen'', first⟩ := setValue_choose choice taken unchosen'
      simp only [parseFrom, plain, first]
      exact ⟨unchosen'', others⟩
  | case6 given text texts separates =>
      obtain ⟨unchosen', others⟩ := inputsFrom_choose choice ran unchosen
      simp only [parseFrom, separates]
      exact ⟨unchosen', others⟩
  | case7 given text texts value plain between taken ih =>
      obtain ⟨unchosen', others⟩ := ih ran
      obtain ⟨unchosen'', first⟩ := setInput_choose choice taken unchosen'
      simp only [parseFrom, plain, first]
      exact ⟨unchosen'', others⟩
  | case9 given text texts letters short between taken ih =>
      obtain ⟨unchosen', others⟩ := ih ran
      obtain ⟨unchosen'', first⟩ := setShortFlags_choose choice taken unchosen'
      simp only [parseFrom, short, first]
      exact ⟨unchosen'', others⟩
  | case10 given text texts letters _ invocation taken => exact absurd ran (setShortFlags_ne_run taken)
  | case11 given text texts name option known long ih =>
      obtain ⟨unchosen', others⟩ := ih ran
      simp only [parseFrom, long, known]
      exact ⟨unchosen', others⟩
  | case12 given text texts name option value known between taken long ih =>
      obtain ⟨unchosen', others⟩ := ih ran
      obtain ⟨unchosen'', first⟩ := setValue_choose choice taken unchosen'
      simp only [parseFrom, long, known, first]
      exact ⟨unchosen'', others⟩
  | case14 given text texts name flag known noValue between taken long ih =>
      obtain ⟨unchosen', others⟩ := ih ran
      obtain ⟨unchosen'', first⟩ := setFlag_choose choice taken unchosen'
      simp only [parseFrom, long, known, noValue, first]
      exact ⟨unchosen'', others⟩
  | case15 given text texts name flag _ _ invocation taken => exact absurd ran (setFlag_ne_run taken)

end Reading

/-- Arguments that ask for a run, with a place among them where an option can stand: those before it are
read to their end, so none of them waits for its value and no two dashes alone are among them. -/
structure Splits (before after : List String) (options : Options) : Prop where
  complete : ∃ given, ∀ rest, parse (before ++ rest) = parseFrom given none rest
  parsed : parse (before ++ after) = .run options

section Placing

variable {before after : List String} {options : Options} {text : String} {n : Nat}

theorem argument_of_spells (spells : Text.Spells text n) : argument text = .plain text := by
  have noDash : '-' ∉ text.toList := spells.all_ne (by decide) (by decide)
  rw [argument]
  split
  case h_5 => rfl
  all_goals simp_all

/-- A number within bounds becomes the step that is chosen. -/
theorem Splits.parse_step (splits : Splits before after options) (unchosen : options.Unchosen)
    (spells : Text.Spells text n) (positive : 0 < n) (small : n < Text.wordLimit) :
    parse (before ++ "--step" :: text :: after) = .run (options.choose (.step n)) := by
  obtain ⟨given, complete⟩ := splits.complete
  have long : argument "--step" = .long "step" none := rfl
  have ran := splits.parsed
  rw [complete] at ran ⊢
  obtain ⟨unchosen', chosen⟩ := parseFrom_choose (.step n) ran unchosen
  have reads : (Text.number? text).filter (0 < ·) = some n := by
    rw [Text.number?_eq_some_iff.mpr ⟨spells, small⟩, Option.filter_some,
      if_pos (decide_eq_true positive)]
  have taken : given.setValue text .step = some (given.choose (.step n)) := by
    rw [Given.setValue, reads, unchosen'.1]
    rfl
  simp only [parseFrom, long, valueOption?, argument_of_spells spells, taken, chosen]

/-- A number that no word holds is no step. -/
theorem Splits.parse_step_large (splits : Splits before after options)
    (spells : Text.Spells text n) (large : Text.wordLimit ≤ n) :
    parse (before ++ "--step" :: text :: after) = .usageError := by
  obtain ⟨given, complete⟩ := splits.complete
  have long : argument "--step" = .long "step" none := rfl
  have unread : Text.number? text = none := by
    rw [Text.number?_of_spells spells, if_neg (Nat.not_lt.mpr large)]
  have refused : given.setValue text .step = none := by
    cases step : given.step <;> simp [Given.setValue, unread, step, once]
  rw [complete]
  simp only [parseFrom, long, valueOption?, argument_of_spells spells, refused]

/-- The value of an option may be any text that is no option itself. -/
theorem Splits.parse_method (splits : Splits before after options) (unchosen : options.Unchosen)
    (plain : argument text = .plain text) :
    parse (before ++ "--method" :: text :: after) = .run (options.choose (.method text)) := by
  obtain ⟨given, complete⟩ := splits.complete
  have long : argument "--method" = .long "method" none := rfl
  have ran := splits.parsed
  rw [complete] at ran ⊢
  obtain ⟨unchosen', chosen⟩ := parseFrom_choose (.method text) ran unchosen
  have taken : given.setValue text .method = some (given.choose (.method text)) := by
    rw [Given.setValue, unchosen'.2]
    rfl
  simp only [parseFrom, long, valueOption?, plain, taken, chosen]

end Placing

end CommandLine

end TraceReplay
