import TraceReplay.Render.Piece
import TraceReplay.Text.Basic

/-!
The arguments of the program: options with a value, flags, and exactly one input. Options may stand
on either side of the input, in any order, each once.
-/
namespace TraceReplay

structure Options where
  input : String
  /-- A method, by index or by name. -/
  method : Option String
  /-- A step, counted from one. -/
  step : Option Nat
  limit : Option Nat
  color : ColorChoice
  dump : Bool
  interactive : Bool
  noWorklist : Bool
  nested : Bool
deriving DecidableEq, Inhabited

def Options.settings (options : Options) : RenderSettings :=
  ⟨!options.noWorklist, options.nested, options.color, options.limit⟩

/-- What the arguments ask for. -/
inductive Invocation
  | run (options : Options)
  | version
  | help
  | usageError
deriving DecidableEq, Inhabited

namespace CommandLine

/-- The arguments read so far. -/
structure Given where
  input : Option String
  method : Option String
  step : Option Nat
  limit : Option Nat
  color : Option ColorChoice
  dump : Bool
  interactive : Bool
  noWorklist : Bool
  nested : Bool
deriving DecidableEq, Inhabited

def Given.nothing : Given := ⟨none, none, none, none, none, false, false, false, false⟩

/-- Sets what is not set yet. -/
def once {α : Type} (given : Option α) (value : Option α) : Option (Option α) :=
  match given, value with
  | none, some value => some (some value)
  | _, _ => none

inductive ValueOption
  | method
  | step
  | limit
  | color
deriving DecidableEq, Inhabited

inductive Flag
  | dump
  | interactive
  | noWorklist
  | nested
  | version
  | help
deriving DecidableEq, Inhabited

def valueOption? : String → Option ValueOption
  | "method" => some .method
  | "step" => some .step
  | "limit" => some .limit
  | "color" => some .color
  | _ => none

def flag? : String → Option Flag
  | "dump" => some .dump
  | "interactive" => some .interactive
  | "no-worklist" => some .noWorklist
  | "nested" => some .nested
  | "version" => some .version
  | "help" => some .help
  | _ => none

def shortFlag? : Char → Option Flag
  | 'i' => some .interactive
  | 'V' => some .version
  | 'h' => some .help
  | _ => none

namespace Given

/-- Takes the value of an option, unless it is not one of its values or given already. -/
def setValue (given : Given) (value : String) : ValueOption → Option Given
  | .method => (once given.method (some value)).map fun method => { given with method }
  | .step =>
    (once given.step ((Text.number? value).filter (0 < ·))).map fun step => { given with step }
  | .limit => (once given.limit (Text.number? value)).map fun limit => { given with limit }
  | .color => (once given.color (ColorChoice.parse? value)).map fun color => { given with color }

/-- The one input must not be empty. -/
def setInput (given : Given) (value : String) : Option Given :=
  (once given.input (if value = "" then none else some value)).map fun input =>
    { given with input }

/-- Takes a flag, or ends with what it asks for. -/
def setFlag (given : Given) : Flag → Except Invocation Given
  | .dump => if given.dump then .error .usageError else .ok { given with dump := true }
  | .interactive =>
    if given.interactive then .error .usageError else .ok { given with interactive := true }
  | .noWorklist =>
    if given.noWorklist then .error .usageError else .ok { given with noWorklist := true }
  | .nested => if given.nested then .error .usageError else .ok { given with nested := true }
  | .version => .error .version
  | .help => .error .help

/-- Takes the letters of an argument with one dash. -/
def setShortFlags (given : Given) : List Char → Except Invocation Given
  | [] => .ok given
  | c :: cs =>
    match shortFlag? c with
    | none => .error .usageError
    | some flag =>
      match given.setFlag flag with
      | .ok given => given.setShortFlags cs
      | .error invocation => .error invocation

/-- What is asked for once all arguments are read. A step and a method exclude each other. -/
def invocation (given : Given) : Invocation :=
  match given.input with
  | none => .usageError
  | some input =>
    if given.step.isSome ∧ given.method.isSome then .usageError
    else
      .run
        { input
          method := given.method
          step := given.step
          limit := given.limit
          color := given.color.getD .auto
          dump := given.dump
          interactive := given.interactive
          noWorklist := given.noWorklist
          nested := given.nested }

end Given

/-- An argument, by the dashes before it. -/
inductive Argument
  /-- Two dashes alone, after which every argument is an input. -/
  | separator
  /-- A name after two dashes, and what follows an equals sign. -/
  | long (name : String) (value : Option String)
  | short (letters : List Char)
  | plain (text : String)
deriving DecidableEq, Inhabited

def longArgument (cs : List Char) : Argument :=
  .long (String.ofList (cs.takeWhile (· != '=')))
    (match cs.dropWhile (· != '=') with
    | [] => none
    | _ :: value => some (String.ofList value))

def argument (text : String) : Argument :=
  match text.toList with
  | ['-', '-'] => .separator
  | '-' :: '-' :: cs => longArgument cs
  | ['-'] => .plain text
  | '-' :: cs => .short cs
  | _ => .plain text

/-- Reads what follows two dashes alone. -/
def inputsFrom (given : Given) : List String → Invocation
  | [] => given.invocation
  | text :: texts =>
    match given.setInput text with
    | some given => inputsFrom given texts
    | none => .usageError

/-- Reads arguments from the left, of which the first may be the value of the option before it. The
first argument at fault, or the first that asks for the version, decides. -/
def parseFrom (given : Given) (awaiting : Option ValueOption) : List String → Invocation
  | [] => if awaiting.isSome then .usageError else given.invocation
  | text :: texts =>
    match awaiting, argument text with
    | some option, .plain value =>
      match given.setValue value option with
      | some given => parseFrom given none texts
      | none => .usageError
    | some _, _ => .usageError
    | none, .separator => inputsFrom given texts
    | none, .plain value =>
      match given.setInput value with
      | some given => parseFrom given none texts
      | none => .usageError
    | none, .short letters =>
      match given.setShortFlags letters with
      | .ok given => parseFrom given none texts
      | .error invocation => invocation
    | none, .long name value =>
      match valueOption? name, flag? name, value with
      | some option, _, none => parseFrom given (some option) texts
      | some option, _, some value =>
        match given.setValue value option with
        | some given => parseFrom given none texts
        | none => .usageError
      | none, some flag, none =>
        match given.setFlag flag with
        | .ok given => parseFrom given none texts
        | .error invocation => invocation
      | none, _, _ => .usageError

def parse (arguments : List String) : Invocation := parseFrom .nothing none arguments

end CommandLine

end TraceReplay
