import TraceReplay.Cursor.Jump
import TraceReplay.Cursor.Move
import TraceReplay.Text.Basic

/-!
The language of interactive commands. A line holds the name of a command and at most one argument;
a command that takes none ignores it. Steps are numbered from one where they are typed.
-/
namespace TraceReplay

inductive Command
  | move (move : Move)
  | load (path : String)
  | help
  | quit
deriving DecidableEq, Inhabited

/-- The numbers that commands take. -/
inductive Quantity
  | methodIndex
  | blockIndex
  | stepNumber
deriving DecidableEq, Inhabited

def Quantity.name : Quantity → String
  | .methodIndex => "method index"
  | .blockIndex => "block index"
  | .stepNumber => "step number"

inductive CommandError
  | tooManyArguments (name : String)
  | missingNumber (name : String) (quantity : Quantity)
  | invalidNumber (argument : String) (quantity : Quantity)
  | stepZero
  | missingPath
  | unknown (name : String)
deriving DecidableEq, Inhabited

def CommandError.message : CommandError → String
  | .tooManyArguments name => "too many arguments to `" ++ name ++ "`"
  | .missingNumber name quantity => "`" ++ name ++ "` needs " ++ quantity.name
  | .invalidNumber argument quantity => "`" ++ argument ++ "` is not a valid " ++ quantity.name
  | .stepZero => "steps are numbered from 1"
  | .missingPath => "`load` needs a path"
  | .unknown name => "unknown command `" ++ name ++ "` (try `help`)"

namespace Command

/-- What the name of a command asks for. -/
inductive Request
  | plain (command : Command)
  | number (quantity : Quantity)
  | path
deriving DecidableEq, Inhabited

def request? : String → Option Request
  | "n" | "next" => some (.plain (.move .forward))
  | "p" | "prev" => some (.plain (.move .backward))
  | "m" | "method" => some (.number .methodIndex)
  | "b" | "block" => some (.number .blockIndex)
  | "s" | "step" => some (.number .stepNumber)
  | "enter" => some (.plain (.move .enter))
  | "leave" => some (.plain (.move .leave))
  | "r" | "reset" => some (.plain (.move .reset))
  | "load" => some .path
  | "h" | "help" | "?" => some (.plain .help)
  | "q" | "quit" | "exit" => some (.plain .quit)
  | _ => none

/-- The move to a number that was typed. -/
def ofNumber : Quantity → Nat → Except CommandError Command
  | .methodIndex, n => .ok (.move (.method n))
  | .blockIndex, n => .ok (.move (.block n))
  | .stepNumber, 0 => .error .stepZero
  | .stepNumber, n + 1 => .ok (.move (.step n))

def ofRequest (name : String) (argument : Option String) : Request → Except CommandError Command
  | .plain command => .ok command
  | .path =>
    match argument with
    | some path => .ok (.load path)
    | none => .error .missingPath
  | .number quantity =>
    match argument with
    | none => .error (.missingNumber name quantity)
    | some argument =>
      match Text.number? argument with
      | some n => ofNumber quantity n
      | none => .error (.invalidNumber argument quantity)

/-- The command of a line, if it is not blank. -/
def parse (line : String) : Except CommandError (Option Command) :=
  match Text.words line with
  | [] => .ok none
  | name :: arguments =>
    if 1 < arguments.length then .error (.tooManyArguments name)
    else
      match request? name with
      | some request => (ofRequest name arguments.head? request).map some
      | none => .error (.unknown name)

def helpText : String :=
  "commands:\n" ++
  "  n, next          step forward\n" ++
  "  p, prev          step backward\n" ++
  "  m <index>        jump to method\n" ++
  "  b <index>        jump to block evaluation\n" ++
  "  s <step>         jump to step (1-based)\n" ++
  "  enter            step into the subroutine sub-trace\n" ++
  "  leave            return from the subroutine sub-trace\n" ++
  "  r, reset         back to the first step\n" ++
  "  load <path>      replace the trace\n" ++
  "  h, help          show this help\n" ++
  "  q, quit          exit\n"

end Command

end TraceReplay
