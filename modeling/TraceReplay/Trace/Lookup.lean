import TraceReplay.Trace.Basic
import TraceReplay.Text.Basic

/-!
Finding an instruction by its offset and a method by its name.
-/
namespace TraceReplay

/-- Halves the span `lo ..< hi` of offsets until it is empty or its middle is the one looked for.
Each round leaves at most half of the span, so `rounds` need not exceed its size. -/
def Instruction.search (instructions : Array Instruction) (offset : Offset) :
    (rounds lo hi : Nat) → Option Instruction
  | 0, _, _ => none
  | rounds + 1, lo, hi =>
    if lo < hi then
      let middle := (lo + hi) / 2
      match instructions[middle]? with
      | none => none
      | some instruction =>
        if instruction.offset = offset then some instruction
        else if instruction.offset < offset then search instructions offset rounds (middle + 1) hi
        else search instructions offset rounds lo middle
    else none

/-- The instruction at an offset, found by halving; it relies on the offsets being in order. -/
def MethodTrace.instructionAt (method : MethodTrace) (offset : Offset) : Option Instruction :=
  Instruction.search method.instructions.toArray offset method.instructions.length 0
    method.instructions.length

/-- The first method with this class and method name. -/
def Trace.findMethod (trace : Trace) (className methodName : String) : Option Nat :=
  trace.methods.findIdx? fun method =>
    method.className == className && method.methodName == methodName

/-- The method that a text selects: by index where the text reads as a number, and otherwise by a
class and a method name with `#` between them. -/
def Trace.selectMethod (trace : Trace) (text : String) : Option Nat :=
  match Text.number? text with
  | some index => if index < trace.methodCount then some index else none
  | none =>
    match text.toList.dropWhile (· != '#') with
    | [] => none
    | _ :: methodName =>
      trace.findMethod (String.ofList (text.toList.takeWhile (· != '#'))) (String.ofList methodName)

end TraceReplay
