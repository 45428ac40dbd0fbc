import TraceReplay.Interchange.Reader

/-!
Numbers in a document. The digits before and after the point build one significand of 64 bits;
digits that no longer fit only shift the power of ten, or are dropped after the point. A number
with a point, an exponent or too many digits is a double.
-/
namespace TraceReplay.Interchange.Reader

def digit? (b : UInt8) : Option Nat :=
  let n := b.toNat
  if 48 ≤ n ∧ n ≤ 57 then some (n - 48) else none

def isDigit (b : UInt8) : Bool := (digit? b).isSome

/-- The significand with one more digit, if it fits. -/
def appendDigit? (significand d : Nat) : Option Nat :=
  if significand * 10 + d < UInt64.size then some (significand * 10 + d) else none

/-- The digits before the point: the significand, and how many digits it leaves out. -/
def wholeDigits (significand dropped : Nat) : Bytes → (Nat × Nat) × Bytes
  | [] => ((significand, dropped), [])
  | b :: rest =>
    match digit? b with
    | none => ((significand, dropped), b :: rest)
    | some d =>
      match if dropped = 0 then appendDigit? significand d else none with
      | some significand => wholeDigits significand 0 rest
      | none => wholeDigits significand (dropped + 1) rest

/-- The digits after the point: the significand, and how many of them it holds. -/
def fractionDigits (significand places : Nat) : Bytes → (Nat × Nat) × Bytes
  | [] => ((significand, places), [])
  | b :: rest =>
    match digit? b with
    | none => ((significand, places), b :: rest)
    | some d =>
      match appendDigit? significand d with
      | some significand => fractionDigits significand (places + 1) rest
      | none => ((significand, places), rest.dropWhile isDigit)

/-- The digits of an exponent, or `none` after the digit with which it leaves 31 bits. -/
def exponentDigits (exponent : Nat) : Bytes → Option Nat × Bytes
  | [] => (some exponent, [])
  | b :: rest =>
    match digit? b with
    | none => (some exponent, b :: rest)
    | some d =>
      if exponent * 10 + d < 0x80000000 then exponentDigits (exponent * 10 + d) rest else (none, rest)

/-- The double nearest to `10 ^ exponent`, for exponents up to 308. -/
def powerOfTen (exponent : Nat) : Float := Float.ofScientific 1 false exponent

/-- `x` times `10 ^ exponent`, unless that is too large for a double. A very small exponent is
applied in steps, and two steps take any significand to zero. -/
def scaleByTen : (steps : Nat) → (x : Float) → (exponent : Int) → Option Float
  | 0, _, _ => some 0
  | steps + 1, x, exponent =>
    if exponent.natAbs ≤ 308 then
      if 0 ≤ exponent then
        let scaled := x * powerOfTen exponent.natAbs
        if scaled.isInf then none else some scaled
      else some (x / powerOfTen exponent.natAbs)
    else if x == 0 then some x
    else if 0 ≤ exponent then none
    else scaleByTen steps (x / powerOfTen 308) (exponent + 308)

def signed (negative : Bool) (x : Float) : Numeral := .decimal (if negative then -x else x)

/-- The double of a significand and a power of ten. -/
def double (negative : Bool) (significand : Nat) (exponent : Int) : Reader Numeral :=
  match scaleByTen 4 significand.toUInt64.toFloat exponent with
  | some x => pure (signed negative x)
  | none => here .numberOutOfRange

/-- The rest of a number after its `e`. -/
def exponentPart (negative : Bool) (significand : Nat) (shift : Int) : Reader Numeral := do
  let sign ← look
  let lowers := sign = some '-'.toUInt8
  if lowers ∨ sign = some '+'.toUInt8 then advance
  match ← take with
  | none => here .endInValue
  | some b =>
    match digit? b with
    | none => here .invalidNumber
    | some d =>
      let exponent? ← modifyGet (exponentDigits d)
      match exponent? with
      | some exponent =>
        double negative significand (if lowers then shift - exponent else shift + exponent)
      | none =>
        if significand ≠ 0 ∧ ¬lowers then here .numberOutOfRange
        else
          modify (·.dropWhile isDigit)
          pure (signed negative 0)

def isExponentMark (b : UInt8) : Bool := b == 'e'.toUInt8 || b == 'E'.toUInt8

/-- The rest of a number after its point. -/
def fractionPart (negative : Bool) (significand dropped : Nat) : Reader Numeral := do
  match ← look with
  | none => ahead .endInValue
  | some b =>
    if isDigit b then
      let (significand, places) ← modifyGet (fractionDigits significand 0)
      let shift : Int := Int.ofNat dropped - Int.ofNat places
      if (← look).any isExponentMark then
        advance
        exponentPart negative significand shift
      else double negative significand shift
    else ahead .invalidNumber

/-- A significand as a number of its own. -/
def wholeNumeral (negative : Bool) (significand : Nat) : Numeral :=
  if ¬negative then .whole (Int.ofNat significand)
  else if 1 ≤ significand ∧ significand ≤ 0x8000000000000000 then .whole (-Int.ofNat significand)
  else signed true significand.toUInt64.toFloat

/-- The rest of a number after the digits before its point, of which `dropped` do not fit. -/
def numberTail (negative : Bool) (significand dropped : Nat) : Reader Numeral := do
  let next ← look
  if next = some '.'.toUInt8 then
    advance
    fractionPart negative significand dropped
  else if next.any isExponentMark then
    advance
    exponentPart negative significand (Int.ofNat dropped)
  else if dropped = 0 then pure (wholeNumeral negative significand)
  else double negative significand (Int.ofNat dropped)

/-- A number, after its sign. A zero in front stands alone. -/
def number (negative : Bool) : Reader Numeral := do
  match ← take with
  | none => here .endInValue
  | some b =>
    match digit? b with
    | none => here .invalidNumber
    | some 0 => if (← look).any isDigit then ahead .invalidNumber else numberTail negative 0 0
    | some d =>
      let (significand, dropped) ← modifyGet (wholeDigits d 0)
      numberTail negative significand dropped

/-- A number, with its sign. -/
def signedNumber : Reader Numeral := do
  if (← look) = some '-'.toUInt8 then
    advance
    number true
  else number false

end TraceReplay.Interchange.Reader
