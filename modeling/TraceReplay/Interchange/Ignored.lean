import TraceReplay.Interchange.Numeral
import TraceReplay.Interchange.Text

/-!
Values of unknown fields. Only their form is checked: numbers may be of any size, and text may hold
any bytes and unpaired surrogates.
-/
namespace TraceReplay.Interchange.Reader

def skipDigits : Reader Unit := modify (·.dropWhile isDigit)

/-- Skips the digits before the point. A zero in front stands alone. -/
def skipWhole : Reader Unit := do
  match (← take).bind digit? with
  | none => here .invalidNumber
  | some 0 => if (← look).any isDigit then ahead .invalidNumber
  | some _ => skipDigits

/-- Skips the digits of a part that must have one. -/
def skipSomeDigits : Reader Unit := do
  if (← look).any isDigit then skipDigits else ahead .invalidNumber

def skipFraction : Reader Unit := do
  if (← look) = some '.'.toUInt8 then
    advance
    skipSomeDigits

def skipSign : Reader Unit := do
  let sign ← look
  if sign = some '+'.toUInt8 ∨ sign = some '-'.toUInt8 then advance

def skipExponent : Reader Unit := do
  if (← look).any isExponentMark then
    advance
    skipSign
    skipSomeDigits

/-- Skips a number, after its sign. -/
def skipNumber : Reader Unit := do
  skipWhole
  skipFraction
  skipExponent

/-- Skips an escape, after its backslash. -/
def skipEscape : Reader Unit := do
  match ← take with
  | none => here .endInText
  | some b =>
    if (shortEscape? b).isSome then pure ()
    else if b = 'u'.toUInt8 then
      let _ ← hexUnit
    else here .invalidEscape

def skipTextFrom : (fuel : Bytes) → Reader Unit
  | [] => here .endInText
  | _ :: fuel => do
    match ← look with
    | none => here .endInText
    | some b =>
      if b < 0x20 then here .controlCharacter
      advance
      if b = '"'.toUInt8 then pure ()
      else
        if b = '\\'.toUInt8 then skipEscape
        skipTextFrom fuel

/-- Skips a text up to its closing quote. -/
def skipText : Reader Unit := rounds skipTextFrom

/-- Skips the key of a member and its colon. -/
def skipKey : Reader Unit := do
  match ← lookPastBlanks with
  | none => ahead (.endIn .record)
  | some b =>
    if b = '"'.toUInt8 then
      advance
      skipText
      colon
    else ahead .expectedKey

/-- Skips an element of a list or a member of a record. -/
def skipItem (bracket : Bracket) (skip : Reader Unit) : Reader Unit := do
  if bracket = .record then skipKey
  skip

/-- Skips the comma in front of an item. -/
def skipComma (bracket : Bracket) : Reader Unit := do
  if (← look) = some ','.toUInt8 then advance else ahead (.expectedSeparator bracket)

def skipItemsFrom (bracket : Bracket) (skip : Reader Unit) :
    (fuel : Bytes) → (afterItem : Bool) → Reader Unit
  | [], _ => ahead (.endIn bracket)
  | _ :: fuel, afterItem => do
    match ← lookPastBlanks with
    | none => ahead (.endIn bracket)
    | some b =>
      if b = bracket.closing.toUInt8 then advance
      else
        if afterItem then skipComma bracket
        skipItem bracket skip
        skipItemsFrom bracket skip fuel true

/-- Skips the items of an open bracket and the bracket that closes it. Once a comma is read an item
must follow. -/
def skipItems (bracket : Bracket) (skip : Reader Unit) : Reader Unit :=
  rounds fun fuel => skipItemsFrom bracket skip fuel false

/-- Skips a value, with a byte of fuel for each level of values inside each other. -/
def skipValueFrom : (fuel : Bytes) → Reader Unit
  | [] => ahead .endInValue
  | _ :: fuel => do
    let b ← lookAtValue
    if b = 'n'.toUInt8 then advance; word ['u', 'l', 'l']
    else if b = 't'.toUInt8 then advance; word ['r', 'u', 'e']
    else if b = 'f'.toUInt8 then advance; word ['a', 'l', 's', 'e']
    else if b = '-'.toUInt8 then advance; skipNumber
    else if isDigit b then skipNumber
    else if b = '"'.toUInt8 then advance; skipText
    else if b = '['.toUInt8 then advance; skipItems .list (skipValueFrom fuel)
    else if b = '\x7b'.toUInt8 then advance; skipItems .record (skipValueFrom fuel)
    else ahead .expectedValue

/-- Skips a value. Each value around another has an opening bracket of its own. -/
def skipValue : Reader Unit := rounds skipValueFrom

end TraceReplay.Interchange.Reader
