import TraceReplay.Interchange.Reader

/-!
Text in a document, read after its opening quote. Escapes are decoded to bytes as they come, and
the bytes of the whole text must then be UTF-8.
-/
namespace TraceReplay.Interchange.Reader

/-- What a one-letter escape stands for. -/
def shortEscape? (b : UInt8) : Option Char :=
  if b = '"'.toUInt8 then some '"'
  else if b = '\\'.toUInt8 then some '\\'
  else if b = '/'.toUInt8 then some '/'
  else if b = 'b'.toUInt8 then some '\x08'
  else if b = 'f'.toUInt8 then some '\x0c'
  else if b = 'n'.toUInt8 then some '\n'
  else if b = 'r'.toUInt8 then some '\r'
  else if b = 't'.toUInt8 then some '\t'
  else none

def hexValue? (b : UInt8) : Option Nat :=
  let n := b.toNat
  if 48 ≤ n ∧ n ≤ 57 then some (n - 48)
  else if 65 ≤ n ∧ n ≤ 70 then some (n - 55)
  else if 97 ≤ n ∧ n ≤ 102 then some (n - 87)
  else none

/-- Four hexadecimal digits. -/
def hexUnit : Reader Nat
  | a :: b :: c :: d :: rest =>
    match hexValue? a, hexValue? b, hexValue? c, hexValue? d with
    | some a, some b, some c, some d => .ok (((a * 16 + b) * 16 + c) * 16 + d) rest
    | _, _, _, _ => here .invalidEscape rest
  | _ => here .endInText []

def isHighSurrogate (unit : Nat) : Bool := 0xD800 ≤ unit && unit ≤ 0xDBFF

def isLowSurrogate (unit : Nat) : Bool := 0xDC00 ≤ unit && unit ≤ 0xDFFF

/-- A byte of the second half of a surrogate pair. -/
def pairByte (c : Char) : Reader Unit := do
  match ← take with
  | none => here .endInText
  | some b => if b = c.toUInt8 then pure () else here .unfinishedSurrogatePair

/-- The character of a `\u` escape. One outside the basic plane takes two. -/
def unicodeEscape : Reader Char := do
  let unit ← hexUnit
  if isLowSurrogate unit then here .loneSurrogate
  else if isHighSurrogate unit then
    pairByte '\\'
    pairByte 'u'
    let low ← hexUnit
    if isLowSurrogate low then
      pure (Char.ofNat (0x10000 + (unit - 0xD800) * 0x400 + (low - 0xDC00)))
    else here .loneSurrogate
  else pure (Char.ofNat unit)

/-- The character of an escape, after its backslash. -/
def escape : Reader Char := do
  match ← take with
  | none => here .endInText
  | some b =>
    match shortEscape? b with
    | some c => pure c
    | none => if b = 'u'.toUInt8 then unicodeEscape else here .invalidEscape

def textBytesFrom : (fuel : Bytes) → Reader Bytes
  | [] => here .endInText
  | _ :: fuel => do
    match ← take with
    | none => here .endInText
    | some b =>
      if b = '"'.toUInt8 then return []
      else if b = '\\'.toUInt8 then
        let c ← escape
        return String.utf8EncodeChar c ++ (← textBytesFrom fuel)
      else if b < 0x20 then here .controlCharacter
      else return b :: (← textBytesFrom fuel)

/-- The bytes of a text up to its closing quote. -/
def textBytes : Reader Bytes := rounds textBytesFrom

/-- A text up to its closing quote. Where its bytes are not UTF-8 the column of the fault goes back
by those from the first ill-formed one on. -/
def text : Reader String := do
  let bytes ← textBytes
  match Utf8.decode bytes with
  | .ok text => pure text
  | .error valid =>
    fun rest => .error ⟨.invalidText, some ⟨rest.length, bytes.length - valid⟩, []⟩ rest

end TraceReplay.Interchange.Reader
