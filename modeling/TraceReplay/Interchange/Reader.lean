import TraceReplay.Interchange.Fault

/-!
Readers over the bytes of a document. A reader keeps the bytes it left even when it fails, since a
record is closed after a fault inside it. A fault is placed where the reader stands, or one byte
further when the byte there was only looked at.
-/
namespace TraceReplay.Interchange

/-- The state holds the bytes not yet read. -/
abbrev Reader := EStateM Fault Bytes

namespace Reader

variable {α : Type}

/-- Fails at the byte the reader stands before. -/
def here (cause : Cause) : Reader α :=
  fun rest => .error ⟨cause, some ⟨rest.length, 0⟩, []⟩ rest

/-- Fails after the byte the reader stands before, if there is one. -/
def ahead (cause : Cause) : Reader α :=
  fun rest => .error ⟨cause, some ⟨rest.length - 1, 0⟩, []⟩ rest

/-- Fails at a place to be found by the record around. -/
def unplaced (cause : Cause) : Reader α :=
  fun rest => .error ⟨cause, none, []⟩ rest

def look : Reader (Option UInt8) := fun rest => .ok rest.head? rest

def advance : Reader Unit := fun rest => .ok () rest.tail

def take : Reader (Option UInt8) := fun rest => .ok rest.head? rest.tail

def isBlank (b : UInt8) : Bool :=
  b == ' '.toUInt8 || b == '\n'.toUInt8 || b == '\t'.toUInt8 || b == '\r'.toUInt8

/-- Skips the blanks between two tokens and looks at what follows. -/
def lookPastBlanks : Reader (Option UInt8) :=
  fun rest => .ok (rest.dropWhile isBlank).head? (rest.dropWhile isBlank)

/-- The first byte of a value, which is not consumed. -/
def lookAtValue : Reader UInt8 := do
  match ← lookPastBlanks with
  | some b => pure b
  | none => ahead .endInValue

/-- Adds a step to the path of a fault of `read`. -/
def within (step : PathStep) (read : Reader α) : Reader α := fun bytes =>
  match read bytes with
  | .error fault rest => .error { fault with path := step :: fault.path } rest
  | result => result

/-- Runs `close` after `read`, also where `read` failed. Then its fault stands, and if it has no
place yet it gets the one where `close` ended. -/
def closedBy (read : Reader α) (close : Reader Unit) : Reader α := fun bytes =>
  match read bytes with
  | .ok value rest =>
    match close rest with
    | .ok () rest => .ok value rest
    | .error fault rest => .error fault rest
  | .error fault rest =>
    let rest :=
      match close rest with
      | .ok () rest => rest
      | .error _ rest => rest
    .error { fault with place := some (fault.place.getD ⟨rest.length, 0⟩) } rest

/-- The remaining letters of a word. -/
def word : List Char → Reader Unit
  | [] => pure ()
  | c :: cs => do
    match ← take with
    | none => here .endInValue
    | some b => if b = c.toUInt8 then word cs else here .expectedWord

def closeList : Reader Unit := do
  match ← lookPastBlanks with
  | none => ahead (.endIn .list)
  | some b =>
    if b = ']'.toUInt8 then advance
    else if b = ','.toUInt8 then
      advance
      if (← lookPastBlanks) = some ']'.toUInt8 then ahead .trailingComma
      else ahead .trailingCharacters
    else ahead .trailingCharacters

def closeRecord : Reader Unit := do
  match ← lookPastBlanks with
  | none => ahead (.endIn .record)
  | some b =>
    if b = '\x7d'.toUInt8 then advance
    else if b = ','.toUInt8 then ahead .trailingComma
    else ahead .trailingCharacters

/-- Moves to the next element of a list, and says whether there is one. -/
def nextElement (isFirst : Bool) : Reader Bool := do
  match ← lookPastBlanks with
  | none => ahead (.endIn .list)
  | some b =>
    if b = ']'.toUInt8 then pure false
    else if isFirst then pure true
    else if b = ','.toUInt8 then
      advance
      match ← lookPastBlanks with
      | none => ahead .endInValue
      | some b => if b = ']'.toUInt8 then ahead .trailingComma else pure true
    else ahead (.expectedSeparator .list)

/-- Moves to the next key of a record, and says whether there is one. -/
def nextMember (isFirst : Bool) : Reader Bool := do
  match ← lookPastBlanks with
  | none => ahead (.endIn .record)
  | some b =>
    if b = '\x7d'.toUInt8 then pure false
    else if isFirst then pure true
    else if b = ','.toUInt8 then
      advance
      match ← lookPastBlanks with
      | none => ahead .endInValue
      | some b => if b = '\x7d'.toUInt8 then ahead .trailingComma else pure true
    else ahead (.expectedSeparator .record)

def colon : Reader Unit := do
  match ← lookPastBlanks with
  | none => ahead (.endIn .record)
  | some b => if b = ':'.toUInt8 then advance else ahead .expectedColon

/-- Runs a loop that has a round for each byte of its fuel. The fuel is the bytes left and one
more, which is enough where each round but the last takes a byte. -/
def rounds (loop : (fuel : Bytes) → Reader α) : Reader α := fun bytes => loop (0 :: bytes) bytes

/-- The elements of a list, the next of which has the index `k`. -/
def elementsFrom (read : Reader α) : (fuel : Bytes) → (k : Nat) → Reader (List α)
  | [], _ => pure []
  | _ :: fuel, k => do
    if ← nextElement (k == 0) then
      let x ← within (.index k) read
      return x :: (← elementsFrom read fuel (k + 1))
    else return []

/-- The elements of a list up to its closing bracket. -/
def elements (read : Reader α) : Reader (List α) := rounds fun fuel => elementsFrom read fuel 0

/-- The end of the document, with nothing but blanks before it. -/
def finish : Reader Unit := do
  match ← lookPastBlanks with
  | none => pure ()
  | some _ => ahead .trailingCharacters

end Reader

end TraceReplay.Interchange
