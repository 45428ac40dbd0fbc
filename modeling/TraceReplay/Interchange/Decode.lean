import TraceReplay.Interchange.Ignored

/-!
Reading a document along the shapes of the format. A record is written as an object, whose keys
may come in any order among unknown ones, or as a list of its fields in their order.
-/
namespace TraceReplay.Interchange

namespace Reader

/-- Fails on a value that is not of the shape expected. A number, word or text is read first, and
may be at fault itself; of a list or record only the bracket is looked at. -/
def mismatch {α : Type} (expected : Shape) (b : UInt8) : Reader α := do
  if b = 'n'.toUInt8 then
    advance
    word ['u', 'l', 'l']
    here (.wrongType .null expected)
  else if b = 't'.toUInt8 then
    advance
    word ['r', 'u', 'e']
    here (.wrongType (.flag true) expected)
  else if b = 'f'.toUInt8 then
    advance
    word ['a', 'l', 's', 'e']
    here (.wrongType (.flag false) expected)
  else if b = '-'.toUInt8 ∨ isDigit b then
    let n ← signedNumber
    here (.wrongType (.number n) expected)
  else if b = '"'.toUInt8 then
    advance
    let value ← text
    here (.wrongType (.text value) expected)
  else if b = '['.toUInt8 then here (.wrongType .list expected)
  else if b = '\x7b'.toUInt8 then here (.wrongType .record expected)
  else ahead .expectedValue

def readText (b : UInt8) : Reader Datum := do
  if b = '"'.toUInt8 then
    advance
    return .text (← text)
  else mismatch .text b

def readFlag (b : UInt8) : Reader Datum := do
  if b = 't'.toUInt8 then
    advance
    word ['r', 'u', 'e']
    return .flag true
  else if b = 'f'.toUInt8 then
    advance
    word ['a', 'l', 's', 'e']
    return .flag false
  else mismatch .flag b

/-- A whole number from zero up to the limit of its shape. -/
def readNumber (shape : Shape) (b : UInt8) : Reader Datum := do
  if b = '-'.toUInt8 ∨ isDigit b then
    match ← signedNumber with
    | .whole value =>
      if 0 ≤ value ∧ value < shape.limit then return .number value.toNat
      else here (.wrongValue value shape)
    | .decimal value => here (.wrongType (.number (.decimal value)) shape)
  else mismatch shape b

/-- The next key of a record. -/
def nextKey (isFirst : Bool) : Reader (Option String) := do
  if ← nextMember isFirst then
    if (← look) = some '"'.toUInt8 then
      advance
      return some (← text)
    else ahead .expectedKey
  else return none

/-- The value of a field; one that is not required may be null. -/
def readField (read : Shape → Reader Datum) (field : Field) : Reader Datum := do
  if field.required then read field.shape
  else if (← lookPastBlanks) = some 'n'.toUInt8 then
    advance
    word ['u', 'l', 'l']
    return .absent
  else read field.shape

/-- The members of a record; `slots` holds what is read of each field. A field may come once
only. -/
def membersFrom (read : Shape → Reader Datum) (kind : RecordKind) :
    (fuel : Bytes) → (isFirst : Bool) → (slots : List (Option Datum)) →
      Reader (List (Option Datum))
  | [], _, slots => pure slots
  | _ :: fuel, isFirst, slots => do
    match ← within .unnamed (nextKey isFirst) with
    | none => return slots
    | some key =>
      match kind.fieldIndex? key with
      | none =>
        colon
        within (.field key) skipValue
        membersFrom read kind fuel false slots
      | some k =>
        match kind.fields[k]?, slots[k]? with
        | some field, some none =>
          colon
          let value ← within (.field key) (readField read field)
          membersFrom read kind fuel false (slots.set k (some value))
        | _, _ => unplaced (.duplicateField key)

/-- The values of all fields, where those without one may be absent. -/
def fill : List Field → List (Option Datum) → Reader (List Datum)
  | field :: fields, slot :: slots =>
    match slot with
    | some value => return value :: (← fill fields slots)
    | none =>
      if field.required then unplaced (.missingField field.key)
      else return .absent :: (← fill fields slots)
  | _, _ => pure []

/-- A record in an object, after its opening bracket. -/
def members (read : Shape → Reader Datum) (kind : RecordKind) : Reader (List Datum) := do
  let slots ← rounds fun fuel => membersFrom read kind fuel true (kind.fields.map fun _ => none)
  fill kind.fields slots

/-- A record in a list, after its opening bracket; `k` fields come before these. -/
def positional (read : Shape → Reader Datum) (kind : RecordKind) :
    (k : Nat) → List Field → Reader (List Datum)
  | _, [] => pure []
  | k, field :: fields => do
    if ← nextElement (k == 0) then
      let value ← within (.index k) (readField read field)
      return value :: (← positional read kind (k + 1) fields)
    else if field.required then unplaced (.tooFewElements k kind)
    else return .absent :: (← positional read kind (k + 1) fields)

def readRecord (read : Shape → Reader Datum) (kind : RecordKind) (b : UInt8) : Reader Datum := do
  if b = '\x7b'.toUInt8 then
    advance
    return .record kind (← closedBy (members read kind) closeRecord)
  else if b = '['.toUInt8 then
    advance
    return .record kind (← closedBy (positional read kind 0 kind.fields) closeList)
  else mismatch (.record kind) b

def readList (read : Reader Datum) (item : Shape) (b : UInt8) : Reader Datum := do
  if b = '['.toUInt8 then
    advance
    return .list (← closedBy (elements read) closeList)
  else mismatch (.list item) b

/-- Reads a value, with a byte of fuel for each level of values inside each other. -/
def valueFrom : (fuel : Bytes) → Shape → Reader Datum
  | [], _ => ahead .endInValue
  | _ :: fuel, shape => do
    let b ← lookAtValue
    match shape with
    | .text => readText b
    | .flag => readFlag b
    | .offset => readNumber .offset b
    | .count => readNumber .count b
    | .list item => readList (valueFrom fuel item) item b
    | .record kind => readRecord (valueFrom fuel) kind b

/-- Reads a value. Each value around another has an opening bracket of its own. -/
def value (shape : Shape) : Reader Datum := rounds fun fuel => valueFrom fuel shape

/-- Reads a whole document, which holds one value. -/
def document (shape : Shape) : Reader Datum := do
  let datum ← value shape
  finish
  return datum

end Reader

/-- What the document of a trace says. -/
def decode (document : Bytes) : Except Fault Datum :=
  match Reader.document (.record .trace) document with
  | .ok datum _ => .ok datum
  | .error fault _ => .error fault

end TraceReplay.Interchange
