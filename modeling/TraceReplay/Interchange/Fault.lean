import TraceReplay.Decimal.Shortest
import TraceReplay.Interchange.Path
import TraceReplay.Interchange.Shape
import TraceReplay.Text.Quoted
import TraceReplay.Text.Utf8

/-!
Why a document cannot be read, and where. A fault has a place in the bytes, which becomes a line
and a column, and a path to the value that was being read.
-/
namespace TraceReplay.Interchange

/-- A number in a document: a whole number that fits its word, or else a double. -/
inductive Numeral
  | whole (value : Int)
  | decimal (value : Float)
deriving Inhabited

/-- A value of another type than the one expected. -/
inductive Found
  | null
  | flag (value : Bool)
  | number (value : Numeral)
  | text (value : String)
  | list
  | record
deriving Inhabited

/-- The brackets of a document. -/
inductive Bracket
  | list
  | record
deriving DecidableEq, Inhabited

inductive Cause
  /-- The document ends where a value must stand. -/
  | endInValue
  | endInText
  | endIn (bracket : Bracket)
  | expectedWord
  | expectedValue
  /-- Neither a comma nor the closing bracket follows an element. -/
  | expectedSeparator (bracket : Bracket)
  | expectedColon
  | expectedKey
  | trailingComma
  | trailingCharacters
  | invalidNumber
  | numberOutOfRange
  | invalidEscape
  | loneSurrogate
  | unfinishedSurrogatePair
  | controlCharacter
  | invalidText
  | wrongType (found : Found) (expected : Shape)
  | wrongValue (value : Int) (expected : Shape)
  | tooFewElements (found : Nat) (kind : RecordKind)
  | duplicateField (key : String)
  | missingField (key : String)
deriving Inhabited

def Numeral.description : Numeral → String
  | .whole value => "integer `" ++ toString value ++ "`"
  | .decimal value => "floating point `" ++ Decimal.text value ++ "`"

def Found.description : Found → String
  | .null => "null"
  | .flag true => "boolean `true`"
  | .flag false => "boolean `false`"
  | .number value => value.description
  | .text value => "string " ++ Text.quoted value
  | .list => "sequence"
  | .record => "map"

def Bracket.name : Bracket → String
  | .list => "a list"
  | .record => "an object"

def Bracket.closing : Bracket → Char
  | .list => ']'
  | .record => '\x7d'

def Cause.message : Cause → String
  | .endInValue => "EOF while parsing a value"
  | .endInText => "EOF while parsing a string"
  | .endIn bracket => "EOF while parsing " ++ bracket.name
  | .expectedWord => "expected ident"
  | .expectedValue => "expected value"
  | .expectedSeparator bracket =>
    "expected `,` or `" ++ String.singleton bracket.closing ++ "`"
  | .expectedColon => "expected `:`"
  | .expectedKey => "key must be a string"
  | .trailingComma => "trailing comma"
  | .trailingCharacters => "trailing characters"
  | .invalidNumber => "invalid number"
  | .numberOutOfRange => "number out of range"
  | .invalidEscape => "invalid escape"
  | .loneSurrogate => "lone leading surrogate in hex escape"
  | .unfinishedSurrogatePair => "unexpected end of hex escape"
  | .controlCharacter => "control character (\\u0000-\\u001F) found while parsing a string"
  | .invalidText => "invalid unicode code point"
  | .wrongType found expected =>
    "invalid type: " ++ found.description ++ ", expected " ++ expected.expected
  | .wrongValue value expected =>
    "invalid value: " ++ (Numeral.whole value).description ++ ", expected " ++ expected.expected
  | .tooFewElements found kind =>
    let size := kind.fields.length
    "invalid length " ++ toString found ++ ", expected struct " ++ kind.name ++ " with " ++
      toString size ++ if size = 1 then " element" else " elements"
  | .duplicateField key => "duplicate field `" ++ key ++ "`"
  | .missingField key => "missing field `" ++ key ++ "`"

/-- A place in the bytes, by how many are left after it. The column shown is `back` less than that
of the place. -/
structure Place where
  left : Nat
  back : Nat
deriving DecidableEq, Inhabited

/-- A fault without a place gets one when the record around it is closed. -/
structure Fault where
  cause : Cause
  place : Option Place
  path : Path
deriving Inhabited

namespace Place

/-- The bytes of a document up to the place. -/
def before (place : Place) (document : Bytes) : Bytes :=
  document.take (document.length - place.left)

def isNewline (b : UInt8) : Bool := b == '\n'.toUInt8

/-- The line of the place, counted from one. -/
def line (place : Place) (document : Bytes) : Nat :=
  (place.before document).countP isNewline + 1

/-- The number of bytes before the place in its line, less `back`. -/
def column (place : Place) (document : Bytes) : Nat :=
  ((place.before document).reverse.takeWhile (!isNewline ·)).length - place.back

end Place

end TraceReplay.Interchange
