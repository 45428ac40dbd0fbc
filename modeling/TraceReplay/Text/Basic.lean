import TraceReplay.Text.Utf8

/-!
Texts as they are taken apart and put together: lists cut at separators, the words and the lines of a text, whole
numbers as they are typed, and texts filled up to a width, which counts characters. A word ends at white space. A
line ends with a newline, before which one carriage return is dropped; the last line need not end. A number has an
optional plus sign and decimal digits, leading zeros allowed, and is below the limit of a 64-bit word.
-/
namespace TraceReplay.Text

/-- Puts an element in front of the first part. -/
def consFirst {α : Type} (x : α) : List (List α) → List (List α)
  | [] => [[x]]
  | part :: parts => (x :: part) :: parts

/-- The parts between the elements that separate; there is one more of them than separators. -/
def splitBy {α : Type} (separates : α → Bool) : List α → List (List α)
  | [] => [[]]
  | x :: xs =>
    if separates x then [] :: splitBy separates xs else consFirst x (splitBy separates xs)

def split (separator : Char) (text : String) : List String :=
  (splitBy (· == separator) text.toList).map String.ofList

def padding (width : Nat) (text : String) : String :=
  String.ofList (List.replicate (width - text.length) ' ')

def alignRight (width : Nat) (text : String) : String := padding width text ++ text

def alignLeft (width : Nat) (text : String) : String := text ++ padding width text

/-- The characters with the property `White_Space`. -/
def isBlank (c : Char) : Bool :=
  let code := c.toNat
  (0x09 ≤ code && code ≤ 0x0D) || code == 0x20 || code == 0x85 || code == 0xA0 || code == 0x1680 ||
    (0x2000 ≤ code && code ≤ 0x200A) || code == 0x2028 || code == 0x2029 || code == 0x202F ||
    code == 0x205F || code == 0x3000

/-- The maximal runs of characters that are not white space. -/
def words (text : String) : List String :=
  ((splitBy isBlank text.toList).filter (!·.isEmpty)).map String.ofList

/-- One more than the largest number a word holds. -/
def wordLimit : Nat := UInt64.size

def digit? (c : Char) : Option Nat :=
  if '0' ≤ c ∧ c ≤ '9' then some (c.toNat - '0'.toNat) else none

/-- The value of a run of digits after `value`, unless some character is no digit. -/
def digitsFrom (value : Nat) : List Char → Option Nat
  | [] => some value
  | c :: cs =>
    match digit? c with
    | some d => digitsFrom (value * 10 + d) cs
    | none => none

def digits? : List Char → Option Nat
  | [] => none
  | cs => digitsFrom 0 cs

def number? (text : String) : Option Nat :=
  let digits :=
    match text.toList with
    | '+' :: cs => cs
    | cs => cs
  (digits? digits).filter (· < wordLimit)

def dropReturn (line : Bytes) : Bytes :=
  if line.getLast? = some '\r'.toUInt8 then line.dropLast else line

/-- The lines among parts that a newline separates; the part after the last newline is a line
unless it is empty. -/
def linesOfParts : List Bytes → List Bytes
  | [] => []
  | [last] => if last.isEmpty then [] else [last]
  | part :: parts => dropReturn part :: linesOfParts parts

def lines (input : Bytes) : List Bytes := linesOfParts (splitBy (· == '\n'.toUInt8) input)

/-- The lines before the first one that is not UTF-8, and whether there is such a line. -/
def readableLines : List Bytes → List String × Bool
  | [] => ([], false)
  | line :: rest =>
    match Utf8.decode line with
    | .error _ => ([], true)
    | .ok text =>
      let (texts, broken) := readableLines rest
      (text :: texts, broken)

end TraceReplay.Text
