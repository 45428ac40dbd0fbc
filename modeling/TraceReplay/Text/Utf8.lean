/-!
Reading text from UTF-8 bytes: the longest well-formed front of a byte string, exact decoding, and
decoding in which each ill-formed part reads as the replacement character.
-/
namespace TraceReplay

abbrev Bytes := List UInt8

namespace Utf8

/-- The character whose encoding stands at the front. -/
def char? (bytes : Bytes) : Option Char := (bytes.take 4).toByteArray.utf8DecodeChar? 0

/-- The characters at the front, at most one for each byte of `fuel`, and what is left after
them. -/
def frontFrom : (fuel : Bytes) → Bytes → List Char × Bytes
  | [], bytes => ([], bytes)
  | _ :: fuel, bytes =>
    match char? bytes with
    | none => ([], bytes)
    | some c =>
      let (cs, rest) := frontFrom fuel (bytes.drop c.utf8Size)
      (c :: cs, rest)

/-- The characters at the front, and what is left from the first ill-formed part on. -/
def front (bytes : Bytes) : List Char × Bytes := frontFrom bytes bytes

/-- The text of the bytes, or else the length of their longest well-formed front. -/
def decode (bytes : Bytes) : Except Nat String :=
  match front bytes with
  | (cs, []) => .ok (String.ofList cs)
  | (_, rest) => .error (bytes.length - rest.length)

def encode (text : String) : Bytes := text.toList.flatMap String.utf8EncodeChar

def isTail (b : UInt8) : Bool := 0x80 ≤ b && b ≤ 0xBF

/-- What may follow a first byte: the range of the second byte and how many tails come after. -/
def continuation? (b : UInt8) : Option (UInt8 × UInt8 × Nat) :=
  if 0xC2 ≤ b && b ≤ 0xDF then some (0x80, 0xBF, 0)
  else if b == 0xE0 then some (0xA0, 0xBF, 1)
  else if b == 0xED then some (0x80, 0x9F, 1)
  else if 0xE1 ≤ b && b ≤ 0xEF then some (0x80, 0xBF, 1)
  else if b == 0xF0 then some (0x90, 0xBF, 2)
  else if 0xF1 ≤ b && b ≤ 0xF3 then some (0x80, 0xBF, 2)
  else if b == 0xF4 then some (0x80, 0x8F, 2)
  else none

/-- The length of the ill-formed part at the front: as many bytes as could still have become a
character, and at least one. -/
def brokenLength : Bytes → Nat
  | first :: second :: rest =>
    match continuation? first with
    | some (low, high, tails) =>
      if low ≤ second && second ≤ high then 2 + ((rest.take tails).takeWhile isTail).length else 1
    | none => 1
  | _ => 1

def replacement : Char := '\uFFFD'

/-- The characters of the bytes, with at most one ill-formed part for each byte of `fuel`. -/
def lossyChars : (fuel : Bytes) → Bytes → List Char
  | [], _ => []
  | _ :: fuel, bytes =>
    match front bytes with
    | (cs, []) => cs
    | (cs, rest) => cs ++ replacement :: lossyChars fuel (rest.drop (brokenLength rest))

/-- The text of the bytes, with the replacement character for each ill-formed part. -/
def lossy (bytes : Bytes) : String := String.ofList (lossyChars bytes bytes)

end Utf8

end TraceReplay
