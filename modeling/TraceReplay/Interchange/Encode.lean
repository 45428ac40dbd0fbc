import TraceReplay.Interchange.Record
import TraceReplay.Text.Quoted
import TraceReplay.Text.Utf8

/-!
Writing a document. Every field of a record is written, in order, on one line or with one value a
line and two blanks for each level. In text only quotes, backslashes and controls are escaped.
-/
namespace TraceReplay.Interchange

inductive Layout
  | compact
  | pretty
deriving DecidableEq, Inhabited

/-- A character of a text between its quotes. -/
def textChar (c : Char) : List Char :=
  if c = '"' then ['\\', '"']
  else if c = '\\' then ['\\', '\\']
  else if c = '\x08' then ['\\', 'b']
  else if c = '\t' then ['\\', 't']
  else if c = '\n' then ['\\', 'n']
  else if c = '\x0c' then ['\\', 'f']
  else if c = '\r' then ['\\', 'r']
  else if c.toNat < 0x20 then
    ['\\', 'u', '0', '0', Text.hexDigit (c.toNat / 16), Text.hexDigit (c.toNat % 16)]
  else [c]

/-- Writes a text in front of what follows it. -/
def writeText (text : String) (rest : List Char) : List Char :=
  '"' :: (text.toList.flatMap textChar ++ '"' :: rest)

namespace Layout

/-- What stands in front of an item at a level, or of the bracket that closes the level around. -/
def lineBreak : Layout → (level : Nat) → List Char
  | .compact, _ => []
  | .pretty, level => '\n' :: List.replicate (2 * level) ' '

/-- What stands between a key and its value. -/
def colon : Layout → List Char
  | .compact => [':']
  | .pretty => [':', ' ']

/-- What stands before the item with this index in the brackets of a level. -/
def before (layout : Layout) (level index : Nat) : List Char :=
  (if index = 0 then [] else [',']) ++ layout.lineBreak (level + 1)

end Layout

mutual

/-- Writes a datum in front of what follows it. -/
def Datum.write (layout : Layout) (level : Nat) (rest : List Char) : Datum → List Char
  | .absent => ['n', 'u', 'l', 'l'] ++ rest
  | .text value => writeText value rest
  | .flag true => ['t', 'r', 'u', 'e'] ++ rest
  | .flag false => ['f', 'a', 'l', 's', 'e'] ++ rest
  | .number value => Nat.toDigits 10 value ++ rest
  | .list [] => ['[', ']'] ++ rest
  | .list (item :: items) =>
    '[' :: writeItems layout level 0 (layout.lineBreak level ++ ']' :: rest) (item :: items)
  | .record kind values =>
    '\x7b' ::
      writeMembers layout level 0 (layout.lineBreak level ++ '\x7d' :: rest) kind.fields values

def writeItems (layout : Layout) (level index : Nat) (rest : List Char) : List Datum → List Char
  | [] => rest
  | item :: items =>
    layout.before level index ++
      item.write layout (level + 1) (writeItems layout level (index + 1) rest items)

def writeMembers (layout : Layout) (level index : Nat) (rest : List Char) :
    List Field → List Datum → List Char
  | field :: fields, value :: values =>
    layout.before level index ++ writeText field.key (layout.colon ++
      value.write layout (level + 1) (writeMembers layout level (index + 1) rest fields values))
  | _, _ => rest

end

end TraceReplay.Interchange

namespace TraceReplay.Trace

open Interchange

/-- The document of a trace. -/
def encode (trace : Trace) (layout : Layout) : String :=
  String.ofList (trace.toDatum.write layout 0 [])

end TraceReplay.Trace
