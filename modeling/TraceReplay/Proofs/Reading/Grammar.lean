import TraceReplay.Proofs.Text.Utf8

/-!
The grammar of documents. A document is a tree of values. Each production relates the bytes in front of
something, what it is, and the bytes behind it, so that productions follow each other by sharing the bytes
between them. A text is accepted with any escapes; it means something where the bytes it stands for are UTF-8.
-/
namespace TraceReplay.Interchange

/-- A value of a document, without the blanks and escapes that spell it. A number is its literal, and
members stand as they were written, also those with one key. There is no value of a text with half a
surrogate pair or with bytes that are not UTF-8. -/
inductive Json
  | null
  | flag (value : Bool)
  | number (literal : Bytes)
  | text (value : Option String)
  | list (items : List Json)
  | object (members : List (Option String × Json))
deriving Inhabited

namespace Json

theorem sizeOf_lt_of_mem_list {items : List Json} {item : Json} (mem : item ∈ items) :
    sizeOf item < sizeOf (list items) := by
  have := List.sizeOf_lt_of_mem mem
  rw [list.sizeOf_spec]
  omega

theorem sizeOf_lt_of_mem_object {members : List (Option String × Json)} {key : Option String}
    {value : Json} (mem : (key, value) ∈ members) : sizeOf value < sizeOf (object members) := by
  have := List.sizeOf_lt_of_mem mem
  rw [Prod.mk.sizeOf_spec] at this
  rw [object.sizeOf_spec]
  omega

end Json

namespace Grammar

open Utf8

def letters (word : List Char) : Bytes := word.map Char.toUInt8

inductive Blank : Bytes → Bytes → Prop
  | none {rest : Bytes} : Blank rest rest
  | more {c : Char} {bytes rest : Bytes} :
      c ∈ [' ', '\t', '\n', '\r'] → Blank bytes rest → Blank (c.toUInt8 :: bytes) rest

section Numbers

def IsDigit (b : UInt8) : Prop := '0'.toUInt8 ≤ b ∧ b ≤ '9'.toUInt8

def IsDigits (digits : Bytes) : Prop := digits ≠ [] ∧ ∀ b ∈ digits, IsDigit b

/-- Digits before the point: a zero in front stands alone. -/
def IsWhole (digits : Bytes) : Prop :=
  IsDigits digits ∧ (digits.head? = some '0'.toUInt8 → digits = ['0'.toUInt8])

def IsFraction (part : Bytes) : Prop :=
  part = [] ∨ ∃ digits, IsDigits digits ∧ part = '.'.toUInt8 :: digits

def IsExponent (part : Bytes) : Prop :=
  part = [] ∨ ∃ mark ∈ ['e', 'E'], ∃ sign ∈ [[], ['+'], ['-']], ∃ digits, IsDigits digits ∧
    part = mark.toUInt8 :: (letters sign ++ digits)

inductive IsNumber : Bytes → Prop
  | parts {sign : List Char} {whole fraction exponent : Bytes} :
      sign ∈ [[], ['-']] → IsWhole whole → IsFraction fraction → IsExponent exponent →
      IsNumber (letters sign ++ (whole ++ (fraction ++ exponent)))

def wholeLiteral (n : Nat) : Bytes := letters (Nat.toDigits 10 n)

end Numbers

section Texts

def IsHexDigit (b : UInt8) (d : Nat) : Prop :=
  d < 16 ∧ (b = d.digitChar.toUInt8 ∨ b = d.digitChar.toUpper.toUInt8)

inductive HexUnit : Bytes → Nat → Bytes → Prop
  | digits {a b c d : UInt8} {h i j k : Nat} {rest : Bytes} :
      IsHexDigit a h → IsHexDigit b i → IsHexDigit c j → IsHexDigit d k →
      HexUnit (a :: b :: c :: d :: rest) (((h * 16 + i) * 16 + j) * 16 + k) rest

def shortEscapes : List (Char × Char) :=
  [('"', '"'), ('\\', '\\'), ('/', '/'), ('b', '\x08'), ('f', '\x0c'), ('n', '\n'), ('r', '\r'),
   ('t', '\t')]

/-- An escape behind its backslash. A character outside of the basic plane takes two units. -/
inductive Escape : Bytes → Char → Bytes → Prop
  | short {letter c : Char} {rest : Bytes} :
      (letter, c) ∈ shortEscapes → Escape (letter.toUInt8 :: rest) c rest
  | unit {n : Nat} {bytes rest : Bytes} :
      HexUnit bytes n rest → n < 0xD800 ∨ 0xDFFF < n → Escape ('u'.toUInt8 :: bytes) (.ofNat n) rest
  | pair {high low : Nat} {bytes second rest : Bytes} :
      HexUnit bytes high ('\\'.toUInt8 :: 'u'.toUInt8 :: second) → HexUnit second low rest →
      0xD800 ≤ high → high ≤ 0xDBFF → 0xDC00 ≤ low → low ≤ 0xDFFF →
      Escape ('u'.toUInt8 :: bytes) (.ofNat (0x10000 + (high - 0xD800) * 0x400 + (low - 0xDC00)))
        rest

def IsPlain (b : UInt8) : Prop := b ≠ '"'.toUInt8 ∧ b ≠ '\\'.toUInt8 ∧ ¬b < 0x20

instance : DecidablePred IsPlain := fun _ => inferInstanceAs (Decidable (_ ∧ _ ∧ _))

/-- A text up to its closing quote, and the bytes it stands for. -/
inductive TextBytes : Bytes → Bytes → Bytes → Prop
  | close {rest : Bytes} : TextBytes ('"'.toUInt8 :: rest) [] rest
  | plain {b : UInt8} {bytes value rest : Bytes} :
      IsPlain b → TextBytes bytes value rest → TextBytes (b :: bytes) (b :: value) rest
  | escape {c : Char} {bytes after value rest : Bytes} :
      Escape bytes c after → TextBytes after value rest →
      TextBytes ('\\'.toUInt8 :: bytes) (String.utf8EncodeChar c ++ value) rest

/-- An escape behind its backslash, where one half of a surrogate pair may stand alone. -/
inductive AnyEscape : Bytes → Bytes → Prop
  | short {letter c : Char} {rest : Bytes} :
      (letter, c) ∈ shortEscapes → AnyEscape (letter.toUInt8 :: rest) rest
  | unit {n : Nat} {bytes rest : Bytes} :
      HexUnit bytes n rest → AnyEscape ('u'.toUInt8 :: bytes) rest

/-- A text up to its closing quote, whether it means something or not. -/
inductive AnyText : Bytes → Bytes → Prop
  | close {rest : Bytes} : AnyText ('"'.toUInt8 :: rest) rest
  | plain {b : UInt8} {bytes rest : Bytes} : IsPlain b → AnyText bytes rest → AnyText (b :: bytes) rest
  | escape {bytes after rest : Bytes} :
      AnyEscape bytes after → AnyText after rest → AnyText ('\\'.toUInt8 :: bytes) rest

/-- A text up to its closing quote, and what it means. -/
inductive Text : Bytes → Option String → Bytes → Prop
  | value {bytes rest : Bytes} {value : String} :
      TextBytes bytes (encode value) rest → Text bytes (some value) rest
  | meaningless {bytes rest : Bytes} :
      AnyText bytes rest → (∀ value, ¬TextBytes bytes (encode value) rest) → Text bytes none rest

theorem TextBytes.plain_append {front bytes value rest : Bytes} (plain : ∀ b ∈ front, IsPlain b)
    (text : TextBytes bytes value rest) : TextBytes (front ++ bytes) (front ++ value) rest := by
  induction front with
  | nil => exact text
  | cons b front ih =>
      obtain ⟨first, others⟩ := List.forall_mem_cons.mp plain
      exact .plain first (ih others)

/-- A text without quotes, backslashes and controls can be spelled as itself. -/
theorem Text.plain {word : List Char} {rest : Bytes} (plain : (ofChars word).all (IsPlain ·)) :
    Text (ofChars word ++ '"'.toUInt8 :: rest) (some (String.ofList word)) rest := by
  refine .value ?_
  have all : ∀ b ∈ ofChars word, IsPlain b := fun b mem =>
    of_decide_eq_true (List.all_eq_true.mp plain b mem)
  have text : TextBytes (ofChars word ++ '"'.toUInt8 :: rest) (ofChars word ++ []) rest :=
    .plain_append all .close
  rw [List.append_nil] at text
  rwa [encode_ofList]

theorem HexUnit.length_eq {bytes rest : Bytes} {n : Nat} (unit : HexUnit bytes n rest) :
    bytes.length = rest.length + 4 := by
  cases unit
  rfl

theorem Escape.length_lt {bytes rest : Bytes} {c : Char} (escape : Escape bytes c rest) :
    rest.length < bytes.length := by
  cases escape with
  | short => exact Nat.lt_succ_self _
  | unit unit =>
      rw [List.length_cons, unit.length_eq]
      omega
  | pair high low =>
      have := high.length_eq
      have := low.length_eq
      simp only [List.length_cons] at *
      omega

theorem AnyEscape.length_lt {bytes rest : Bytes} (escape : AnyEscape bytes rest) :
    rest.length < bytes.length := by
  cases escape with
  | short => exact Nat.lt_succ_self _
  | unit unit =>
      rw [List.length_cons, unit.length_eq]
      omega

theorem AnyText.length_lt {bytes rest : Bytes} (text : AnyText bytes rest) :
    rest.length < bytes.length := by
  induction text with
  | close => exact Nat.lt_succ_self _
  | plain _ _ ih => exact Nat.lt_succ_of_lt ih
  | escape escape _ ih => exact Nat.lt_succ_of_lt (Nat.lt_trans ih escape.length_lt)

theorem TextBytes.length_lt {bytes value rest : Bytes} (text : TextBytes bytes value rest) :
    rest.length < bytes.length := by
  induction text with
  | close => exact Nat.lt_succ_self _
  | plain _ _ ih => exact Nat.lt_succ_of_lt ih
  | escape escape _ ih => exact Nat.lt_succ_of_lt (Nat.lt_trans ih escape.length_lt)

theorem Text.length_lt {bytes rest : Bytes} {value : Option String} (text : Text bytes value rest) :
    rest.length < bytes.length := by
  cases text with
  | value text => exact text.length_lt
  | meaningless text => exact text.length_lt

end Texts

/-- What stands in front of an item: a comma, unless the item is the first one of its bracket. -/
inductive Gap : Bool → Bytes → Bytes → Prop
  | first {bytes front : Bytes} : Blank bytes front → Gap true bytes front
  | comma {bytes behind front : Bytes} :
      Blank bytes (','.toUInt8 :: behind) → Blank behind front → Gap false bytes front

/-- The items up to the closing bracket of a list or object, with the first one among them or not. -/
inductive Series {α : Type} (Item : Bytes → α → Bytes → Prop) (closing : Char) :
    Bool → Bytes → List α → Bytes → Prop
  | close {isFirst : Bool} {bytes rest : Bytes} :
      Blank bytes (closing.toUInt8 :: rest) → Series Item closing isFirst bytes [] rest
  | item {isFirst : Bool} {bytes front after rest : Bytes} {x : α} {xs : List α} :
      Gap isFirst bytes front → Item front x after → Series Item closing false after xs rest →
      Series Item closing isFirst bytes (x :: xs) rest

mutual

inductive Value : Bytes → Json → Bytes → Prop
  | null {rest : Bytes} : Value (letters ['n', 'u', 'l', 'l'] ++ rest) .null rest
  | true {rest : Bytes} : Value (letters ['t', 'r', 'u', 'e'] ++ rest) (.flag true) rest
  | false {rest : Bytes} : Value (letters ['f', 'a', 'l', 's', 'e'] ++ rest) (.flag false) rest
  | number {literal rest : Bytes} :
      IsNumber literal → Value (literal ++ rest) (.number literal) rest
  | text {bytes rest : Bytes} {value : Option String} :
      Text bytes value rest → Value ('"'.toUInt8 :: bytes) (.text value) rest
  | list {bytes rest : Bytes} {items : List Json} :
      Series Value ']' true bytes items rest → Value ('['.toUInt8 :: bytes) (.list items) rest
  | object {bytes rest : Bytes} {members : List (Option String × Json)} :
      Series Member '\x7d' true bytes members rest →
      Value ('\x7b'.toUInt8 :: bytes) (.object members) rest

inductive Member : Bytes → Option String × Json → Bytes → Prop
  | pair {bytes gap behind front rest : Bytes} {key : Option String} {value : Json} :
      Text bytes key gap → Blank gap (':'.toUInt8 :: behind) → Blank behind front →
      Value front value rest → Member ('"'.toUInt8 :: bytes) (key, value) rest

end

theorem Member.plain {key : List Char} {front rest : Bytes} {json : Json}
    (plain : (ofChars key).all (IsPlain ·)) (value : Value front json rest) :
    Member ('"'.toUInt8 :: (ofChars key ++ '"'.toUInt8 :: ':'.toUInt8 :: front))
      (some (String.ofList key), json) rest :=
  .pair (.plain plain) .none .none value

/-- A whole document: one value, with nothing but blanks around it. -/
def Document (bytes : Bytes) (json : Json) : Prop :=
  ∃ front rest, Blank bytes front ∧ Value front json rest ∧ Blank rest []

section Progress

variable {bytes front rest : Bytes}

theorem Blank.trans (blank : Blank bytes front) (more : Blank front rest) : Blank bytes rest := by
  induction blank with
  | none => exact more
  | more isBlank _ ih => exact .more isBlank (ih more)

theorem Blank.length_le (blank : Blank bytes rest) : rest.length ≤ bytes.length := by
  induction blank with
  | none => exact Nat.le_refl _
  | more _ _ ih => exact Nat.le_succ_of_le ih

theorem Gap.trans {isFirst : Bool} (gap : Gap isFirst bytes front) (blank : Blank front rest) :
    Gap isFirst bytes rest := by
  cases gap with
  | first before => exact .first (before.trans blank)
  | comma before behind => exact .comma before (behind.trans blank)

theorem Gap.length_le {isFirst : Bool} (gap : Gap isFirst bytes front) :
    front.length ≤ bytes.length := by
  cases gap with
  | first blank => exact blank.length_le
  | comma blank behind => exact Nat.le_trans behind.length_le (Nat.le_of_succ_le blank.length_le)

/-- A series takes bytes even where it has no item, as the bracket is one. -/
theorem Series.length_lt {α : Type} {Item : Bytes → α → Bytes → Prop} {closing : Char}
    {isFirst : Bool} {xs : List α} (series : Series Item closing isFirst bytes xs rest)
    (each : ∀ x ∈ xs, ∀ front after, Item front x after → after.length < front.length) :
    rest.length < bytes.length := by
  induction series with
  | close blank => exact blank.length_le
  | item gap item _ ih =>
      have others := ih fun x mem => each x (List.mem_cons_of_mem _ mem)
      have here := each _ List.mem_cons_self _ _ item
      have before := gap.length_le
      omega

theorem IsNumber.ne_nil {literal : Bytes} (number : IsNumber literal) : literal ≠ [] := by
  cases number with
  | parts _ whole => simp [whole.1.1]

theorem Member.length_lt_of_value {key : Option String} {value : Json}
    (member : Member bytes (key, value) rest)
    (inside : ∀ front, Value front value rest → rest.length < front.length) :
    rest.length < bytes.length := by
  cases member with
  | pair text gap behind value =>
      have := text.length_lt
      have := gap.length_le
      have := behind.length_le
      have := inside _ value
      simp only [List.length_cons] at *
      omega

/-- Every value takes some bytes. -/
theorem Value.length_lt {json : Json} (value : Value bytes json rest) :
    rest.length < bytes.length := by
  induction size : sizeOf json using Nat.strongRecOn generalizing json bytes rest with
  | ind n ih =>
      cases value with
      | null | true | false =>
          rw [List.length_append]
          exact Nat.lt_add_of_pos_left (by decide)
      | number number =>
          rw [List.length_append]
          exact Nat.lt_add_of_pos_left (List.length_pos_iff.mpr number.ne_nil)
      | text text => exact Nat.lt_succ_of_lt text.length_lt
      | list series =>
          refine Nat.lt_succ_of_lt (series.length_lt fun item mem front after value => ?_)
          exact ih _ (size ▸ Json.sizeOf_lt_of_mem_list mem) value rfl
      | object series =>
          refine Nat.lt_succ_of_lt (series.length_lt fun (key, x) mem front after member => ?_)
          refine member.length_lt_of_value fun front value => ?_
          exact ih _ (size ▸ Json.sizeOf_lt_of_mem_object mem) value rfl

theorem Member.length_lt {member : Option String × Json} (spelled : Member bytes member rest) :
    rest.length < bytes.length :=
  spelled.length_lt_of_value fun _ => Value.length_lt

end Progress

end Grammar

end TraceReplay.Interchange
