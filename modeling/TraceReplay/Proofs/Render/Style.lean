import TraceReplay.Proofs.Interchange.Location
import TraceReplay.Proofs.Text.Utf8
import TraceReplay.Render.Piece

/-!
What a terminal makes of printed bytes. A style code is an escape, a bracket, parameters and an `m`; it selects a
style and shows nothing. All other bytes show. Pieces are tidy where no text has an escape of its own and each
style is reset right behind the one text that it is for. Of tidy pieces just the texts show, in colour or not.
-/
namespace TraceReplay.Terminal

def escape : UInt8 := '\x1b'.toUInt8

/-- A byte that shows, or a style code with its parameters. -/
inductive Symbol
  | byte (b : UInt8)
  | style (parameters : Bytes)
deriving DecidableEq

def isParameter (b : UInt8) : Bool := '0'.toUInt8 ≤ b && b ≤ '?'.toUInt8

/-- The parameters of a style code from behind its bracket, and what stands behind its `m`. -/
def parameters? : List Symbol → Option (Bytes × List Symbol)
  | .byte b :: symbols =>
    if b = 'm'.toUInt8 then some ([], symbols)
    else if isParameter b then
      (parameters? symbols).map fun (parameters, rest) => (b :: parameters, rest)
    else none
  | _ => none

def style? : List Symbol → Option (Bytes × List Symbol)
  | .byte b :: symbols => if b = '['.toUInt8 then parameters? symbols else none
  | _ => none

/-- The symbols of some bytes. No style code has an escape within, so reading them from the last byte to the first
finds the same codes as reading them from the first one. -/
def symbols : Bytes → List Symbol
  | [] => []
  | b :: bytes =>
    match if b = escape then style? (symbols bytes) else none with
    | some (parameters, rest) => .style parameters :: rest
    | none => .byte b :: symbols bytes

def Symbol.shown? : Symbol → Option UInt8
  | .byte b => some b
  | .style _ => none

def Symbol.style? : Symbol → Option Bytes
  | .byte _ => none
  | .style parameters => some parameters

/-- The bytes that show: all but the style codes. -/
def visible (bytes : Bytes) : Bytes := (symbols bytes).filterMap Symbol.shown?

def styles (bytes : Bytes) : List Bytes := (symbols bytes).filterMap Symbol.style?

def resetStyle : Bytes := Utf8.encode "0"

def EscapeFree (text : String) : Prop := '\x1b' ∉ text.toList

instance : DecidablePred EscapeFree := fun _ => inferInstanceAs (Decidable (¬_))

section Reading

variable {bytes rest : Bytes}

/-- Bytes without an escape among them show as they are. -/
theorem symbols_text (plain : escape ∉ bytes) (rest : Bytes) :
    symbols (bytes ++ rest) = bytes.map .byte ++ symbols rest := by
  induction bytes with
  | nil => rfl
  | cons b bytes ih =>
      rw [List.mem_cons, not_or] at plain
      rw [List.cons_append, symbols, if_neg (Ne.symm plain.1), ih plain.2]
      rfl

theorem parameters?_append {parameters : Bytes} (all : ∀ b ∈ parameters, isParameter b = true)
    (symbols : List Symbol) :
    parameters? (parameters.map .byte ++ .byte 'm'.toUInt8 :: symbols) =
      some (parameters, symbols) := by
  induction parameters with
  | nil => rfl
  | cons b parameters ih =>
      obtain ⟨first, others⟩ := List.forall_mem_cons.mp all
      have apart : b ≠ 'm'.toUInt8 := by
        rintro rfl
        cases first
      rw [List.map_cons, List.cons_append, parameters?, if_neg apart, if_pos first, ih others]
      rfl

theorem symbols_style {parameters : Bytes} (all : ∀ b ∈ parameters, isParameter b = true)
    (rest : Bytes) :
    symbols (escape :: '['.toUInt8 :: (parameters ++ 'm'.toUInt8 :: rest)) =
      .style parameters :: symbols rest := by
  have noEscape : escape ∉ parameters := fun mem => Bool.noConfusion (all escape mem)
  have inner : symbols ('['.toUInt8 :: (parameters ++ 'm'.toUInt8 :: rest)) =
      .byte '['.toUInt8 :: (parameters.map .byte ++ .byte 'm'.toUInt8 :: symbols rest) := by
    have single {b : UInt8} (plain : escape ∉ [b]) (rest : Bytes) :
        symbols (b :: rest) = .byte b :: symbols rest := symbols_text plain rest
    rw [single (by decide), symbols_text noEscape, single (by decide)]
  rw [symbols, inner, if_pos rfl, style?, if_pos rfl, parameters?_append all]

end Reading

section Texts

variable {text other : String}

/-- The escape is an ASCII character, and no byte of another one is the same. -/
theorem escape_notMem_encode (free : EscapeFree text) : escape ∉ Utf8.encode text := by
  intro mem
  obtain ⟨c, inText, inChar⟩ := List.mem_flatMap.mp mem
  by_cases ascii : c.toNat < 0x80
  · rw [Utf8.utf8EncodeChar_ascii ascii, List.mem_singleton] at inChar
    have same := congrArg UInt8.toNat inChar
    have value : c.toNat = 0x1b := by
      change 27 = c.val.toNat % 256 at same
      change c.val.toNat < 0x80 at ascii
      change c.val.toNat = 27
      omega
    have isEscape : c = '\x1b' := Char.toNat_inj.mp value
    exact free (isEscape ▸ inText)
  · have above := Utf8.le_of_mem_utf8EncodeChar (Nat.le_of_not_lt ascii) inChar
    exact absurd above (by decide)

@[simp] theorem escapeFree_append :
    EscapeFree (text ++ other) ↔ EscapeFree text ∧ EscapeFree other := by
  rw [EscapeFree, String.toList_append, List.mem_append, not_or]
  rfl

@[simp] theorem escapeFree_repr (n : Nat) : EscapeFree n.repr := by
  intro mem
  have digit := PathStep.digit_of_mem_toString n _ mem
  exact absurd digit (by decide)

@[simp] theorem escapeFree_spaces (n : Nat) :
    EscapeFree (String.ofList (List.replicate n ' ')) := by
  rw [EscapeFree, String.toList_ofList]
  exact fun mem => absurd (List.eq_of_mem_replicate mem) (by decide)

theorem escapeFree_join {texts : List String} (all : ∀ text ∈ texts, EscapeFree text) :
    EscapeFree (String.join texts) := by
  rw [EscapeFree, String.toList_join, List.mem_flatMap]
  rintro ⟨text, mem, inText⟩
  exact all text mem inText

theorem escapeFree_intercalate {between : String} (free : EscapeFree between) {texts : List String}
    (all : ∀ text ∈ texts, EscapeFree text) : EscapeFree (String.intercalate between texts) := by
  rw [EscapeFree, String.toList_intercalate]
  induction texts with
  | nil => exact List.not_mem_nil
  | cons text texts ih =>
      obtain ⟨first, others⟩ := List.forall_mem_cons.mp all
      cases texts with
      | nil => simpa [List.intercalate, EscapeFree] using first
      | cons next texts =>
          rw [List.map_cons, List.map_cons, List.intercalate, List.intersperse_cons_cons,
            List.flatten_cons, List.flatten_cons, List.mem_append, List.mem_append, not_or, not_or]
          exact ⟨first, free, ih others⟩

end Texts

def symbolsOf : Piece → List Symbol
  | .plain text => (Utf8.encode text).map .byte
  | .bold => [.style resetStyle, .style (Utf8.encode "1")]
  | .ink colour => [.style resetStyle, .style (Utf8.encode colour.code)]
  | .reset => [.style resetStyle]

/-- Pieces whose texts show as they stand, where a style is for one text alone and is then reset. -/
inductive Tidy : List Piece → Prop
  | nil : Tidy []
  | plain {text : String} {pieces : List Piece} :
      EscapeFree text → Tidy pieces → Tidy (.plain text :: pieces)
  | styled {style : Piece} {text : String} {pieces : List Piece} :
      style = .bold ∨ (∃ colour, style = .ink colour) → EscapeFree text → Tidy pieces →
      Tidy (style :: .plain text :: .reset :: pieces)

section Pieces

variable {pieces more : List Piece}

theorem Tidy.append (tidy : Tidy pieces) (tidy' : Tidy more) : Tidy (pieces ++ more) := by
  induction tidy with
  | nil => exact tidy'
  | plain free _ ih => exact .plain free ih
  | styled selects free _ ih => exact .styled selects free ih

theorem tidy_flatMap {α : Type} {shown : α → List Piece} {items : List α}
    (each : ∀ item ∈ items, Tidy (shown item)) : Tidy (items.flatMap shown) := by
  induction items with
  | nil => exact .nil
  | cons item items ih =>
      obtain ⟨first, others⟩ := List.forall_mem_cons.mp each
      exact first.append (ih others)

theorem symbols_styleCode {code : String} (all : (Utf8.encode code).all isParameter = true)
    (rest : Bytes) :
    symbols (Utf8.encode (styleCode code) ++ rest) = .style (Utf8.encode code) :: symbols rest := by
  have spelled : Utf8.encode (styleCode code) =
      escape :: '['.toUInt8 :: (Utf8.encode code ++ ['m'.toUInt8]) := by
    rw [styleCode, Utf8.encode_append, Utf8.encode_append, Utf8.encode_append]
    rfl
  rw [spelled, ← symbols_style (List.all_eq_true.mp all) rest, List.cons_append, List.cons_append,
    List.append_assoc, List.singleton_append]

theorem symbols_shown {piece : Piece} (free : ∀ text, piece = .plain text → EscapeFree text)
    (rest : Bytes) :
    symbols (Utf8.encode (piece.shown true) ++ rest) = symbolsOf piece ++ symbols rest := by
  -- a style is selected by two codes, of which the first one is the reset
  have select {code : String} (all : (Utf8.encode code).all isParameter = true) :
      symbols (Utf8.encode (styleCode "0" ++ styleCode code) ++ rest) =
        .style resetStyle :: .style (Utf8.encode code) :: symbols rest := by
    rw [Utf8.encode_append, List.append_assoc, symbols_styleCode (by decide), symbols_styleCode all]
    rfl
  cases piece with
  | plain text => exact symbols_text (escape_notMem_encode (free text rfl)) rest
  | bold => exact select (by decide)
  | ink colour => exact select (by cases colour <;> decide)
  | reset => exact symbols_styleCode (by decide) rest

theorem symbols_cons (piece : Piece) (free : ∀ text, piece = .plain text → EscapeFree text)
    {rest : Bytes}
    (behind : symbols (Piece.bytes true pieces ++ rest) =
      pieces.flatMap symbolsOf ++ symbols rest) :
    symbols (Piece.bytes true (piece :: pieces) ++ rest) =
      (piece :: pieces).flatMap symbolsOf ++ symbols rest := by
  rw [Piece.bytes, List.flatMap_cons, List.append_assoc, symbols_shown free, List.flatMap_cons,
    List.append_assoc, ← behind]
  rfl

/-- A terminal reads pieces one by one, since no text of theirs has an escape in it. -/
theorem Tidy.symbols_bytes (tidy : Tidy pieces) (rest : Bytes) :
    symbols (Piece.bytes true pieces ++ rest) = pieces.flatMap symbolsOf ++ symbols rest := by
  induction tidy with
  | nil => rfl
  | plain free _ ih =>
      refine symbols_cons _ (fun text same => ?_) ih
      cases same
      exact free
  | styled selects free _ ih =>
      have inside := symbols_cons .reset nofun ih
      have withText := symbols_cons (.plain _) (fun text same => Piece.plain.inj same ▸ free) inside
      rcases selects with rfl | ⟨colour, rfl⟩
      · exact symbols_cons .bold nofun withText
      · exact symbols_cons (.ink colour) nofun withText

/-- What shows is what is printed without colours. -/
theorem Tidy.visible_bytes (tidy : Tidy pieces) (rest : Bytes) :
    visible (Piece.bytes true pieces ++ rest) = Piece.bytes false pieces ++ visible rest := by
  have each (piece : Piece) :
      (symbolsOf piece).filterMap Symbol.shown? = Utf8.encode (piece.shown false) := by
    cases piece with
    | plain text =>
        rw [symbolsOf, List.filterMap_map]
        exact List.filterMap_some
    | bold | ink | reset => rfl
  rw [visible, tidy.symbols_bytes, List.filterMap_append, List.filterMap_flatMap]
  simp only [each]
  rfl

def stylesOf (pieces : List Piece) : List Bytes :=
  pieces.flatMap fun piece => (symbolsOf piece).filterMap Symbol.style?

theorem Tidy.styles_bytes (tidy : Tidy pieces) :
    styles (Piece.bytes true pieces) = stylesOf pieces := by
  have spelled := tidy.symbols_bytes []
  rw [symbols, List.append_nil, List.append_nil] at spelled
  rw [styles, spelled, List.filterMap_flatMap]
  rfl

/-- No style outlasts tidy pieces. -/
theorem Tidy.ends_reset (tidy : Tidy pieces) :
    ∀ style ∈ (styles (Piece.bytes true pieces)).getLast?, style = resetStyle := by
  rw [tidy.styles_bytes]
  have silent (text : String) : (symbolsOf (.plain text)).filterMap Symbol.style? = [] := by
    rw [symbolsOf, List.filterMap_map]
    exact List.filterMap_eq_nil_iff.mpr fun _ _ => rfl
  induction tidy with
  | nil => nofun
  | @plain text pieces _ _ ih =>
      rw [stylesOf, List.flatMap_cons, silent, List.nil_append]
      exact ih
  | @styled style text pieces _ _ _ ih =>
      have split : stylesOf (style :: .plain text :: .reset :: pieces) =
          (symbolsOf style).filterMap Symbol.style? ++ (resetStyle :: stylesOf pieces) := by
        rw [stylesOf, List.flatMap_cons, List.flatMap_cons, silent]
        rfl
      rw [split, List.getLast?_append, List.getLast?_cons, Option.some_or]
      intro last isLast
      obtain rfl := Option.some.inj isLast
      cases behind : (stylesOf pieces).getLast? with
      | none => rfl
      | some style => exact ih style behind

end Pieces

end TraceReplay.Terminal
