import TraceReplay.Interchange.Encode
import TraceReplay.Proofs.Reading.Grammar

/-!
A text that is written between quotes means itself, whatever characters it holds. Each of them stands for
itself, as bytes that are plain, or behind an escape.
-/
namespace TraceReplay.Interchange

open Utf8 Grammar

theorem isHexDigit_hexDigit {d : Nat} (small : d < 16) :
    (Text.hexDigit d).toNat < 0x80 ∧ IsHexDigit (Text.hexDigit d).toUInt8 d := by
  have all : ∀ d < 16, (Text.hexDigit d).toNat < 0x80 ∧ Text.hexDigit d = d.digitChar := by decide
  obtain ⟨ascii, same⟩ := all d small
  exact ⟨ascii, small, .inl (congrArg Char.toUInt8 same)⟩

theorem escape_control {c : Char} (control : c.toNat < 0x20) (rest : List Char) :
    Escape (ofChars (['u', '0', '0', Text.hexDigit (c.toNat / 16), Text.hexDigit (c.toNat % 16)] ++
      rest)) c (ofChars rest) := by
  obtain ⟨highAscii, high⟩ := isHexDigit_hexDigit (show c.toNat / 16 < 16 by omega)
  obtain ⟨lowAscii, low⟩ := isHexDigit_hexDigit (show c.toNat % 16 < 16 by omega)
  have zero : IsHexDigit '0'.toUInt8 0 := ⟨by decide, .inl rfl⟩
  have ascii : 'u'.toNat < 0x80 ∧ '0'.toNat < 0x80 := by decide
  have number : ((0 * 16 + 0) * 16 + c.toNat / 16) * 16 + c.toNat % 16 = c.toNat := by omega
  have unit : HexUnit ('0'.toUInt8 :: '0'.toUInt8 :: (Text.hexDigit (c.toNat / 16)).toUInt8 ::
      (Text.hexDigit (c.toNat % 16)).toUInt8 :: ofChars rest)
      (((0 * 16 + 0) * 16 + c.toNat / 16) * 16 + c.toNat % 16) (ofChars rest) :=
    .digits zero zero high low
  rw [number] at unit
  have escape := Escape.unit unit (.inl (by omega))
  rw [Char.ofNat_toNat] at escape
  simp only [List.cons_append, List.nil_append, ofChars_cons_ascii ascii.1,
    ofChars_cons_ascii ascii.2, ofChars_cons_ascii highAscii, ofChars_cons_ascii lowAscii]
  exact escape

/-- How a character stands in a text: plain, or as an escape. -/
theorem textChar_cases (c : Char) :
    (textChar c = [c] ∧ c ≠ '"' ∧ c ≠ '\\' ∧ 0x20 ≤ c.toNat) ∨
      ∃ tail, textChar c = '\\' :: tail ∧
        ∀ rest, Escape (ofChars (tail ++ rest)) c (ofChars rest) := by
  have short {letter : Char} (ascii : letter.toNat < 0x80) (mem : (letter, c) ∈ shortEscapes)
      (rest : List Char) : Escape (ofChars ([letter] ++ rest)) c (ofChars rest) := by
    rw [List.singleton_append, ofChars_cons_ascii ascii]
    exact .short mem
  unfold textChar
  split
  case isTrue h =>
      subst h
      exact .inr ⟨['"'], rfl, short (by decide) (by decide)⟩
  split
  case isTrue h =>
      subst h
      exact .inr ⟨['\\'], rfl, short (by decide) (by decide)⟩
  split
  case isTrue h =>
      subst h
      exact .inr ⟨['b'], rfl, short (by decide) (by decide)⟩
  split
  case isTrue h =>
      subst h
      exact .inr ⟨['t'], rfl, short (by decide) (by decide)⟩
  split
  case isTrue h =>
      subst h
      exact .inr ⟨['n'], rfl, short (by decide) (by decide)⟩
  split
  case isTrue h =>
      subst h
      exact .inr ⟨['f'], rfl, short (by decide) (by decide)⟩
  split
  case isTrue h =>
      subst h
      exact .inr ⟨['r'], rfl, short (by decide) (by decide)⟩
  split
  case isTrue control => exact .inr ⟨_, rfl, escape_control control⟩
  case isFalse quote backslash _ _ _ _ _ plain =>
      exact .inl ⟨rfl, quote, backslash, Nat.le_of_not_lt plain⟩

theorem isPlain_of_mem {c : Char} (quote : c ≠ '"') (backslash : c ≠ '\\') (plain : 0x20 ≤ c.toNat)
    {b : UInt8} (mem : b ∈ String.utf8EncodeChar c) : IsPlain b := by
  by_cases ascii : c.toNat < 0x80
  · rw [utf8EncodeChar_ascii ascii, List.mem_singleton] at mem
    have same : b.toNat = c.toNat := by
      rw [mem]
      exact Nat.mod_eq_of_lt (Nat.lt_trans ascii (by decide))
    refine ⟨?_, ?_, ?_⟩
    · intro h
      exact quote (Char.toNat_inj.mp (same.symm.trans (congrArg UInt8.toNat h)))
    · intro h
      exact backslash (Char.toNat_inj.mp (same.symm.trans (congrArg UInt8.toNat h)))
    · rw [UInt8.lt_iff_toNat_lt, same]
      exact Nat.not_lt.mpr plain
  · have high := le_of_mem_utf8EncodeChar (Nat.le_of_not_lt ascii) mem
    refine ⟨?_, ?_, ?_⟩
    · rintro rfl
      exact absurd high (by decide)
    · rintro rfl
      exact absurd high (by decide)
    · rw [UInt8.lt_iff_toNat_lt]
      exact Nat.not_lt.mpr (Nat.le_trans (by decide) high)

theorem textBytes_flatMap_textChar (cs rest : List Char) :
    TextBytes (ofChars (cs.flatMap textChar ++ '"' :: rest)) (ofChars cs) (ofChars rest) := by
  induction cs with
  | nil => exact .close
  | cons c cs ih =>
      rw [List.flatMap_cons, List.append_assoc, ofChars_cons c cs]
      rcases textChar_cases c with ⟨plain, quote, backslash, above⟩ | ⟨tail, escaped, escape⟩
      · rw [plain, List.singleton_append, ofChars_cons]
        exact ih.plain_append fun b mem => isPlain_of_mem quote backslash above mem
      · have ascii : '\\'.toNat < 0x80 := by decide
        rw [escaped, List.cons_append, ofChars_cons_ascii ascii]
        exact .escape (escape _) ih

/-- A text behind its opening quote. -/
theorem text_flatMap_textChar (text : String) (rest : List Char) :
    Grammar.Text (ofChars (text.toList.flatMap textChar ++ '"' :: rest)) (some text)
      (ofChars rest) :=
  .value (textBytes_flatMap_textChar text.toList rest)

end TraceReplay.Interchange
