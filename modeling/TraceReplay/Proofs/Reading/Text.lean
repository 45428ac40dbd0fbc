import TraceReplay.Proofs.Reading.Token

/-!
The readers of texts against the grammar. A text ends at its own quote, so what is read is just what the
grammar has, with nothing said of what follows. A skipped text may be any; one that is read for its value
must stand for the bytes of that value.
-/
namespace TraceReplay.Interchange.Reader

open Grammar

section Escapes

variable {bytes rest : Bytes} {b : UInt8} {c : Char} {n : Nat}

theorem shortEscape?_eq_some_iff :
    shortEscape? b = some c ↔ ∃ letter, (letter, c) ∈ shortEscapes ∧ b = letter.toUInt8 := by
  constructor
  · intro found
    unfold shortEscape? at found
    repeat' split at found
    all_goals cases found
    all_goals
      rename_i same
      exact ⟨_, by simp [shortEscapes], same⟩
  · rintro ⟨letter, mem, rfl⟩
    have all : ∀ pair ∈ shortEscapes, shortEscape? pair.1.toUInt8 = some pair.2 := by decide
    exact all (letter, c) mem

theorem ne_u_of_mem_shortEscapes {letter : Char} (mem : (letter, c) ∈ shortEscapes) :
    letter.toUInt8 ≠ 'u'.toUInt8 := by
  have all : ∀ pair ∈ shortEscapes, pair.1.toUInt8 ≠ 'u'.toUInt8 := by decide
  exact all (letter, c) mem

theorem hexValue?_eq_some_iff : hexValue? b = some n ↔ IsHexDigit b n := by
  constructor
  · intro found
    have small : n < 16 := by
      unfold hexValue? at found
      grind
    have all : ∀ k < 256, ∀ d < 16, hexValue? (.ofNat k) = some d →
        UInt8.ofNat k = d.digitChar.toUInt8 ∨ UInt8.ofNat k = d.digitChar.toUpper.toUInt8 := by
      decide +kernel
    have spelled := all b.toNat b.toNat_lt n small
    rw [UInt8.ofNat_toNat] at spelled
    exact ⟨small, spelled found⟩
  · rintro ⟨small, spelled⟩
    have all : ∀ d < 16, hexValue? d.digitChar.toUInt8 = some d ∧
        hexValue? d.digitChar.toUpper.toUInt8 = some d := by decide
    rcases spelled with rfl | rfl
    · exact (all n small).1
    · exact (all n small).2

theorem hexUnit_eq_ok : hexUnit bytes = .ok n rest ↔ HexUnit bytes n rest := by
  constructor
  · intro read
    unfold hexUnit at read
    split at read
    case h_1 a b c d rest =>
        split at read
        case h_1 at_a at_b at_c at_d =>
            cases read
            exact .digits (hexValue?_eq_some_iff.mp at_a) (hexValue?_eq_some_iff.mp at_b)
              (hexValue?_eq_some_iff.mp at_c) (hexValue?_eq_some_iff.mp at_d)
        case h_2 => simp at read
    case h_2 => simp at read
  · rintro ⟨at_a, at_b, at_c, at_d⟩
    simp only [hexUnit, hexValue?_eq_some_iff.mpr at_a, hexValue?_eq_some_iff.mpr at_b,
      hexValue?_eq_some_iff.mpr at_c, hexValue?_eq_some_iff.mpr at_d]

theorem pairByte_eq_ok {u : Unit} : pairByte c bytes = .ok u rest ↔ bytes = c.toUInt8 :: rest := by
  rw [pairByte, take_bind]
  cases bytes with
  | nil => simp
  | cons b bytes =>
      simp only [List.head?_cons, List.tail_cons, ite_apply_eq, List.cons.injEq]
      by_cases same : b = c.toUInt8 <;> simp [same, pure_eq_ok]

theorem unicodeEscape_eq_ok :
    unicodeEscape bytes = .ok c rest ↔ Escape ('u'.toUInt8 :: bytes) c rest := by
  rw [unicodeEscape, bind_eq_ok]
  constructor
  · rintro ⟨high, after, unit, read⟩
    rw [hexUnit_eq_ok] at unit
    rw [ite_apply_eq, ite_apply_eq] at read
    split at read
    case isTrue => simp at read
    case isFalse notLow =>
        simp only [isLowSurrogate, Bool.and_eq_true, decide_eq_true_eq] at notLow
        split at read
        case isTrue isHigh =>
            simp only [isHighSurrogate, Bool.and_eq_true, decide_eq_true_eq] at isHigh
            simp only [bind_eq_ok, pairByte_eq_ok, hexUnit_eq_ok] at read
            obtain ⟨_, _, rfl, _, _, rfl, low, _, second, read⟩ := read
            rw [ite_apply_eq] at read
            split at read
            case isTrue isLow =>
                simp only [isLowSurrogate, Bool.and_eq_true, decide_eq_true_eq] at isLow
                obtain ⟨rfl, rfl⟩ := pure_eq_ok.mp read
                exact .pair unit second isHigh.1 isHigh.2 isLow.1 isLow.2
            case isFalse => simp at read
        case isFalse notHigh =>
            simp only [isHighSurrogate, Bool.and_eq_true, decide_eq_true_eq] at notHigh
            obtain ⟨rfl, rfl⟩ := pure_eq_ok.mp read
            exact .unit unit (by omega)
  · intro escape
    generalize marked : 'u'.toUInt8 :: bytes = all at escape
    cases escape with
    | short mem =>
        injection marked with same
        exact absurd same.symm (ne_u_of_mem_shortEscapes mem)
    | @unit n _ _ unit notSurrogate =>
        cases marked
        have notLow : isLowSurrogate n = false := by simp [isLowSurrogate]; omega
        have notHigh : isHighSurrogate n = false := by simp [isHighSurrogate]; omega
        exact ⟨n, _, hexUnit_eq_ok.mpr unit, by simp [notLow, notHigh, pure_eq_ok]⟩
    | @pair high low _ _ _ unit second highFrom highTo lowFrom lowTo =>
        cases marked
        have notLow : isLowSurrogate high = false := by simp [isLowSurrogate]; omega
        have isHigh : isHighSurrogate high = true := by simp [isHighSurrogate]; omega
        have isLow : isLowSurrogate low = true := by simp [isLowSurrogate]; omega
        refine ⟨high, _, hexUnit_eq_ok.mpr unit, ?_⟩
        simp only [notLow, isHigh, if_true, Bool.false_eq_true, if_false, bind_eq_ok, pairByte_eq_ok,
          hexUnit_eq_ok]
        exact ⟨(), _, rfl, (), _, rfl, low, _, second, by simp [isLow, pure_eq_ok]⟩

/-- Half of a surrogate pair is no escape where the text is read. -/
theorem escape_eq_ok : escape bytes = .ok c rest ↔ Escape bytes c rest := by
  rw [escape, take_bind]
  cases bytes with
  | nil =>
      refine ⟨fun read => ?_, nofun⟩
      simp at read
  | cons b bytes =>
      rw [List.head?_cons, List.tail_cons]
      cases found : shortEscape? b with
      | some letter =>
          obtain ⟨name, mem, rfl⟩ := shortEscape?_eq_some_iff.mp found
          simp only [found, pure_eq_ok]
          constructor
          · rintro ⟨rfl, rfl⟩
            exact .short mem
          · intro escape
            generalize marked : name.toUInt8 :: bytes = all at escape
            cases escape with
            | short mem' =>
                injection marked with same behind
                have again := shortEscape?_eq_some_iff.mpr ⟨_, mem', same⟩
                exact ⟨Option.some.inj (found.symm.trans again), behind⟩
            | unit | pair =>
                injection marked with same
                exact absurd same (ne_u_of_mem_shortEscapes mem)
      | none =>
          simp only [found, ite_apply_eq]
          by_cases marked : b = 'u'.toUInt8
          · simp only [marked, if_true, unicodeEscape_eq_ok]
          · simp only [marked, if_false, here_ne_ok, false_iff]
            intro escape
            cases escape with
            | short mem =>
                rw [shortEscape?_eq_some_iff.mpr ⟨_, mem, rfl⟩] at found
                cases found
            | unit | pair => exact marked rfl

/-- Half of a surrogate pair may stand alone where the text is skipped. -/
theorem skipEscape_eq_ok {u : Unit} : skipEscape bytes = .ok u rest ↔ AnyEscape bytes rest := by
  rw [skipEscape, take_bind]
  cases bytes with
  | nil =>
      refine ⟨fun read => ?_, nofun⟩
      simp at read
  | cons b bytes =>
      rw [List.head?_cons, List.tail_cons]
      cases found : shortEscape? b with
      | some c =>
          obtain ⟨letter, mem, rfl⟩ := shortEscape?_eq_some_iff.mp found
          simp only [found, Option.isSome_some, if_true, pure_eq_ok, true_and]
          constructor
          · rintro rfl
            exact .short mem
          · intro escape
            generalize marked : letter.toUInt8 :: bytes = all at escape
            cases escape with
            | short =>
                injection marked
            | unit =>
                injection marked with same
                exact absurd same (ne_u_of_mem_shortEscapes mem)
      | none =>
          simp only [found, Option.isSome_none, Bool.false_eq_true, if_false, ite_apply_eq]
          by_cases marked : b = 'u'.toUInt8
          · simp only [marked, if_true, bind_eq_ok, hexUnit_eq_ok, pure_eq_ok, true_and]
            constructor
            · rintro ⟨n, _, unit, rfl⟩
              exact .unit unit
            · intro escape
              generalize letter : 'u'.toUInt8 :: bytes = all at escape
              cases escape with
              | short mem =>
                  injection letter with same
                  exact absurd same.symm (ne_u_of_mem_shortEscapes mem)
              | unit unit =>
                  cases letter
                  exact ⟨_, _, unit, rfl⟩
          · simp only [marked, if_false, here_ne_ok, false_iff]
            intro escape
            cases escape with
            | short mem =>
                rw [shortEscape?_eq_some_iff.mpr ⟨_, mem, rfl⟩] at found
                cases found
            | unit => exact marked rfl

end Escapes

section Texts

variable {fuel bytes rest value : Bytes}

theorem textBytes_of_textBytesFrom (read : textBytesFrom fuel bytes = .ok value rest) :
    TextBytes bytes value rest := by
  induction fuel generalizing bytes value with
  | nil => simp [textBytesFrom] at read
  | cons f fuel ih =>
      rw [textBytesFrom, take_bind] at read
      cases bytes with
      | nil => simp at read
      | cons b bytes =>
          simp only [List.head?_cons, List.tail_cons, ite_apply_eq] at read
          split at read
          case isTrue quote =>
              obtain ⟨rfl, rfl⟩ := pure_eq_ok.mp read
              exact quote ▸ .close
          case isFalse notQuote =>
              split at read
              case isTrue backslash =>
                  simp only [bind_eq_ok, escape_eq_ok, pure_eq_ok] at read
                  obtain ⟨c, after, escaped, text, _, read, rfl, rfl⟩ := read
                  exact backslash ▸ .escape escaped (ih read)
              case isFalse notBackslash =>
                  split at read
                  case isTrue => simp at read
                  case isFalse notControl =>
                      simp only [bind_eq_ok, pure_eq_ok] at read
                      obtain ⟨text, _, read, rfl, rfl⟩ := read
                      exact .plain ⟨notQuote, notBackslash, notControl⟩ (ih read)

/-- Each round takes a byte at least, so the fuel lasts. -/
theorem textBytesFrom_of_textBytes (text : TextBytes bytes value rest)
    (enough : bytes.length ≤ fuel.length) : textBytesFrom fuel bytes = .ok value rest := by
  induction text generalizing fuel with
  | close =>
      cases fuel with
      | nil => simp at enough
      | cons f fuel => rfl
  | @plain b bytes value rest plain _ ih =>
      cases fuel with
      | nil => simp at enough
      | cons f fuel =>
          rw [textBytesFrom, take_bind]
          simp only [List.head?_cons, List.tail_cons, plain.1, plain.2.1, plain.2.2, if_false]
          exact bind_eq_ok.mpr ⟨value, rest, ih (Nat.le_of_succ_le_succ enough), rfl⟩
  | @escape c bytes after value rest escaped _ ih =>
      cases fuel with
      | nil => simp at enough
      | cons f fuel =>
          have shorter := escaped.length_lt
          have notQuote : '\\'.toUInt8 ≠ '"'.toUInt8 := by decide
          rw [textBytesFrom, take_bind]
          simp only [List.head?_cons, List.tail_cons, notQuote, if_false, if_true, bind_eq_ok,
            escape_eq_ok]
          simp only [List.length_cons] at enough
          exact ⟨c, after, escaped, value, rest, ih (by omega), rfl⟩

/-- The reader takes just what the grammar calls a text, and gives the bytes it stands for. -/
theorem textBytes_eq_ok : textBytes bytes = .ok value rest ↔ TextBytes bytes value rest :=
  ⟨textBytes_of_textBytesFrom, fun text => textBytesFrom_of_textBytes text (Nat.le_succ _)⟩

theorem text_eq_ok {value : String} :
    text bytes = .ok value rest ↔ TextBytes bytes (Utf8.encode value) rest := by
  rw [text, bind_eq_ok]
  constructor
  · rintro ⟨read, after, spelled, decoded⟩
    rw [textBytes_eq_ok] at spelled
    cases meaning : Utf8.decode read with
    | ok known =>
        simp only [meaning, pure_eq_ok] at decoded
        obtain ⟨rfl, rfl⟩ := decoded
        rwa [← Utf8.decode_eq_ok_iff.mp meaning]
    | error valid =>
        rw [meaning] at decoded
        cases decoded
  · intro spelled
    refine ⟨_, _, textBytes_eq_ok.mpr spelled, ?_⟩
    simp only [Utf8.decode_encode, pure_eq_ok, and_self]

theorem anyText_of_skipTextFrom {u : Unit} (read : skipTextFrom fuel bytes = .ok u rest) :
    AnyText bytes rest := by
  induction fuel generalizing bytes with
  | nil => simp [skipTextFrom] at read
  | cons f fuel ih =>
      rw [skipTextFrom, look_bind] at read
      cases bytes with
      | nil => simp at read
      | cons b bytes =>
          simp only [List.head?_cons, ite_apply_eq, advance_bind, List.tail_cons] at read
          split at read
          case isTrue => simp at read
          case isFalse notControl =>
              split at read
              case isTrue quote =>
                  obtain ⟨-, rfl⟩ := pure_eq_ok.mp read
                  exact quote ▸ .close
              case isFalse notQuote =>
                  split at read
                  case isTrue backslash =>
                      simp only [bind_eq_ok, skipEscape_eq_ok] at read
                      obtain ⟨_, after, escaped, read⟩ := read
                      exact backslash ▸ .escape escaped (ih read)
                  case isFalse notBackslash =>
                      exact .plain ⟨notQuote, notBackslash, notControl⟩ (ih read)

theorem skipTextFrom_of_anyText (text : AnyText bytes rest) (enough : bytes.length ≤ fuel.length) :
    skipTextFrom fuel bytes = .ok () rest := by
  induction text generalizing fuel with
  | close =>
      cases fuel with
      | nil => simp at enough
      | cons f fuel => rfl
  | plain plain _ ih =>
      cases fuel with
      | nil => simp at enough
      | cons f fuel =>
          rw [skipTextFrom, look_bind]
          simp only [List.head?_cons, plain.2.2, if_false, advance_bind, List.tail_cons, plain.1,
            plain.2.1]
          exact ih (Nat.le_of_succ_le_succ enough)
  | @escape bytes after rest escaped _ ih =>
      cases fuel with
      | nil => simp at enough
      | cons f fuel =>
          have shorter := escaped.length_lt
          have notControl : ¬('\\'.toUInt8 < 0x20) := by decide
          have notQuote : '\\'.toUInt8 ≠ '"'.toUInt8 := by decide
          rw [skipTextFrom, look_bind]
          simp only [List.head?_cons, notControl, if_false, advance_bind, List.tail_cons, notQuote,
            if_true, bind_eq_ok, skipEscape_eq_ok]
          simp only [List.length_cons] at enough
          exact ⟨(), after, escaped, ih (by omega)⟩

theorem skipText_eq_ok {u : Unit} : skipText bytes = .ok u rest ↔ AnyText bytes rest :=
  ⟨anyText_of_skipTextFrom, fun text => skipTextFrom_of_anyText text (Nat.le_succ _)⟩

theorem anyText_of_textBytes (text : TextBytes bytes value rest) : AnyText bytes rest := by
  induction text with
  | close => exact .close
  | plain plain _ ih => exact .plain plain ih
  | escape escaped _ ih =>
      cases escaped with
      | short mem => exact .escape (.short mem) ih
      | unit unit => exact .escape (.unit unit) ih
      | pair high low => exact .escape (.unit high) (.escape (.unit low) ih)

/-- A skipped text is one of the grammar, and has a meaning or none. -/
theorem skipText_eq_ok_iff {u : Unit} :
    skipText bytes = .ok u rest ↔ ∃ value, Text bytes value rest := by
  rw [skipText_eq_ok]
  constructor
  · intro any
    by_cases meaning : ∃ value, TextBytes bytes (Utf8.encode value) rest
    · obtain ⟨value, spelled⟩ := meaning
      exact ⟨some value, .value spelled⟩
    · exact ⟨none, .meaningless any fun value spelled => meaning ⟨value, spelled⟩⟩
  · rintro ⟨_, text⟩
    cases text with
    | value spelled => exact anyText_of_textBytes spelled
    | meaningless any => exact any

end Texts

end TraceReplay.Interchange.Reader
