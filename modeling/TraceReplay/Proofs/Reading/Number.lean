import TraceReplay.Proofs.Reading.Token

/-!
Skipping numbers against the grammar. Where a number ends is seen by what stands behind it, so a literal is
skipped to its end only in front of something that cannot go on with it, as after every value of a document.
-/
namespace TraceReplay.Interchange

namespace Grammar

/-- What may stand behind a value: blanks, a comma, a closing bracket or nothing. -/
def Follows (rest : Bytes) : Prop :=
  ∀ b ∈ rest.head?, Reader.isBlank b = true ∨ b ∈ letters [',', ']', '\x7d']

theorem Follows.stops {rest : Bytes} {sort : UInt8 → Bool} (follows : Follows rest)
    (others : (letters [' ', '\t', '\n', '\r', ',', ']', '\x7d']).any sort = false) :
    Reader.Stops sort rest := by
  intro b mem
  refine Bool.eq_false_iff.mpr (List.any_eq_false.mp others b ?_)
  rcases follows b mem with blank | closing
  · obtain ⟨c, isBlank, rfl⟩ := Reader.isBlank_iff.mp blank
    exact List.mem_map_of_mem (List.mem_append_left [',', ']', '\x7d'] isBlank)
  · exact List.mem_append_right (letters [' ', '\t', '\n', '\r']) closing

end Grammar

namespace Reader

open Grammar

variable {bytes rest : Bytes} {b : UInt8} {d n : Nat}

section Digits

theorem digit?_eq_some_iff : digit? b = some d ↔ d < 10 ∧ b = d.digitChar.toUInt8 := by
  have all : ∀ k < 256, ∀ d < 10, digit? (.ofNat k) = some d ↔ UInt8.ofNat k = d.digitChar.toUInt8 := by
    decide +kernel
  constructor
  · intro found
    have small : d < 10 := by
      unfold digit? at found
      grind
    have spelled := (all b.toNat b.toNat_lt d small).mp
    rw [UInt8.ofNat_toNat] at spelled
    exact ⟨small, spelled found⟩
  · rintro ⟨small, rfl⟩
    have value := (all d.digitChar.toUInt8.toNat (UInt8.toNat_lt _) d small).mpr
    rw [UInt8.ofNat_toNat] at value
    exact value rfl

theorem isDigit_iff : isDigit b = true ↔ IsDigit b := by
  rw [isDigit, IsDigit, UInt8.le_iff_toNat_le, UInt8.le_iff_toNat_le]
  change (digit? b).isSome = true ↔ 48 ≤ b.toNat ∧ b.toNat ≤ 57
  unfold digit?
  by_cases digit : 48 ≤ b.toNat ∧ b.toNat ≤ 57 <;> simp [digit]

/-- A run of digits that is as long as it can be. -/
theorem skipDigits_eq_ok {u : Unit} :
    skipDigits bytes = .ok u rest ↔
      ∃ digits, bytes = digits ++ rest ∧ (∀ b ∈ digits, IsDigit b) ∧ Stops isDigit rest := by
  have ran : skipDigits bytes = .ok () (bytes.dropWhile isDigit) := rfl
  rw [ran, EStateM.Result.ok.injEq, dropWhile_eq_iff]
  simp only [true_and, isDigit_iff]

theorem any_isDigit_of_isDigits {digits : Bytes} (isDigits : IsDigits digits) :
    (digits ++ rest).head?.any isDigit = true := by
  obtain ⟨b, digits, rfl⟩ := List.exists_cons_of_ne_nil isDigits.1
  exact isDigit_iff.mpr (isDigits.2 b List.mem_cons_self)

theorem skipSomeDigits_eq_ok {u : Unit} :
    skipSomeDigits bytes = .ok u rest ↔
      ∃ digits, bytes = digits ++ rest ∧ IsDigits digits ∧ Stops isDigit rest := by
  rw [skipSomeDigits, look_bind, ite_apply_eq]
  constructor
  · intro read
    split at read
    case isTrue more =>
        obtain ⟨digits, rfl, all, stops⟩ := skipDigits_eq_ok.mp read
        refine ⟨digits, rfl, ⟨?_, all⟩, stops⟩
        rintro rfl
        rw [List.nil_append, any_head?_eq_false_iff.mpr stops] at more
        cases more
    case isFalse => simp at read
  · rintro ⟨digits, rfl, isDigits, stops⟩
    split
    case isTrue => exact skipDigits_eq_ok.mpr ⟨digits, rfl, isDigits.2, stops⟩
    case isFalse none => exact absurd (any_isDigit_of_isDigits isDigits) none

end Digits

section Skipped

theorem isWhole_cons {digits : Bytes} :
    IsWhole (b :: digits) ↔
      IsDigit b ∧ (∀ c ∈ digits, IsDigit c) ∧ (b = '0'.toUInt8 → digits = []) := by
  simp only [IsWhole, IsDigits, ne_eq, reduceCtorEq, not_false_eq_true, true_and,
    List.forall_mem_cons, List.head?_cons, Option.some.injEq, List.cons.injEq, and_assoc]
  grind

theorem exists_isWhole_iff {P : Prop} :
    (∃ whole, b :: bytes = whole ++ rest ∧ IsWhole whole ∧ P) ↔
      ∃ digits, bytes = digits ++ rest ∧ IsWhole (b :: digits) ∧ P := by
  constructor
  · rintro ⟨whole, split, isWhole, also⟩
    obtain ⟨c, digits, rfl⟩ := List.exists_cons_of_ne_nil isWhole.1.1
    obtain ⟨rfl, rfl⟩ := List.cons.inj split
    exact ⟨digits, rfl, isWhole, also⟩
  · rintro ⟨digits, rfl, isWhole, also⟩
    exact ⟨b :: digits, rfl, isWhole, also⟩

theorem skipWhole_eq_ok {u : Unit} :
    skipWhole bytes = .ok u rest ↔
      ∃ whole, bytes = whole ++ rest ∧ IsWhole whole ∧ Stops isDigit rest := by
  rw [skipWhole, take_bind]
  cases bytes with
  | nil =>
      refine ⟨fun read => ?_, fun ⟨whole, split, isWhole, _⟩ => ?_⟩
      · simp at read
      · exact absurd (List.append_eq_nil_iff.mp split.symm).1 isWhole.1.1
  | cons b bytes =>
      rw [List.head?_cons, List.tail_cons, Option.bind_some, exists_isWhole_iff]
      cases value : digit? b with
      | none =>
          have notDigit : ¬IsDigit b := by
            rw [← isDigit_iff, isDigit, value]
            decide
          simp [isWhole_cons, notDigit]
      | some d =>
          have digit : IsDigit b := isDigit_iff.mp (by rw [isDigit, value]; rfl)
          obtain ⟨small, rfl⟩ := digit?_eq_some_iff.mp value
          cases d with
          | zero =>
              have alone {digits : Bytes} :
                  IsWhole ((Nat.digitChar 0).toUInt8 :: digits) ↔ digits = [] := by
                rw [isWhole_cons]
                refine ⟨fun isWhole => isWhole.2.2 rfl, ?_⟩
                rintro rfl
                exact ⟨digit, nofun, fun _ => rfl⟩
              simp only [look_bind, ite_apply_eq, alone]
              constructor
              · intro read
                split at read
                case isTrue => simp at read
                case isFalse none =>
                    obtain ⟨-, rfl⟩ := pure_eq_ok.mp read
                    rw [Bool.not_eq_true, any_head?_eq_false_iff] at none
                    exact ⟨[], rfl, rfl, none⟩
              · rintro ⟨_, rfl, rfl, stops⟩
                split
                case isTrue more =>
                    rw [List.nil_append, any_head?_eq_false_iff.mpr stops] at more
                    cases more
                case isFalse => rfl
          | succ d =>
              have notZero : ∀ d < 9, (d + 1).digitChar.toUInt8 ≠ '0'.toUInt8 := by decide
              simp only [skipDigits_eq_ok, isWhole_cons, digit, true_and,
                notZero d (Nat.lt_of_succ_lt_succ small), false_imp_iff, and_true]

theorem isFraction_of_skipFraction {u : Unit} (read : skipFraction bytes = .ok u rest) :
    ∃ part, bytes = part ++ rest ∧ IsFraction part := by
  rw [skipFraction, look_bind, ite_apply_eq] at read
  split at read
  case isTrue point =>
      obtain ⟨behind, rfl⟩ := List.head?_eq_some_iff.mp point
      obtain ⟨digits, rfl, isDigits, _⟩ := skipSomeDigits_eq_ok.mp read
      exact ⟨_ :: digits, rfl, .inr ⟨digits, isDigits, rfl⟩⟩
  case isFalse =>
      obtain ⟨-, rfl⟩ := pure_eq_ok.mp read
      exact ⟨[], rfl, .inl rfl⟩

theorem skipFraction_of_isFraction {part : Bytes} (isFraction : IsFraction part)
    (stops : Stops isDigit rest) (noPoint : Stops (· == '.'.toUInt8) rest) :
    skipFraction (part ++ rest) = .ok () rest := by
  rw [skipFraction, look_bind]
  rcases isFraction with rfl | ⟨digits, isDigits, rfl⟩
  · have none : rest.head? ≠ some '.'.toUInt8 := fun point => by simpa using noPoint _ point
    rw [List.nil_append, if_neg none]
    rfl
  · rw [List.cons_append, List.head?_cons, if_pos rfl]
    exact skipSomeDigits_eq_ok.mpr ⟨digits, rfl, isDigits, stops⟩

theorem isExponentMark_iff :
    isExponentMark b = true ↔ ∃ mark ∈ ['e', 'E'], b = mark.toUInt8 := by
  simp [isExponentMark]

theorem sign_of_skipSign {u : Unit} (read : skipSign bytes = .ok u rest) :
    ∃ sign ∈ [[], ['+'], ['-']], bytes = letters sign ++ rest := by
  rw [skipSign, look_bind, ite_apply_eq] at read
  split at read
  case isTrue signed =>
      rcases signed with plus | minus
      · obtain ⟨behind, rfl⟩ := List.head?_eq_some_iff.mp plus
        cases read
        exact ⟨['+'], by decide, rfl⟩
      · obtain ⟨behind, rfl⟩ := List.head?_eq_some_iff.mp minus
        cases read
        exact ⟨['-'], by decide, rfl⟩
  case isFalse =>
      obtain ⟨-, rfl⟩ := pure_eq_ok.mp read
      exact ⟨[], by decide, rfl⟩

theorem skipSign_of_sign {sign : List Char} (mem : sign ∈ [[], ['+'], ['-']])
    (digit : rest.head?.any isDigit = true) : skipSign (letters sign ++ rest) = .ok () rest := by
  rw [skipSign, look_bind]
  simp only [List.mem_cons, List.not_mem_nil, or_false] at mem
  rcases mem with rfl | rfl | rfl
  · have unsigned : ¬(rest.head? = some '+'.toUInt8 ∨ rest.head? = some '-'.toUInt8) := by
      rintro (sign | sign) <;> rw [sign] at digit <;> cases digit
    rw [letters, List.map_nil, List.nil_append, if_neg unsigned]
    rfl
  · rfl
  · rfl

theorem isExponent_of_skipExponent {u : Unit} (read : skipExponent bytes = .ok u rest) :
    ∃ part, bytes = part ++ rest ∧ IsExponent part := by
  rw [skipExponent, look_bind, ite_apply_eq] at read
  split at read
  case isTrue marked =>
      obtain ⟨b, behind, rfl, marks⟩ := any_head?_eq_true_iff.mp marked
      obtain ⟨mark, isMark, rfl⟩ := isExponentMark_iff.mp marks
      rw [advance_bind, List.tail_cons, bind_eq_ok] at read
      obtain ⟨_, _, signed, read⟩ := read
      obtain ⟨sign, isSign, rfl⟩ := sign_of_skipSign signed
      obtain ⟨digits, rfl, isDigits, _⟩ := skipSomeDigits_eq_ok.mp read
      exact ⟨_ :: (letters sign ++ digits), by simp,
        .inr ⟨mark, isMark, sign, isSign, digits, isDigits, rfl⟩⟩
  case isFalse =>
      obtain ⟨-, rfl⟩ := pure_eq_ok.mp read
      exact ⟨[], rfl, .inl rfl⟩

theorem skipExponent_of_isExponent {part : Bytes} (isExponent : IsExponent part)
    (stops : Stops isDigit rest) (noMark : Stops isExponentMark rest) :
    skipExponent (part ++ rest) = .ok () rest := by
  rw [skipExponent, look_bind]
  rcases isExponent with rfl | ⟨mark, isMark, sign, isSign, digits, isDigits, rfl⟩
  · have none : ¬rest.head?.any isExponentMark = true := by
      rw [any_head?_eq_false_iff.mpr noMark]
      exact Bool.false_ne_true
    rw [List.nil_append, if_neg none]
    rfl
  · have marked : isExponentMark mark.toUInt8 = true := isExponentMark_iff.mpr ⟨mark, isMark, rfl⟩
    have digit : (digits ++ rest).head?.any isDigit = true := any_isDigit_of_isDigits isDigits
    rw [List.cons_append, List.head?_cons, Option.any_some, if_pos marked, advance_bind,
      List.tail_cons, List.append_assoc]
    exact bind_eq_ok.mpr ⟨(), _, skipSign_of_sign isSign digit,
      skipSomeDigits_eq_ok.mpr ⟨digits, rfl, isDigits, stops⟩⟩

/-- A number is skipped to its end: what may stand behind a value does not go on with it. -/
theorem skipNumber_eq_ok_of_parts {whole fraction exponent : Bytes} (isWhole : IsWhole whole)
    (isFraction : IsFraction fraction) (isExponent : IsExponent exponent) (follows : Follows rest) :
    skipNumber (whole ++ (fraction ++ (exponent ++ rest))) = .ok () rest := by
  have digitBehind : Stops isDigit rest := follows.stops rfl
  have pointBehind : Stops (· == '.'.toUInt8) rest := follows.stops rfl
  have noDigit : Stops isDigit (exponent ++ rest) := by
    rcases isExponent with rfl | ⟨mark, isMark, _, _, _, _, rfl⟩
    · exact digitBehind
    · exact stops_cons (eq_false_of_any rfl isMark)
  have noPoint : Stops (· == '.'.toUInt8) (exponent ++ rest) := by
    rcases isExponent with rfl | ⟨mark, isMark, _, _, _, _, rfl⟩
    · exact pointBehind
    · have none : (letters ['e', 'E']).any (· == '.'.toUInt8) = false := rfl
      have other := eq_false_of_any none isMark
      exact stops_cons other
  have noDigitFirst : Stops isDigit (fraction ++ (exponent ++ rest)) := by
    rcases isFraction with rfl | ⟨_, _, rfl⟩
    · exact noDigit
    · exact stops_cons (by decide)
  rw [skipNumber, bind_eq_ok]
  refine ⟨(), _, skipWhole_eq_ok.mpr ⟨whole, rfl, isWhole, noDigitFirst⟩, ?_⟩
  refine bind_eq_ok.mpr ⟨(), _, skipFraction_of_isFraction isFraction noDigit noPoint, ?_⟩
  exact skipExponent_of_isExponent isExponent digitBehind (follows.stops rfl)

/-- What is skipped as a number is the literal of one. -/
theorem isNumber_of_skipNumber {u : Unit} {sign : List Char} (isSign : sign ∈ [[], ['-']])
    (read : skipNumber bytes = .ok u rest) :
    ∃ literal, bytes = literal ++ rest ∧ IsNumber (letters sign ++ literal) := by
  simp only [skipNumber, bind_eq_ok, skipWhole_eq_ok] at read
  obtain ⟨_, _, ⟨whole, rfl, isWhole, _⟩, _, _, skipped, read⟩ := read
  obtain ⟨fraction, rfl, isFraction⟩ := isFraction_of_skipFraction skipped
  obtain ⟨exponent, rfl, isExponent⟩ := isExponent_of_skipExponent read
  exact ⟨whole ++ (fraction ++ exponent), by simp, .parts isSign isWhole isFraction isExponent⟩

end Skipped

end Reader

end TraceReplay.Interchange
