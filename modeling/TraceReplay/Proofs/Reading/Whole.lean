import TraceReplay.Proofs.Reading.Number

/-!
Numbers that are read for their value. Only a whole number without a sign has one, and it has to stay below
the limit of its shape; then its literal is the decimal digits of the value.
-/
namespace TraceReplay.Interchange.Reader

open Grammar

variable {bytes rest : Bytes} {b : UInt8} {d n s dropped : Nat} {negative : Bool}

theorem wholeLiteral_append_digit (positive : 0 < s) (small : d < 10) :
    wholeLiteral s ++ [d.digitChar.toUInt8] = wholeLiteral (10 * s + d) := by
  have joined := Nat.toDigits_append_toDigits (by decide : 1 < 10) positive small
  rw [Nat.toDigits_of_lt_base small] at joined
  rw [wholeLiteral, wholeLiteral, ← joined, letters, letters, List.map_append]
  rfl

/-- No digit is left out of a significand with nothing dropped. -/
theorem literal_of_wholeDigits (positive : 0 < s) (read : wholeDigits s dropped bytes = ((n, 0), rest)) :
    dropped = 0 ∧ ∃ digits, bytes = digits ++ rest ∧ wholeLiteral s ++ digits = wholeLiteral n := by
  induction bytes generalizing s dropped with
  | nil =>
      cases read
      exact ⟨rfl, [], rfl, List.append_nil _⟩
  | cons b bytes ih =>
      rw [wholeDigits] at read
      cases value : digit? b with
      | none =>
          simp only [value] at read
          cases read
          exact ⟨rfl, [], rfl, List.append_nil _⟩
      | some d =>
          obtain ⟨small, rfl⟩ := digit?_eq_some_iff.mp value
          simp only [value] at read
          split at read
          case h_1 significand appended =>
              split at appended
              case isTrue none =>
                  rw [appendDigit?] at appended
                  split at appended
                  case isTrue =>
                      cases appended
                      obtain ⟨-, digits, rfl, literal⟩ := ih (by omega) read
                      refine ⟨none, _ :: digits, rfl, ?_⟩
                      rw [List.append_cons, wholeLiteral_append_digit positive small, Nat.mul_comm]
                      exact literal
                  case isFalse => cases appended
              case isFalse => cases appended
          case h_2 => exact absurd (ih positive read).1 (Nat.succ_ne_zero dropped)

theorem stops_of_wholeDigits {found : Nat × Nat} (read : wholeDigits s dropped bytes = (found, rest)) :
    Stops isDigit rest := by
  induction bytes generalizing s dropped with
  | nil =>
      cases read
      exact stops_nil
  | cons b bytes ih =>
      rw [wholeDigits] at read
      cases value : digit? b with
      | none =>
          simp only [value] at read
          cases read
          exact stops_cons (by rw [isDigit, value]; rfl)
      | some d =>
          simp only [value] at read
          split at read
          · exact ih read
          · exact ih read

/-- What can stand behind a whole number that is not to go on. -/
structure EndsWhole (rest : Bytes) : Prop where
  noDigit : Stops isDigit rest
  noPoint : Stops (· == '.'.toUInt8) rest
  noMark : Stops isExponentMark rest

section Double

abbrev NotWhole : Reader Numeral → Prop := Yields fun numeral => ∀ value, numeral ≠ .whole value

theorem notWhole_signed {x : Float} : NotWhole (pure (signed negative x)) := by
  intro bytes numeral rest read value whole
  obtain ⟨same, -⟩ := pure_eq_ok.mp read
  cases same.trans whole

/-- What has a fraction or an exponent is never read as a whole number. -/
theorem notWhole_double {exponent : Int} : NotWhole (double negative s exponent) := by
  rw [double]
  cases scaleByTen 4 s.toUInt64.toFloat exponent with
  | none => exact yields_here
  | some x => exact notWhole_signed

theorem notWhole_exponentPart {shift : Int} : NotWhole (exponentPart negative s shift) := by
  unfold exponentPart
  refine .bind fun sign => ?_
  dsimp only
  -- every way through ends with a double or with a fault
  repeat' first
    | exact notWhole_double
    | exact notWhole_signed
    | exact yields_here
    | refine .bind fun _ => ?_
    | split

theorem notWhole_fractionPart : NotWhole (fractionPart negative s dropped) := by
  unfold fractionPart
  refine .bind fun found => ?_
  split
  · exact yields_ahead
  · split
    · refine .bind fun _ => .bind fun _ => ?_
      split
      · exact .bind fun _ => notWhole_exponentPart
      · exact notWhole_double
    · exact yields_ahead

end Double

variable {value : Int}

theorem numberTail_eq_ok_whole (read : numberTail negative s dropped bytes = .ok (.whole value) rest) :
    dropped = 0 ∧ bytes = rest ∧ wholeNumeral negative s = .whole value ∧
      Stops (· == '.'.toUInt8) rest ∧ Stops isExponentMark rest := by
  rw [numberTail, look_bind, ite_apply_eq] at read
  split at read
  case isTrue => exact absurd rfl (Yields.bind (fun _ => notWhole_fractionPart) read value)
  case isFalse noPoint =>
      rw [ite_apply_eq] at read
      split at read
      case isTrue => exact absurd rfl (Yields.bind (fun _ => notWhole_exponentPart) read value)
      case isFalse noMark =>
          rw [ite_apply_eq] at read
          split at read
          case isTrue none =>
              obtain ⟨same, rfl⟩ := pure_eq_ok.mp read
              refine ⟨none, rfl, same, fun b mem => ?_, ?_⟩
              · exact beq_false_of_ne fun point => noPoint (point ▸ mem)
              · exact any_head?_eq_false_iff.mp (Bool.eq_false_iff.mpr noMark)
          case isFalse => exact absurd rfl (notWhole_double read value)

/-- A number that is read as a whole one was written with its digits alone. -/
theorem number_eq_ok_whole (read : number negative bytes = .ok (.whole value) rest) :
    ∃ n, wholeNumeral negative n = .whole value ∧ bytes = wholeLiteral n ++ rest ∧ EndsWhole rest := by
  rw [number, take_bind] at read
  cases bytes with
  | nil => simp at read
  | cons b bytes =>
      simp only [List.head?_cons, List.tail_cons] at read
      cases digit : digit? b with
      | none => simp [digit] at read
      | some d =>
          obtain ⟨small, rfl⟩ := digit?_eq_some_iff.mp digit
          have literal : wholeLiteral d = [d.digitChar.toUInt8] := by
            rw [wholeLiteral, Nat.toDigits_of_lt_base small]
            rfl
          simp only [digit] at read
          cases d with
          | zero =>
              simp only [look_bind, ite_apply_eq] at read
              split at read
              case isTrue => simp at read
              case isFalse noDigit =>
                  obtain ⟨-, rfl, same, noPoint, noMark⟩ := numberTail_eq_ok_whole read
                  have stops := any_head?_eq_false_iff.mp (Bool.eq_false_iff.mpr noDigit)
                  exact ⟨0, same, by rw [literal]; rfl, stops, noPoint, noMark⟩
          | succ d =>
              simp only [bind_eq_ok, modifyGet_eq_ok] at read
              obtain ⟨⟨n, dropped⟩, middle, taken, read⟩ := read
              obtain ⟨rfl, rfl, same, noPoint, noMark⟩ := numberTail_eq_ok_whole read
              have stops := stops_of_wholeDigits taken
              obtain ⟨-, digits, rfl, whole⟩ := literal_of_wholeDigits (Nat.succ_pos d) taken
              exact ⟨n, same, by rw [← whole, literal]; rfl, stops, noPoint, noMark⟩

theorem mismatch_ne_ok {α : Type} {x : α} {expected : Shape} :
    mismatch expected b bytes ≠ .ok x rest := by
  have fails : Yields (fun _ : α => False) (mismatch expected b) := by
    unfold mismatch
    repeat' first
      | exact yields_here
      | exact yields_ahead
      | refine .bind fun _ => ?_
      | split
  exact fun read => fails read

/-- A number that is read for its value has the literal of that value, which is below the limit. -/
theorem literal_of_readNumber {shape : Shape} {datum : Datum}
    (read : readNumber shape b bytes = .ok datum rest) :
    ∃ n < shape.limit, datum = .number n ∧ bytes = wholeLiteral n ++ rest ∧ EndsWhole rest := by
  rw [readNumber, ite_apply_eq] at read
  split at read
  case isTrue =>
      obtain ⟨numeral, middle, number, read⟩ := bind_eq_ok.mp read
      cases numeral with
      | decimal => simp at read
      | whole value =>
          simp only [ite_apply_eq] at read
          split at read
          case isTrue inRange =>
              obtain ⟨rfl, rfl⟩ := pure_eq_ok.mp read
              refine ⟨value.toNat, by omega, rfl, ?_⟩
              rw [signedNumber, look_bind, ite_apply_eq] at number
              split at number
              case isTrue =>
                  obtain ⟨n, same, _⟩ := number_eq_ok_whole number
                  -- a sign makes a whole number negative, and zero a double
                  rw [wholeNumeral, if_neg (by decide)] at same
                  split at same
                  · cases same
                    have notNegative : (0 : Int) ≤ -(n : Int) := inRange.1
                    omega
                  · cases same
              case isFalse =>
                  obtain ⟨n, same, split⟩ := number_eq_ok_whole number
                  cases same
                  exact split
          case isFalse => simp at read
  case isFalse => exact absurd read mismatch_ne_ok

theorem isDigit_digitChar (small : d < 10) : IsDigit d.digitChar.toUInt8 :=
  isDigit_iff.mp (by rw [isDigit, digit?_eq_some_iff.mpr ⟨small, rfl⟩]; rfl)

/-- The first digit of a literal is zero only for zero, and the digits behind it complete the number. -/
theorem exists_wholeLiteral (positive : 0 < n) :
    ∃ d < 9, ∃ digits, wholeLiteral n = (d + 1).digitChar.toUInt8 :: digits ∧
      (∀ b ∈ digits, IsDigit b) ∧
      (n < UInt64.size → ∀ more, wholeDigits (d + 1) 0 (digits ++ more) = wholeDigits n 0 more) := by
  induction n using Nat.strongRecOn with
  | ind n ih =>
      by_cases small : n < 10
      · obtain ⟨d, rfl⟩ := Nat.exists_eq_add_one.mpr positive
        refine ⟨d, by omega, [], ?_, nofun, fun _ _ => rfl⟩
        rw [wholeLiteral, Nat.toDigits_of_lt_base small]
        rfl
      · obtain ⟨d, first, digits, literal, all, whole⟩ := ih (n / 10) (by omega) (by omega)
        have split : 10 * (n / 10) + n % 10 = n := Nat.div_add_mod n 10
        have last : n % 10 < 10 := Nat.mod_lt n (by decide)
        refine ⟨d, first, digits ++ [(n % 10).digitChar.toUInt8], ?_, ?_, fun fits more => ?_⟩
        · rw [← split, ← wholeLiteral_append_digit (by omega) last, literal, split]
          rfl
        · exact List.forall_mem_append.mpr ⟨all, by simpa using isDigit_digitChar last⟩
        · have next : appendDigit? (n / 10) (n % 10) = some n := by
            rw [appendDigit?, Nat.mul_comm, split, if_pos fits]
          rw [List.append_assoc, whole (by omega), List.cons_append, wholeDigits,
            digit?_eq_some_iff.mpr ⟨last, rfl⟩]
          simp only [if_true, next, List.nil_append]

theorem wholeLiteral_zero : wholeLiteral 0 = ['0'.toUInt8] := rfl

theorem isWhole_wholeLiteral (n : Nat) : IsWhole (wholeLiteral n) := by
  rcases Nat.eq_zero_or_pos n with rfl | positive
  · exact isWhole_cons.mpr ⟨isDigit_digitChar (by decide), nofun, fun _ => rfl⟩
  · obtain ⟨d, first, digits, literal, all, _⟩ := exists_wholeLiteral positive
    have notZero : ∀ d < 9, (d + 1).digitChar.toUInt8 ≠ '0'.toUInt8 := by decide
    rw [literal]
    exact isWhole_cons.mpr ⟨isDigit_digitChar (by omega), all, fun zero => absurd zero (notZero d first)⟩

theorem isNumber_wholeLiteral (n : Nat) : IsNumber (wholeLiteral n) := by
  have parts : IsNumber (letters [] ++ (wholeLiteral n ++ ([] ++ []))) :=
    .parts (by decide) (isWhole_wholeLiteral n) (.inl rfl) (.inl rfl)
  simpa [letters] using parts

theorem wholeDigits_of_stops (stops : Stops isDigit rest) : wholeDigits s 0 rest = ((s, 0), rest) := by
  cases rest with
  | nil => rfl
  | cons b rest =>
      have none : digit? b = none := Option.not_isSome_iff_eq_none.mp (by simpa [isDigit] using stops b rfl)
      rw [wholeDigits, none]

theorem numberTail_of_follows (follows : Follows rest) :
    numberTail false n 0 rest = .ok (.whole n) rest := by
  have noPoint : rest.head? ≠ some '.'.toUInt8 := by
    intro point
    have other : Stops (· == '.'.toUInt8) rest := follows.stops rfl
    simpa using other _ point
  have noMark : Stops isExponentMark rest := follows.stops rfl
  rw [numberTail, look_bind, if_neg noPoint, any_head?_eq_false_iff.mpr noMark]
  rfl

/-- A whole number that fits is read from its digits. -/
theorem number_wholeLiteral (fits : n < UInt64.size) (follows : Follows rest) :
    number false (wholeLiteral n ++ rest) = .ok (.whole n) rest := by
  have stops : Stops isDigit rest := follows.stops rfl
  rcases Nat.eq_zero_or_pos n with rfl | positive
  · have zero : digit? '0'.toUInt8 = some 0 := by decide
    rw [wholeLiteral_zero, number, take_bind]
    simp only [List.cons_append, List.nil_append, List.head?_cons, List.tail_cons, zero, look_bind,
      any_head?_eq_false_iff.mpr stops]
    exact numberTail_of_follows follows
  · obtain ⟨d, first, digits, literal, _, whole⟩ := exists_wholeLiteral positive
    have digit : digit? (d + 1).digitChar.toUInt8 = some (d + 1) :=
      digit?_eq_some_iff.mpr ⟨by omega, rfl⟩
    rw [literal, number, take_bind]
    simp only [List.cons_append, List.head?_cons, List.tail_cons, digit]
    refine bind_eq_ok.mpr ⟨(n, 0), rest, modifyGet_eq_ok.mpr ?_, numberTail_of_follows follows⟩
    rw [whole fits, wholeDigits_of_stops stops]

theorem limit_le (shape : Shape) : shape.limit ≤ UInt64.size := by
  cases shape with
  | count => decide
  | _ => exact Nat.le_refl _

theorem readNumber_wholeLiteral {shape : Shape} (inShape : n < shape.limit) (follows : Follows rest)
    (head : (wholeLiteral n ++ rest).head? = some b) :
    readNumber shape b (wholeLiteral n ++ rest) = .ok (.number n) rest := by
  obtain ⟨c, digits, literal⟩ := List.exists_cons_of_ne_nil (isWhole_wholeLiteral n).1.1
  have first : IsDigit c := (isWhole_wholeLiteral n).1.2 c (literal ▸ List.mem_cons_self)
  rw [literal] at head
  obtain rfl : c = b := Option.some.inj head
  have digit : isDigit c = true := isDigit_iff.mpr first
  have unsigned : (wholeLiteral n ++ rest).head? ≠ some '-'.toUInt8 := by
    rw [literal]
    intro minus
    rw [Option.some.inj minus] at digit
    cases digit
  have read : signedNumber (wholeLiteral n ++ rest) = .ok (.whole n) rest := by
    rw [signedNumber, look_bind, if_neg unsigned]
    exact number_wholeLiteral (Nat.lt_of_lt_of_le inShape (limit_le shape)) follows
  have inRange : (0 : Int) ≤ n ∧ (n : Int) < shape.limit := by omega
  rw [readNumber, if_pos (.inr digit), bind_eq_ok]
  refine ⟨.whole n, rest, read, ?_⟩
  simp only [inRange, and_self, if_true, Int.toNat_natCast]
  rfl

end TraceReplay.Interchange.Reader
