import TraceReplay.Proofs.Interchange.Location
import TraceReplay.Text.Basic

/-!
Which texts read as a number: decimal digits after an optional plus sign that spell one below the limit of a word.
A number that is printed spells itself.
-/
namespace TraceReplay.Text

/-- Decimal digits, at least one, with this value, and a plus sign or nothing before them. -/
def Spells (text : String) (number : Nat) : Prop :=
  ∃ digits, (text.toList = digits ∨ text.toList = '+' :: digits) ∧ digits ≠ [] ∧
    (∀ c ∈ digits, c.isDigit) ∧ Nat.ofDigitChars 10 digits 0 = number

section Digits

variable {c : Char} {cs : List Char} {value number : Nat}

theorem digit?_eq (c : Char) : digit? c = if c.isDigit then some (c.toNat - '0'.toNat) else none := by
  simp only [digit?, Char.isDigit, Bool.and_eq_true, decide_eq_true_iff]
  rfl

theorem digitsFrom_eq_some_iff :
    digitsFrom value cs = some number ↔
      (∀ c ∈ cs, c.isDigit) ∧ Nat.ofDigitChars 10 cs value = number := by
  induction cs generalizing value with
  | nil => simp [digitsFrom]
  | cons c cs ih =>
      rw [digitsFrom, List.forall_mem_cons, Nat.ofDigitChars_cons, Nat.mul_comm 10 value]
      by_cases digit : c.isDigit
      · rw [digit?_eq, if_pos digit, and_iff_right digit]
        exact ih
      · simp [digit?_eq, digit]

theorem digits?_eq_some_iff :
    digits? cs = some number ↔
      cs ≠ [] ∧ (∀ c ∈ cs, c.isDigit) ∧ Nat.ofDigitChars 10 cs 0 = number := by
  cases cs with
  | nil => simp [digits?]
  | cons c cs => exact digitsFrom_eq_some_iff.trans (and_iff_right (List.cons_ne_nil c cs)).symm

end Digits

section Number

variable {text : String} {number : Nat}

theorem spells_iff :
    Spells text number ↔
      digits? (match text.toList with | '+' :: cs => cs | cs => cs) = some number := by
  rw [digits?_eq_some_iff]
  split
  next cs signed =>
      constructor
      · rintro ⟨digits, same | same, filled, all, value⟩
        · have sign := all '+' (by rw [← same, signed]; exact List.mem_cons_self)
          cases sign
        · cases signed.symm.trans same
          exact ⟨filled, all, value⟩
      · exact fun ⟨filled, all, value⟩ => ⟨cs, .inr signed, filled, all, value⟩
  next unsigned =>
      constructor
      · rintro ⟨digits, same | same, filled, all, value⟩
        · exact same ▸ ⟨filled, all, value⟩
        · cases unsigned digits same
      · exact fun ⟨filled, all, value⟩ => ⟨text.toList, .inl rfl, filled, all, value⟩

/-- A text reads as the number that it spells, if that is below the limit. -/
theorem number?_eq_some_iff : number? text = some number ↔ Spells text number ∧ number < wordLimit := by
  rw [number?, Option.filter_eq_some_iff, decide_eq_true_iff]
  exact and_congr spells_iff.symm Iff.rfl

theorem Spells.unique {other : Nat} (spells : Spells text number) (spells' : Spells text other) :
    number = other :=
  Option.some.inj ((spells_iff.mp spells).symm.trans (spells_iff.mp spells'))

/-- Numbers that do not fit a word are not read. -/
theorem number?_of_spells (spells : Spells text number) :
    number? text = if number < wordLimit then some number else none := by
  split
  next small => exact number?_eq_some_iff.mpr ⟨spells, small⟩
  next large =>
      refine Option.eq_none_iff_forall_ne_some.mpr fun other reads => large ?_
      obtain ⟨spells', small⟩ := number?_eq_some_iff.mp reads
      exact spells.unique spells' ▸ small

/-- The digits of a number spell it without a sign. -/
theorem spells_toString (number : Nat) : Spells (toString number) number := by
  refine ⟨(toString number).toList, .inl rfl, ?_, PathStep.digit_of_mem_toString number, ?_⟩
  · rw [Nat.toString_eq_repr, Nat.toList_repr]
    exact Nat.toDigits_ne_nil
  · rw [Nat.toString_eq_repr, Nat.toList_repr, Nat.ofDigitChars_ten_toDigits]

theorem Spells.all_ne {c : Char} (spells : Spells text number) (sign : c ≠ '+') (other : ¬c.isDigit) :
    c ∉ text.toList := by
  obtain ⟨digits, same, _, all, _⟩ := spells
  have absent : c ∉ digits := fun mem => other (all c mem)
  rcases same with same | same <;> simp [same, absent, sign]

end Number

end TraceReplay.Text
