import TraceReplay.Proofs.Reading.Number
import TraceReplay.Proofs.Reading.Text

/-!
Skipping values against the grammar: what is skipped is a value, and every value can be skipped where
something follows that may stand behind a value. The fuel bounds the bytes of the value, which every bracket
inside of another takes at least one of.
-/
namespace TraceReplay.Interchange

namespace Grammar

variable {bytes front rest : Bytes} {b : UInt8}

def Begins (b : UInt8) : Prop := b ∈ letters ['n', 't', 'f', '-', '"', '[', '\x7b'] ∨ IsDigit b

/-- A sort of bytes without the signs and digits has none that begins a value. -/
theorem Begins.avoids (begins : Begins b) (sort : UInt8 → Bool)
    (signs : (letters ['n', 't', 'f', '-', '"', '[', '\x7b']).any sort = false)
    (digits : ∀ d < 10, sort d.digitChar.toUInt8 = false) : sort b = false := by
  rcases begins with mem | digit
  · exact Bool.eq_false_iff.mpr (List.any_eq_false.mp signs b mem)
  · obtain ⟨d, value⟩ := Option.isSome_iff_exists.mp (Reader.isDigit_iff.mpr digit)
    obtain ⟨small, rfl⟩ := Reader.digit?_eq_some_iff.mp value
    exact digits d small

theorem Begins.not_blank (begins : Begins b) : Reader.isBlank b = false :=
  begins.avoids _ rfl (by decide)

theorem Begins.ne_closing (begins : Begins b) (bracket : Bracket) : b ≠ bracket.closing.toUInt8 := by
  have other : (b == bracket.closing.toUInt8) = false := by
    cases bracket with
    | list => exact begins.avoids (· == ']'.toUInt8) rfl (by decide)
    | record => exact begins.avoids (· == '\x7d'.toUInt8) rfl (by decide)
  simpa using other

theorem IsNumber.begins {literal : Bytes} (number : IsNumber literal) :
    ∃ b behind, literal = b :: behind ∧ (b = '-'.toUInt8 ∨ IsDigit b) := by
  cases number with
  | @parts sign whole fraction exponent isSign isWhole _ _ =>
      obtain ⟨b, digits, rfl⟩ := List.exists_cons_of_ne_nil isWhole.1.1
      simp only [List.mem_cons, List.not_mem_nil, or_false] at isSign
      rcases isSign with rfl | rfl
      · exact ⟨b, _, rfl, .inr (isWhole.1.2 b List.mem_cons_self)⟩
      · exact ⟨_, _, rfl, .inl rfl⟩

theorem Value.begins {json : Json} (value : Value bytes json rest) :
    ∃ b behind, bytes = b :: behind ∧ Begins b := by
  cases value with
  | number number =>
      obtain ⟨b, behind, rfl, first⟩ := number.begins
      refine ⟨b, _, rfl, first.imp (fun minus => ?_) id⟩
      exact minus ▸ (by decide)
  | _ => exact ⟨_, _, rfl, .inl (by decide)⟩

theorem Member.begins {member : Option String × Json} (spelled : Member bytes member rest) :
    ∃ b behind, bytes = b :: behind ∧ Begins b := by
  cases spelled with
  | pair => exact ⟨_, _, rfl, .inl (by decide)⟩

theorem Blank.follows (blank : Blank bytes front) (follows : Follows front) : Follows bytes := by
  cases blank with
  | none => exact follows
  | more isBlank =>
      intro b mem
      cases mem
      exact .inl (Reader.isBlank_iff.mpr ⟨_, isBlank, rfl⟩)

/-- Behind an item stands a comma or the closing bracket. -/
theorem Series.follows {α : Type} {Item : Bytes → α → Bytes → Prop} {closing : Char} {xs : List α}
    (series : Series Item closing false bytes xs rest) (isClosing : closing ∈ [']', '\x7d']) :
    Follows bytes := by
  have standing {c : Char} {behind : Bytes} (closes : c ∈ [',', ']', '\x7d']) :
      Follows (c.toUInt8 :: behind) := by
    intro b mem
    cases mem
    exact .inr (List.mem_map_of_mem closes)
  cases series with
  | close blank => exact blank.follows (standing (List.mem_cons_of_mem _ isClosing))
  | item gap =>
      cases gap with
      | comma blank => exact blank.follows (standing (by decide))

end Grammar

namespace Reader

open Grammar

variable {bytes front rest fuel : Bytes} {b : UInt8} {bracket : Bracket} {skip : Reader Unit}

theorem skipKey_eq_ok {u : Unit} :
    skipKey bytes = .ok u rest ↔
      ∃ behind key gap, Blank bytes ('"'.toUInt8 :: behind) ∧ Text behind key gap ∧
        Blank gap (':'.toUInt8 :: rest) := by
  rw [skipKey, lookPastBlanks_bind]
  constructor
  · rintro ⟨front, blank, _, read⟩
    cases front with
    | nil => simp at read
    | cons b behind =>
        simp only [List.head?_cons, ite_apply_eq] at read
        split at read
        case isTrue quote =>
            rw [advance_bind, bind_eq_ok] at read
            obtain ⟨_, gap, key, read⟩ := read
            obtain ⟨key, text⟩ := skipText_eq_ok_iff.mp key
            exact ⟨behind, key, gap, quote ▸ blank, text, colon_eq_ok.mp read⟩
        case isFalse => simp at read
  · rintro ⟨behind, key, gap, blank, text, separated⟩
    refine ⟨_, blank, stops_cons (by decide), ?_⟩
    simp only [List.head?_cons, if_true, advance_bind, List.tail_cons, bind_eq_ok]
    exact ⟨(), gap, skipText_eq_ok_iff.mpr ⟨key, text⟩, colon_eq_ok.mpr separated⟩

theorem skipComma_eq_ok {u : Unit} :
    skipComma bracket bytes = .ok u rest ↔ bytes = ','.toUInt8 :: rest := by
  rw [skipComma, look_bind, ite_apply_eq]
  cases bytes with
  | nil => simp
  | cons b bytes =>
      by_cases comma : b = ','.toUInt8
      · simp [comma, advance]
      · simp [comma]

section Items

variable {α : Type} {Item : Bytes → α → Bytes → Prop} {isFirst : Bool} {xs : List α}

theorem series_of_skipItemsFrom {u : Unit} {afterItem : Bool}
    (sound : ∀ {bytes u rest}, skipItem bracket skip bytes = .ok u rest →
      ∃ front x, Blank bytes front ∧ Item front x rest)
    (read : skipItemsFrom bracket skip fuel afterItem bytes = .ok u rest) :
    ∃ xs, Series Item bracket.closing (!afterItem) bytes xs rest := by
  induction fuel generalizing bytes afterItem with
  | nil => simp [skipItemsFrom] at read
  | cons f fuel ih =>
      rw [skipItemsFrom, lookPastBlanks_bind] at read
      obtain ⟨front, blank, _, read⟩ := read
      cases front with
      | nil => simp at read
      | cons b behind =>
          simp only [List.head?_cons, ite_apply_eq] at read
          split at read
          case isTrue closes =>
              cases read
              exact ⟨[], .close (closes ▸ blank)⟩
          case isFalse =>
              cases afterItem with
              | false =>
                  simp only [Bool.false_eq_true, if_false, bind_eq_ok] at read
                  obtain ⟨_, after, item, read⟩ := read
                  obtain ⟨front, x, blank', item⟩ := sound item
                  obtain ⟨xs, others⟩ := ih read
                  exact ⟨x :: xs, .item (.first (blank.trans blank')) item others⟩
              | true =>
                  simp only [if_true, bind_eq_ok, skipComma_eq_ok] at read
                  obtain ⟨_, _, comma, _, after, item, read⟩ := read
                  obtain ⟨front, x, blank', item⟩ := sound item
                  obtain ⟨xs, others⟩ := ih read
                  exact ⟨x :: xs, .item (.comma (comma ▸ blank) blank') item others⟩

/-- Each item takes some of the bytes up to the closing bracket. -/
theorem skipItemsFrom_of_series {limit : Nat}
    (series : Series Item bracket.closing isFirst bytes xs rest)
    (begins : ∀ {front x after}, Item front x after → ∃ b behind, front = b :: behind ∧ Begins b)
    (shorter : ∀ {front x after}, Item front x after → after.length < front.length)
    (complete : ∀ {bytes front x after}, Blank bytes front → Item front x after → Follows after →
      front.length ≤ limit → skipItem bracket skip bytes = .ok () after)
    (within : bytes.length ≤ limit) (enough : bytes.length < fuel.length) :
    skipItemsFrom bracket skip fuel (!isFirst) bytes = .ok () rest := by
  induction series generalizing fuel with
  | close blank =>
      obtain ⟨f, fuel, rfl⟩ := List.exists_cons_of_length_pos (Nat.zero_lt_of_lt enough)
      rw [skipItemsFrom, lookPastBlanks_bind]
      refine ⟨_, blank, stops_cons (by cases bracket <;> rfl), ?_⟩
      simp only [List.head?_cons, if_true]
      rfl
  | @item isFirst bytes front after rest x xs gap item others ih =>
      obtain ⟨f, fuel, rfl⟩ := List.exists_cons_of_length_pos (Nat.zero_lt_of_lt enough)
      obtain ⟨b, behind, rfl, first⟩ := begins item
      have small := gap.length_le
      have progress := shorter item
      rw [List.length_cons] at enough
      have remaining : skipItemsFrom bracket skip fuel true after = .ok () rest :=
        ih (by omega) (by omega)
      have taken {bytes} (blank : Blank bytes (b :: behind)) :
          skipItem bracket skip bytes = .ok () after :=
        complete blank item (others.follows (by cases bracket <;> decide)) (by omega)
      rw [skipItemsFrom, lookPastBlanks_bind]
      cases gap with
      | first blank =>
          refine ⟨_, blank, stops_cons first.not_blank, ?_⟩
          simp only [List.head?_cons, first.ne_closing bracket, if_false, Bool.not_true,
            Bool.false_eq_true, bind_eq_ok]
          exact ⟨(), after, taken .none, remaining⟩
      | @comma _ tail _ blank behindComma =>
          have notClosing : ','.toUInt8 ≠ bracket.closing.toUInt8 := by cases bracket <;> decide
          refine ⟨_, blank, stops_cons (by decide), ?_⟩
          simp only [List.head?_cons, notClosing, if_false, Bool.not_false, if_true, bind_eq_ok,
            skipComma_eq_ok]
          exact ⟨(), tail, rfl, (), after, taken behindComma, remaining⟩

theorem skipItems_of_series {limit : Nat} (series : Series Item bracket.closing true bytes xs rest)
    (begins : ∀ {front x after}, Item front x after → ∃ b behind, front = b :: behind ∧ Begins b)
    (shorter : ∀ {front x after}, Item front x after → after.length < front.length)
    (complete : ∀ {bytes front x after}, Blank bytes front → Item front x after → Follows after →
      front.length ≤ limit → skipItem bracket skip bytes = .ok () after)
    (within : bytes.length ≤ limit) : skipItems bracket skip bytes = .ok () rest := by
  have enough : bytes.length < (0 :: bytes : Bytes).length := Nat.lt_succ_self _
  exact skipItemsFrom_of_series series begins shorter complete within enough

end Items

section Values

variable {json : Json} {u : Unit}

theorem skipItem_record : skipItem .record skip = (do skipKey; skip) := rfl

theorem member_of_skipItem
    (sound : ∀ {bytes u rest}, skip bytes = .ok u rest →
      ∃ front json, Blank bytes front ∧ Value front json rest)
    (read : skipItem .record skip bytes = .ok u rest) :
    ∃ front member, Blank bytes front ∧ Member front member rest := by
  rw [skipItem_record, bind_eq_ok] at read
  obtain ⟨_, after, key, read⟩ := read
  obtain ⟨behind, key, gap, blank, text, colon⟩ := skipKey_eq_ok.mp key
  obtain ⟨front, value, blank', spelled⟩ := sound read
  exact ⟨_, (key, value), blank, .pair text colon blank' spelled⟩

theorem skipItem_of_member {limit : Nat} {member : Option String × Json}
    (complete : ∀ {bytes front json rest}, Blank bytes front → Value front json rest → Follows rest →
      front.length ≤ limit → skip bytes = .ok () rest)
    (blank : Blank bytes front) (spelled : Member front member rest) (follows : Follows rest)
    (short : front.length ≤ limit) : skipItem .record skip bytes = .ok () rest := by
  cases spelled with
  | pair text colon blank' value =>
      have := text.length_lt
      have := colon.length_le
      have := blank'.length_le
      simp only [List.length_cons] at *
      rw [skipItem_record, bind_eq_ok]
      exact ⟨(), _, skipKey_eq_ok.mpr ⟨_, _, _, blank, text, colon⟩,
        complete blank' value follows (by omega)⟩

/-- The first byte of a number is its sign or a digit. -/
theorem skipNumber_of_isNumber {literal behind : Bytes} (number : IsNumber literal)
    (follows : Follows rest) (spelled : b :: behind = literal ++ rest) :
    b = '-'.toUInt8 ∧ skipNumber behind = .ok () rest ∨
      isDigit b = true ∧ skipNumber (b :: behind) = .ok () rest := by
  cases number with
  | @parts sign whole fraction exponent isSign isWhole isFraction isExponent =>
      have skipped := skipNumber_eq_ok_of_parts isWhole isFraction isExponent follows
      have parts : letters sign ++ (whole ++ (fraction ++ exponent)) ++ rest =
          letters sign ++ (whole ++ (fraction ++ (exponent ++ rest))) := by simp
      rw [parts] at spelled
      simp only [List.mem_cons, List.not_mem_nil, or_false] at isSign
      rcases isSign with rfl | rfl
      · obtain ⟨c, digits, rfl⟩ := List.exists_cons_of_ne_nil isWhole.1.1
        cases spelled
        exact .inr ⟨isDigit_iff.mpr (isWhole.1.2 b List.mem_cons_self), skipped⟩
      · cases spelled
        exact .inl ⟨rfl, skipped⟩

theorem value_of_skipValueFrom (read : skipValueFrom fuel bytes = .ok u rest) :
    ∃ front json, Blank bytes front ∧ Value front json rest := by
  induction fuel generalizing bytes u rest with
  | nil => simp [skipValueFrom] at read
  | cons f fuel ih =>
      rw [skipValueFrom, bind_eq_ok] at read
      obtain ⟨b, front, looked, read⟩ := read
      obtain ⟨blank, _, head⟩ := lookAtValue_eq_ok.mp looked
      obtain ⟨behind, rfl⟩ := List.head?_eq_some_iff.mp head
      refine ⟨b :: behind, ?_⟩
      simp only [ite_apply_eq, advance_bind, List.tail_cons] at read
      split at read
      case isTrue null =>
          subst null
          exact ⟨.null, blank, word_eq_ok.mp read ▸ Value.null⟩
      split at read
      case isTrue flag =>
          subst flag
          exact ⟨.flag true, blank, word_eq_ok.mp read ▸ Value.true⟩
      split at read
      case isTrue flag =>
          subst flag
          exact ⟨.flag false, blank, word_eq_ok.mp read ▸ Value.false⟩
      split at read
      case isTrue minus =>
          subst minus
          have isSign : ['-'] ∈ [[], ['-']] := by decide
          obtain ⟨literal, rfl, number⟩ := isNumber_of_skipNumber isSign read
          exact ⟨.number ('-'.toUInt8 :: literal), blank, Value.number number⟩
      split at read
      case isTrue =>
          have isSign : [] ∈ [[], ['-']] := by decide
          obtain ⟨literal, split, number⟩ := isNumber_of_skipNumber isSign read
          rw [split] at blank ⊢
          exact ⟨.number literal, blank, Value.number number⟩
      split at read
      case isTrue quote =>
          subst quote
          obtain ⟨value, text⟩ := skipText_eq_ok_iff.mp read
          exact ⟨.text value, blank, Value.text text⟩
      split at read
      case isTrue opens =>
          subst opens
          have sound {bytes u rest} (read : skipItem .list (skipValueFrom fuel) bytes = .ok u rest) :
              ∃ front item, Blank bytes front ∧ Value front item rest := ih read
          obtain ⟨items, series⟩ := series_of_skipItemsFrom sound read
          exact ⟨.list items, blank, Value.list series⟩
      split at read
      case isTrue opens =>
          subst opens
          have sound {bytes u rest} (read : skipItem .record (skipValueFrom fuel) bytes = .ok u rest) :
              ∃ front member, Blank bytes front ∧ Member front member rest :=
            member_of_skipItem ih read
          obtain ⟨members, series⟩ := series_of_skipItemsFrom sound read
          exact ⟨.object members, blank, Value.object series⟩
      case isFalse => simp at read

/-- Any value can be skipped, one without a meaning as well. -/
theorem skipValueFrom_of_value (blank : Blank bytes front) (value : Value front json rest)
    (follows : Follows rest) (enough : front.length ≤ fuel.length) :
    skipValueFrom fuel bytes = .ok () rest := by
  induction fuel generalizing bytes front json rest with
  | nil =>
      have := value.length_lt
      rw [List.length_nil] at enough
      omega
  | cons f fuel ih =>
      obtain ⟨b, behind, rfl, begins⟩ := value.begins
      rw [skipValueFrom, bind_eq_ok]
      refine ⟨b, _, lookAtValue_eq_ok.mpr ⟨blank, stops_cons begins.not_blank, rfl⟩, ?_⟩
      have inside : behind.length ≤ fuel.length := Nat.le_of_succ_le_succ enough
      generalize spelled : b :: behind = front at value
      cases value with
      | null | true | false =>
          cases spelled
          rfl
      | number number =>
          rw [← spelled]
          rcases skipNumber_of_isNumber number follows spelled with ⟨rfl, skipped⟩ | ⟨digit, skipped⟩
          · exact skipped
          · have other : ∀ c ∈ letters ['n', 't', 'f', '-'], b ≠ c := by
              rintro c mem rfl
              have none : (letters ['n', 't', 'f', '-']).any isDigit = false := rfl
              exact List.any_eq_false.mp none b mem digit
            simp only [letters, List.map_cons, List.forall_mem_cons] at other
            simp only [other, digit, if_false, if_true]
            exact skipped
      | text text =>
          cases spelled
          exact skipText_eq_ok_iff.mpr ⟨_, text⟩
      | list series =>
          cases spelled
          exact skipItems_of_series series Value.begins Value.length_lt ih inside
      | object series =>
          cases spelled
          exact skipItems_of_series series Member.begins Member.length_lt (skipItem_of_member ih) inside

theorem value_of_skipValue (read : skipValue bytes = .ok u rest) :
    ∃ front json, Blank bytes front ∧ Value front json rest :=
  value_of_skipValueFrom read

theorem skipValue_of_value (blank : Blank bytes front) (value : Value front json rest)
    (follows : Follows rest) : skipValue bytes = .ok () rest :=
  skipValueFrom_of_value blank value follows (Nat.le_succ_of_le blank.length_le)

end Values

end Reader

end TraceReplay.Interchange
