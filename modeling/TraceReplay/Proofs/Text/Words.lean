import TraceReplay.Proofs.Text.Number
import TraceReplay.Text.Basic

/-!
Cutting at separators, and the words of a text. What stands on either side of a separator is cut on its own.
-/
namespace TraceReplay.Text

section Parts

variable {α : Type} {separates : α → Bool} {s : α} {xs ys : List α}

theorem splitBy_ne_nil (separates : α → Bool) (xs : List α) : splitBy separates xs ≠ [] := by
  cases xs with
  | nil => exact List.cons_ne_nil _ _
  | cons x xs =>
      rw [splitBy]
      split
      · exact List.cons_ne_nil _ _
      · cases splitBy separates xs <;> exact List.cons_ne_nil _ _

theorem splitBy_of_none (none : ∀ x ∈ xs, separates x = false) : splitBy separates xs = [xs] := by
  induction xs with
  | nil => rfl
  | cons x xs ih =>
      obtain ⟨first, others⟩ := List.forall_mem_cons.mp none
      rw [splitBy, first, if_neg Bool.false_ne_true, ih others]
      rfl

/-- A separator parts what stands before it from what stands behind it. -/
theorem splitBy_append_cons (between : separates s = true) :
    splitBy separates (xs ++ s :: ys) = splitBy separates xs ++ splitBy separates ys := by
  induction xs with
  | nil => simp [splitBy, between]
  | cons x xs ih =>
      rw [List.cons_append, splitBy, splitBy, ih]
      split
      · rfl
      · cases parts : splitBy separates xs with
        | nil => exact absurd parts (splitBy_ne_nil separates xs)
        | cons part parts => rfl

end Parts

def IsWord (text : String) : Prop := text ≠ "" ∧ ∀ c ∈ text.toList, isBlank c = false

/-- The characters of a text with these words: white space stands between them, and may stand around them. -/
inductive Spaced : List Char → List String → Prop
  | nothing : Spaced [] []
  | blank {c : Char} {cs : List Char} {words : List String} :
      isBlank c = true → Spaced cs words → Spaced (c :: cs) words
  | last {word : String} : IsWord word → Spaced word.toList [word]
  | word {word : String} {c : Char} {cs : List Char} {words : List String} :
      IsWord word → isBlank c = true → Spaced cs words → Spaced (word.toList ++ c :: cs) (word :: words)

section Spaced

variable {c : Char} {cs : List Char} {text word : String} {found : List String}

theorem IsWord.singleton (plain : isBlank c = false) : IsWord (String.ofList [c]) := by
  constructor
  · intro empty
    cases String.ofList_injective (empty : _ = String.ofList [])
  · simpa using plain

theorem IsWord.cons (plain : isBlank c = false) (isWord : IsWord word) :
    IsWord (String.ofList (c :: word.toList)) := by
  constructor
  · intro empty
    cases String.ofList_injective (empty : _ = String.ofList [])
  · simpa using ⟨plain, isWord.2⟩

/-- A character that is not white begins a word of its own or becomes part of the next one. -/
theorem Spaced.exists_cons (plain : isBlank c = false) (spaced : Spaced cs found) :
    ∃ found', Spaced (c :: cs) found' := by
  cases spaced with
  | nothing =>
      have alone := Spaced.last (.singleton plain)
      rw [String.toList_ofList] at alone
      exact ⟨_, alone⟩
  | blank isBlank spaced =>
      have before := Spaced.word (.singleton plain) isBlank spaced
      rw [String.toList_ofList] at before
      exact ⟨_, before⟩
  | last isWord =>
      have longer := Spaced.last (isWord.cons plain)
      rw [String.toList_ofList] at longer
      exact ⟨_, longer⟩
  | word isWord isBlank spaced =>
      have longer := Spaced.word (isWord.cons plain) isBlank spaced
      rw [String.toList_ofList] at longer
      exact ⟨_, longer⟩

theorem exists_spaced (cs : List Char) : ∃ found, Spaced cs found := by
  induction cs with
  | nil => exact ⟨[], .nothing⟩
  | cons c cs ih =>
      obtain ⟨found, spaced⟩ := ih
      cases white : isBlank c with
      | true => exact ⟨found, .blank white spaced⟩
      | false => exact spaced.exists_cons white

theorem words_of_isWord (isWord : IsWord word) : words word = [word] := by
  rw [words, splitBy_of_none isWord.2]
  simp [isWord.1]

/-- The words are the same, however much white space stands between them. -/
theorem Spaced.words_eq (spaced : Spaced cs found) : words (String.ofList cs) = found := by
  induction spaced with
  | nothing => rfl
  | @blank c cs found isBlank _ ih =>
      rw [← ih, words, words, String.toList_ofList, String.toList_ofList]
      simp [splitBy, isBlank]
  | last isWord =>
      rw [String.ofList_toList]
      exact words_of_isWord isWord
  | @word word c cs found isWord isBlank _ ih =>
      rw [← ih, words, words, String.toList_ofList, String.toList_ofList, splitBy_append_cons isBlank,
        splitBy_of_none isWord.2]
      simp [isWord.1]

/-- The words of a text are those with white space between them. -/
theorem words_eq_iff : words text = found ↔ Spaced text.toList found := by
  have split (found : List String) (spaced : Spaced text.toList found) : words text = found := by
    rw [← spaced.words_eq, String.ofList_toList]
  obtain ⟨found', spaced⟩ := exists_spaced text.toList
  constructor
  · intro same
    rwa [← same, split found' spaced]
  · exact split found

theorem spaced_nil_iff : Spaced cs [] ↔ ∀ c ∈ cs, isBlank c = true := by
  constructor
  · intro spaced
    generalize none : [] = found at spaced
    induction spaced with
    | nothing => nofun
    | blank white _ ih => exact List.forall_mem_cons.mpr ⟨white, ih none⟩
    | last | word => cases none
  · intro white
    induction cs with
    | nil => exact .nothing
    | cons c cs ih =>
        obtain ⟨first, others⟩ := List.forall_mem_cons.mp white
        exact .blank first (ih others)

/-- A text has no words just if it is white space throughout. -/
theorem words_eq_nil_iff : words text = [] ↔ ∀ c ∈ text.toList, isBlank c = true :=
  words_eq_iff.trans spaced_nil_iff

end Spaced

theorem words_pair {first second : String} (isWord : IsWord first) (isWord' : IsWord second) :
    words (first ++ " " ++ second) = [first, second] := by
  have spaced : (first ++ " " ++ second).toList = first.toList ++ ' ' :: second.toList := by simp
  rw [words_eq_iff, spaced]
  exact .word isWord (by decide) (.last isWord')

theorem isBlank_of_isDigit {c : Char} (digit : c.isDigit) : isBlank c = false := by
  simp only [Char.isDigit, Bool.and_eq_true, decide_eq_true_iff] at digit
  have least : 48 ≤ c.toNat := digit.1
  have greatest : c.toNat ≤ 57 := digit.2
  simp [isBlank]
  omega

theorem Spells.isWord {text : String} {number : Nat} (spells : Spells text number) : IsWord text := by
  obtain ⟨digits, same, filled, all, _⟩ := spells
  have plain : ∀ c ∈ digits, isBlank c = false := fun c mem => isBlank_of_isDigit (all c mem)
  constructor
  · rintro rfl
    rcases same with same | same
    · exact filled same.symm
    · cases same
  · rcases same with same | same <;> rw [same]
    · exact plain
    · exact List.forall_mem_cons.mpr ⟨by decide, plain⟩

end TraceReplay.Text
