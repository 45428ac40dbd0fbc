import TraceReplay.Interchange.Decode
import TraceReplay.Proofs.Reading.Grammar

/-!
The readers of single tokens against the grammar. What stands between two values is read just where the
grammar has it, so these are equivalences: blanks, words, brackets, colons, and what stands in front of an
item.
-/
namespace TraceReplay.Interchange.Reader

open Grammar

section Runs

variable {α β : Type} {bytes rest : Bytes} {x y : α}

/-- One reader after the other succeeds where the second one does from where the first one stops. -/
theorem bind_eq_ok {read : Reader α} {next : α → Reader β} {y : β} :
    (read >>= next) bytes = .ok y rest ↔
      ∃ x middle, read bytes = .ok x middle ∧ next x middle = .ok y rest := by
  simp only [bind, EStateM.bind]
  cases read bytes <;> simp [and_assoc]

theorem pure_eq_ok : (pure x : Reader α) bytes = .ok y rest ↔ x = y ∧ bytes = rest := by
  simp [pure, EStateM.pure]

theorem ite_apply_eq {p : Prop} [Decidable p] {read other : Reader α} :
    (if p then read else other) bytes = if p then read bytes else other bytes := by
  split <;> rfl

@[simp] theorem here_ne_ok {cause : Cause} : (here cause : Reader α) bytes ≠ .ok x rest := nofun

@[simp] theorem ahead_ne_ok {cause : Cause} : (ahead cause : Reader α) bytes ≠ .ok x rest := nofun

@[simp] theorem unplaced_ne_ok {cause : Cause} : (unplaced cause : Reader α) bytes ≠ .ok x rest :=
  nofun

@[simp] theorem here_bind_ne_ok {cause : Cause} {next : β → Reader α} :
    (here cause >>= next) bytes ≠ .ok x rest := nofun

theorem look_bind {next : Option UInt8 → Reader β} :
    (look >>= next) bytes = next bytes.head? bytes := rfl

theorem take_bind {next : Option UInt8 → Reader β} :
    (take >>= next) bytes = next bytes.head? bytes.tail := rfl

theorem advance_bind {next : Unit → Reader β} : (advance >>= next) bytes = next () bytes.tail := rfl

theorem modifyGet_eq_ok {next : Bytes → α × Bytes} :
    (modifyGet next : Reader α) bytes = .ok x rest ↔ next bytes = (x, rest) := by
  change (match next bytes with | (y, bytes) => EStateM.Result.ok y bytes) = .ok x rest ↔ _
  simp [Prod.ext_iff]

/-- Whatever a reader gives has a property; one that gives nothing always fails. -/
def Yields (P : α → Prop) (read : Reader α) : Prop :=
  ∀ ⦃bytes : Bytes⦄ ⦃x : α⦄ ⦃rest : Bytes⦄, read bytes = .ok x rest → P x

variable {P : β → Prop}

theorem Yields.bind {read : Reader α} {next : α → Reader β} (each : ∀ x, Yields P (next x)) :
    Yields P (read >>= next) := by
  intro bytes y rest done
  obtain ⟨x, middle, _, done⟩ := bind_eq_ok.mp done
  exact each x done

theorem yields_here {cause : Cause} : Yields P (here cause) := nofun

theorem yields_ahead {cause : Cause} : Yields P (ahead cause) := nofun

/-- The step that a fault is placed under has no part in what is read. -/
theorem within_eq_ok {read : Reader α} {step : PathStep} :
    within step read bytes = .ok x rest ↔ read bytes = .ok x rest := by
  rw [within]
  cases read bytes <;> simp

theorem closedBy_eq_ok {read : Reader α} {close : Reader Unit} :
    closedBy read close bytes = .ok x rest ↔
      ∃ middle, read bytes = .ok x middle ∧ close middle = .ok () rest := by
  rw [closedBy]
  cases read bytes with
  | error => simp
  | ok value middle => cases ended : close middle <;> simp [ended, and_assoc]

end Runs

section Blanks

variable {bytes front rest : Bytes} {b : UInt8}

theorem isBlank_iff : isBlank b = true ↔ ∃ c ∈ [' ', '\t', '\n', '\r'], b = c.toUInt8 := by
  simp [isBlank, or_assoc, or_left_comm]

theorem blank_iff : Blank bytes rest ↔ ∃ blanks, bytes = blanks ++ rest ∧ ∀ b ∈ blanks, isBlank b := by
  constructor
  · intro blank
    induction blank with
    | none => exact ⟨[], rfl, by simp⟩
    | @more c bytes rest isBlank_c _ ih =>
        obtain ⟨blanks, rfl, all⟩ := ih
        exact ⟨c.toUInt8 :: blanks, rfl,
          List.forall_mem_cons.mpr ⟨isBlank_iff.mpr ⟨c, isBlank_c, rfl⟩, all⟩⟩
  · rintro ⟨blanks, rfl, all⟩
    induction blanks with
    | nil => exact .none
    | cons b blanks ih =>
        obtain ⟨first, others⟩ := List.forall_mem_cons.mp all
        obtain ⟨c, isBlank_c, rfl⟩ := isBlank_iff.mp first
        exact .more isBlank_c (ih others)

/-- A run of bytes of one sort ends where something else begins. -/
def Stops (sort : UInt8 → Bool) (bytes : Bytes) : Prop := ∀ b ∈ bytes.head?, sort b = false

variable {sort : UInt8 → Bool}

theorem stops_nil : Stops sort [] := nofun

theorem stops_cons (other : sort b = false) : Stops sort (b :: rest) := by
  intro c mem
  cases mem
  exact other

theorem eq_false_of_any {word : List Char} {c : Char} (none : (letters word).any sort = false)
    (mem : c ∈ word) : sort c.toUInt8 = false :=
  Bool.eq_false_iff.mpr (List.any_eq_false.mp none _ (List.mem_map_of_mem mem))

theorem any_head?_eq_false_iff : bytes.head?.any sort = false ↔ Stops sort bytes := by
  cases bytes <;> simp [Stops]

theorem any_head?_eq_true_iff :
    bytes.head?.any sort = true ↔ ∃ b rest, bytes = b :: rest ∧ sort b = true := by
  cases bytes <;> simp

/-- A run of bytes is taken as a whole. -/
theorem dropWhile_eq_iff :
    bytes.dropWhile sort = rest ↔
      ∃ run, bytes = run ++ rest ∧ (∀ b ∈ run, sort b = true) ∧ Stops sort rest := by
  constructor
  · rintro rfl
    refine ⟨_, List.takeWhile_append_dropWhile.symm, List.all_eq_true.mp List.all_takeWhile, ?_⟩
    intro b mem
    have := List.head?_dropWhile_not sort bytes
    rw [Option.mem_def.mp mem] at this
    simpa using this
  · rintro ⟨run, rfl, all, stops⟩
    rw [List.dropWhile_append_of_pos all]
    cases rest with
    | nil => rfl
    | cons b rest => exact List.dropWhile_cons_of_neg (by simp [stops b rfl])

/-- All blanks are passed. -/
theorem lookPastBlanks_eq_ok {found : Option UInt8} :
    lookPastBlanks bytes = .ok found front ↔
      Blank bytes front ∧ Stops isBlank front ∧ front.head? = found := by
  have ran : lookPastBlanks bytes =
      .ok (bytes.dropWhile isBlank).head? (bytes.dropWhile isBlank) := rfl
  rw [ran, EStateM.Result.ok.injEq, blank_iff]
  constructor
  · rintro ⟨rfl, rfl⟩
    obtain ⟨blanks, split, all, stops⟩ := dropWhile_eq_iff.mp (rfl : bytes.dropWhile isBlank = _)
    exact ⟨⟨blanks, split, all⟩, stops, rfl⟩
  · rintro ⟨⟨blanks, split, all⟩, stops, rfl⟩
    rw [dropWhile_eq_iff.mpr ⟨blanks, split, all, stops⟩]
    exact ⟨rfl, rfl⟩

theorem lookPastBlanks_bind {α : Type} {next : Option UInt8 → Reader α} {x : α} :
    (lookPastBlanks >>= next) bytes = .ok x rest ↔
      ∃ front, Blank bytes front ∧ Stops isBlank front ∧ next front.head? front = .ok x rest := by
  rw [bind_eq_ok]
  constructor
  · rintro ⟨found, front, looked, done⟩
    obtain ⟨blank, stops, rfl⟩ := lookPastBlanks_eq_ok.mp looked
    exact ⟨front, blank, stops, done⟩
  · rintro ⟨front, blank, stops, done⟩
    exact ⟨_, front, lookPastBlanks_eq_ok.mpr ⟨blank, stops, rfl⟩, done⟩

theorem lookAtValue_eq_ok :
    lookAtValue bytes = .ok b front ↔ Blank bytes front ∧ Stops isBlank front ∧ front.head? = some b := by
  rw [lookAtValue, lookPastBlanks_bind]
  constructor
  · rintro ⟨middle, blank, stops, done⟩
    cases middle with
    | nil => simp at done
    | cons c middle =>
        obtain ⟨rfl, rfl⟩ := pure_eq_ok.mp done
        exact ⟨blank, stops, rfl⟩
  · rintro ⟨blank, stops, head⟩
    exact ⟨front, blank, stops, by simp [head, pure_eq_ok]⟩

end Blanks

section Brackets

variable {bytes front rest : Bytes}

theorem word_eq_ok {letters : List Char} {u : Unit} :
    word letters bytes = .ok u rest ↔ bytes = Grammar.letters letters ++ rest := by
  induction letters generalizing bytes with
  | nil => simp [word, pure_eq_ok, Grammar.letters]
  | cons c letters ih =>
      rw [word, take_bind]
      cases bytes with
      | nil => simp [Grammar.letters]
      | cons b bytes =>
          simp only [List.head?_cons, List.tail_cons, ite_apply_eq, Grammar.letters, List.map_cons,
            List.cons_append, List.cons.injEq]
          by_cases same : b = c.toUInt8
          · simp only [same, if_true, true_and, ih]
            rfl
          · simp [same]

/-- A reader that takes one token past blanks, where it fails on all others. -/
theorem expect_eq_ok {c : Char} (notBlank : isBlank c.toUInt8 = false) {ended : Cause}
    {other : UInt8 → Reader Unit} (fails : ∀ b bytes rest, other b bytes ≠ .ok () rest) :
    (lookPastBlanks >>= fun
        | none => ahead ended
        | some b => if b = c.toUInt8 then advance else other b) bytes = .ok () rest ↔
      Blank bytes (c.toUInt8 :: rest) := by
  rw [lookPastBlanks_bind]
  constructor
  · rintro ⟨front, blank, stops, done⟩
    cases front with
    | nil => simp at done
    | cons b front =>
        simp only [List.head?_cons, ite_apply_eq] at done
        split at done
        case isTrue same =>
            cases done
            rwa [← same]
        case isFalse => exact absurd done (fails b _ _)
  · intro blank
    refine ⟨_, blank, stops_cons notBlank, ?_⟩
    simp only [List.head?_cons, if_true]
    rfl

theorem closeList_eq_ok : closeList bytes = .ok () rest ↔ Blank bytes (']'.toUInt8 :: rest) := by
  refine expect_eq_ok (by decide) fun b bytes rest done => ?_
  rw [ite_apply_eq] at done
  split at done
  · rw [advance_bind, lookPastBlanks_bind] at done
    obtain ⟨behind, _, _, done⟩ := done
    rw [ite_apply_eq] at done
    split at done <;> simp at done
  · simp at done

theorem closeRecord_eq_ok :
    closeRecord bytes = .ok () rest ↔ Blank bytes ('\x7d'.toUInt8 :: rest) := by
  refine expect_eq_ok (by decide) fun b bytes rest done => ?_
  rw [ite_apply_eq] at done
  split at done <;> simp at done

theorem colon_eq_ok : colon bytes = .ok () rest ↔ Blank bytes (':'.toUInt8 :: rest) :=
  expect_eq_ok (by decide) fun _ _ _ => ahead_ne_ok

theorem finish_eq_ok : finish bytes = .ok () rest ↔ Blank bytes [] ∧ rest = [] := by
  rw [finish, lookPastBlanks_bind]
  constructor
  · rintro ⟨front, blank, stops, done⟩
    cases front with
    | nil =>
        obtain ⟨-, rfl⟩ := pure_eq_ok.mp done
        exact ⟨blank, rfl⟩
    | cons b front => simp at done
  · rintro ⟨blank, rfl⟩
    exact ⟨_, blank, stops_nil, rfl⟩

/-- Moving to the next element and moving to the next key differ in the bracket that ends them. -/
def nextItem (bracket : Bracket) (isFirst : Bool) : Reader Bool := do
  match ← lookPastBlanks with
  | none => ahead (.endIn bracket)
  | some b =>
    if b = bracket.closing.toUInt8 then pure false
    else if isFirst then pure true
    else if b = ','.toUInt8 then
      advance
      match ← lookPastBlanks with
      | none => ahead .endInValue
      | some b => if b = bracket.closing.toUInt8 then ahead .trailingComma else pure true
    else ahead (.expectedSeparator bracket)

theorem nextElement_eq : nextElement = nextItem .list := rfl

theorem nextMember_eq : nextMember = nextItem .record := rfl

variable {bracket : Bracket} {isFirst : Bool}

/-- The items end at the closing bracket, which is not taken yet. -/
theorem nextItem_eq_ok_false :
    nextItem bracket isFirst bytes = .ok false front ↔
      Blank bytes front ∧ front.head? = some bracket.closing.toUInt8 := by
  rw [nextItem, lookPastBlanks_bind]
  constructor
  · rintro ⟨middle, blank, stops, done⟩
    cases middle with
    | nil => simp at done
    | cons b middle =>
        simp only [List.head?_cons, ite_apply_eq] at done
        split at done
        case isTrue same =>
            obtain ⟨-, rfl⟩ := pure_eq_ok.mp done
            exact ⟨blank, congrArg some same⟩
        case isFalse =>
            split at done
            · simp [pure_eq_ok] at done
            split at done
            · rw [advance_bind, lookPastBlanks_bind] at done
              obtain ⟨behind, _, _, done⟩ := done
              cases behind with
              | nil => simp at done
              | cons c behind =>
                  simp only [List.head?_cons, ite_apply_eq] at done
                  split at done <;> simp [pure_eq_ok] at done
            · simp at done
  · rintro ⟨blank, head⟩
    have stops : Stops isBlank front := by
      intro b mem
      rw [Option.mem_def, head, Option.some_inj] at mem
      subst mem
      cases bracket <;> rfl
    exact ⟨front, blank, stops, by simp [head, pure_eq_ok]⟩

/-- There is a next item only behind what has to stand in front of it. -/
theorem gap_of_nextItem (next : nextItem bracket isFirst bytes = .ok true front) :
    Gap isFirst bytes front := by
  rw [nextItem, lookPastBlanks_bind] at next
  obtain ⟨middle, blank, stops, done⟩ := next
  cases middle with
  | nil => simp at done
  | cons b middle =>
      simp only [List.head?_cons, ite_apply_eq] at done
      split at done
      case isTrue => simp [pure_eq_ok] at done
      case isFalse =>
          cases isFirst with
          | true =>
              obtain ⟨-, rfl⟩ := pure_eq_ok.mp done
              exact .first blank
          | false =>
              simp only [Bool.false_eq_true, if_false] at done
              split at done
              case isTrue comma =>
                  rw [advance_bind, lookPastBlanks_bind] at done
                  obtain ⟨behind, blank', _, done⟩ := done
                  cases behind with
                  | nil => simp at done
                  | cons c behind =>
                      simp only [List.head?_cons, ite_apply_eq] at done
                      split at done
                      · simp at done
                      · obtain ⟨-, rfl⟩ := pure_eq_ok.mp done
                        exact .comma (comma ▸ blank) blank'
              case isFalse => simp at done

theorem nextItem_of_gap {b : UInt8} (gap : Gap isFirst bytes (b :: front))
    (notBlank : isBlank b = false) (notClosing : b ≠ bracket.closing.toUInt8) :
    nextItem bracket isFirst bytes = .ok true (b :: front) := by
  rw [nextItem, lookPastBlanks_bind]
  cases gap with
  | first blank => exact ⟨_, blank, stops_cons notBlank, by simp [notClosing, pure_eq_ok]⟩
  | comma blank blank' =>
      have comma : ','.toUInt8 ≠ bracket.closing.toUInt8 := by cases bracket <;> decide
      refine ⟨_, blank, stops_cons (by decide), ?_⟩
      simp only [List.head?_cons, comma, if_false, if_true, Bool.false_eq_true]
      rw [advance_bind, lookPastBlanks_bind]
      exact ⟨_, blank', stops_cons notBlank, by simp [notClosing, pure_eq_ok]⟩

end Brackets

end TraceReplay.Interchange.Reader
