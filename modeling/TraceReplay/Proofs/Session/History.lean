import TraceReplay.Proofs.Session.Call

/-!
What a session shows, told from its history: the trace of the last effective finish that succeeded, with the
moves made since, and the error of the last effective finish if that one failed. A close forgets them all.
-/
namespace TraceReplay.Session

/-- There was an effective finish with this result, and these calls were made since, with no close among
them. -/
def Ended (result : Except LoadError Trace) (since history : List Call) : Prop :=
  ∃ call earlier, history = since ++ call :: earlier ∧ Effective earlier call result ∧
    Call.close ∉ since

/-- The last effective finish with a result of some kind. -/
def Last (kind : Except LoadError Trace → Prop) (result : Except LoadError Trace)
    (since history : List Call) : Prop :=
  Ended result since history ∧ kind result ∧
    ∀ other since', Ended other since' history → kind other → since.length ≤ since'.length

def Succeeded (result : Except LoadError Trace) : Prop := ∃ trace, result = .ok trace

def Any (_ : Except LoadError Trace) : Prop := True

def movesIn (calls : List Call) : List Move := calls.reverse.filterMap Call.move?

/-- The cursor on the trace of the last finish that succeeded, with all moves made since. -/
def Shows (history : List Call) (cursor : Cursor) : Prop :=
  ∃ trace since, Last Succeeded (.ok trace) since history ∧
    (Cursor.start trace).run (movesIn since) = cursor

section Histories

variable {history since : List Call} {call : Call} {result found : Except LoadError Trace}
  {kind : Except LoadError Trace → Prop}

/-- The last call is the finish, or else was made after it and did not close. -/
theorem ended_cons :
    Ended result since (call :: history) ↔
      since = [] ∧ Effective history call result ∨
        ∃ since', since = call :: since' ∧ call ≠ .close ∧ Ended result since' history := by
  constructor
  · intro ⟨last, earlier, split, effective, opened⟩
    cases since with
    | nil =>
        cases split
        exact .inl ⟨rfl, effective⟩
    | cons first since =>
        cases split
        obtain ⟨here, quiet⟩ := not_or.mp (opened ∘ List.mem_cons.mpr)
        exact .inr ⟨since, rfl, Ne.symm here, last, earlier, rfl, effective, quiet⟩
  · intro ended
    cases ended with
    | inl here =>
        obtain ⟨rfl, effective⟩ := here
        exact ⟨call, history, rfl, effective, List.not_mem_nil⟩
    | inr before =>
        obtain ⟨since', rfl, opened, last, earlier, rfl, effective, quiet⟩ := before
        exact ⟨last, earlier, rfl, effective, List.not_mem_cons_of_ne_of_not_mem opened.symm quiet⟩

/-- The last finish of a kind is the call made last, or is still the last one after it. -/
theorem last_cons :
    Last kind result since (call :: history) ↔
      since = [] ∧ Effective history call result ∧ kind result ∨
        ∃ since', since = call :: since' ∧ call ≠ .close ∧
          (∀ other, Effective history call other → ¬ kind other) ∧
          Last kind result since' history := by
  constructor
  · intro ⟨ended, of_kind, least⟩
    cases ended_cons.mp ended with
    | inl here => exact .inl ⟨here.1, here.2, of_kind⟩
    | inr before =>
        obtain ⟨since', rfl, opened, ended⟩ := before
        refine .inr ⟨since', rfl, opened, ?_, ended, of_kind, ?_⟩
        · intro other effective of_kind'
          have later := least other [] (ended_cons.mpr (.inl ⟨rfl, effective⟩)) of_kind'
          exact Nat.not_succ_le_zero _ later
        · intro other since'' ended' of_kind'
          have ended' := ended_cons.mpr (.inr ⟨since'', rfl, opened, ended'⟩)
          exact Nat.le_of_succ_le_succ (least other (call :: since'') ended' of_kind')
  · intro last
    cases last with
    | inl here =>
        obtain ⟨rfl, effective, of_kind⟩ := here
        exact ⟨ended_cons.mpr (.inl ⟨rfl, effective⟩), of_kind, fun _ _ _ _ => Nat.zero_le _⟩
    | inr before =>
        obtain ⟨since', rfl, opened, other_kind, ended, of_kind, least⟩ := before
        refine ⟨ended_cons.mpr (.inr ⟨since', rfl, opened, ended⟩), of_kind, ?_⟩
        intro other since'' ended' of_kind'
        cases ended_cons.mp ended' with
        | inl here => exact absurd of_kind' (other_kind other here.2)
        | inr before =>
            obtain ⟨since'', rfl, _, ended'⟩ := before
            exact Nat.succ_le_succ (least other since'' ended' of_kind')

theorem not_ended_nil : ¬ Ended result since [] := by
  intro ⟨_, _, split, _⟩
  exact List.append_ne_nil_of_right_ne_nil since (List.cons_ne_nil _ _) split.symm

theorem not_ended_close : ¬ Ended result since (.close :: history) := by
  intro ended
  cases ended_cons.mp ended with
  | inl here => cases here.2.1
  | inr before =>
      obtain ⟨_, _, opened, _⟩ := before
      exact opened rfl

theorem last_of_effective (effective : Effective history call found) (of_kind : kind found) :
    Last kind result since (call :: history) ↔ since = [] ∧ result = found := by
  rw [last_cons]
  constructor
  · intro last
    cases last with
    | inl here => exact ⟨here.1, here.2.1.result_eq effective⟩
    | inr before =>
        obtain ⟨_, _, _, other_kind, _⟩ := before
        exact absurd of_kind (other_kind found effective)
  · intro ⟨first, same⟩
    exact .inl ⟨first, same ▸ effective, same ▸ of_kind⟩

/-- A call that neither closes nor has a result of the kind is one more call since the last one that has. -/
theorem last_of_other (opened : call ≠ .close)
    (other_kind : ∀ other, Effective history call other → ¬ kind other) :
    Last kind result since (call :: history) ↔
      ∃ since', since = call :: since' ∧ Last kind result since' history := by
  rw [last_cons]
  constructor
  · intro last
    cases last with
    | inl here => exact absurd here.2.2 (other_kind result here.2.1)
    | inr before =>
        obtain ⟨since', split, _, _, last⟩ := before
        exact ⟨since', split, last⟩
  · intro ⟨since', split, last⟩
    exact .inr ⟨since', split, opened, other_kind, last⟩

theorem exists_last_of_ended (ended : Ended result since history) (of_kind : kind result) :
    ∃ last since', Last kind last since' history := by
  induction history generalizing since with
  | nil => exact absurd ended not_ended_nil
  | cons call history ih =>
      by_cases here : ∃ found, Effective history call found ∧ kind found
      · obtain ⟨found, effective, of_kind'⟩ := here
        exact ⟨found, [], (last_of_effective effective of_kind').mpr ⟨rfl, rfl⟩⟩
      · have other_kind : ∀ other, Effective history call other → ¬ kind other :=
          fun other effective of_kind' => here ⟨other, effective, of_kind'⟩
        cases ended_cons.mp ended with
        | inl now => exact absurd of_kind (other_kind result now.2)
        | inr before =>
            obtain ⟨_, _, opened, ended⟩ := before
            obtain ⟨last, since', found⟩ := ih ended
            exact ⟨last, call :: since', (last_of_other opened other_kind).mpr ⟨since', rfl, found⟩⟩

end Histories

section Displays

variable {history : List Call} {call : Call} {cursor : Cursor}

theorem movesIn_cons (call : Call) (calls : List Call) :
    movesIn (call :: calls) = movesIn calls ++ call.move?.toList := by
  rw [movesIn, List.reverse_cons, List.filterMap_append]
  cases h : call.move? <;> simp [movesIn, h]

theorem not_shows_nil : ¬ Shows [] cursor := by
  intro ⟨_, _, last, _⟩
  exact not_ended_nil last.1

theorem not_shows_close : ¬ Shows (.close :: history) cursor := by
  intro ⟨_, _, last, _⟩
  exact not_ended_close last.1

theorem shows_of_effective {trace : Trace} (effective : Effective history call (.ok trace)) :
    Shows (call :: history) cursor ↔ Cursor.start trace = cursor := by
  have succeeded : Succeeded (.ok trace) := ⟨trace, rfl⟩
  constructor
  · intro ⟨shown, since, last, runs⟩
    obtain ⟨rfl, same⟩ := (last_of_effective effective succeeded).mp last
    cases same
    exact runs
  · intro starts
    exact ⟨trace, [], (last_of_effective effective succeeded).mpr ⟨rfl, rfl⟩, starts⟩

/-- The cursor on the trace that stays loaded makes the move of the call, if the call is one. -/
theorem shows_of_other (opened : call ≠ .close)
    (other_kind : ∀ other, Effective history call other → ¬ Succeeded other) :
    Shows (call :: history) cursor ↔
      ∃ before, Shows history before ∧ before.run call.move?.toList = cursor := by
  constructor
  · intro ⟨trace, since, last, runs⟩
    obtain ⟨since', rfl, before⟩ := (last_of_other opened other_kind).mp last
    rw [movesIn_cons, Cursor.run_append] at runs
    exact ⟨_, ⟨trace, since', before, rfl⟩, runs⟩
  · intro ⟨before, ⟨trace, since, last, shown⟩, runs⟩
    refine ⟨trace, call :: since, (last_of_other opened other_kind).mpr ⟨since, rfl, last⟩, ?_⟩
    rw [movesIn_cons, Cursor.run_append, shown, runs]

end Displays

section Laws

variable {history : List Call} {call : Call}

/-- What a call does to what is shown and to what is remembered. -/
theorem after_cons_cases (legal : Legal (call :: history)) :
    (∃ trace, Effective history call (.ok trace) ∧
        (after (call :: history)).cursor = some (Cursor.start trace) ∧
        (after (call :: history)).lastError = none) ∨
      (call = .close ∧ (after (call :: history)).cursor = none ∧
        (after (call :: history)).lastError = none) ∨
      call ≠ .close ∧ (∀ result, Effective history call result → ¬ Succeeded result) ∧
        (after (call :: history)).cursor =
          (after history).cursor.map (·.run call.move?.toList) ∧
        ((∃ error, Effective history call (.error error) ∧
            (after (call :: history)).lastError = some error) ∨
          (∀ result, ¬ Effective history call result) ∧
            (after (call :: history)).lastError = (after history).lastError) := by
  by_cases effects : ∃ result, Effective history call result
  · obtain ⟨result, effective⟩ := effects
    obtain ⟨begun, shown, applies, _⟩ := answer_of_effective legal effective
    rw [after, applies]
    cases result with
    | ok trace => exact .inl ⟨trace, effective, rfl, rfl⟩
    | error error =>
        refine .inr (.inr ⟨effective.ne_close, ?_, ?_, .inl ⟨error, effective, rfl⟩⟩)
        · intro other effective' succeeded
          obtain ⟨trace, same⟩ := succeeded
          cases (effective.result_eq effective').trans same
        · rw [effective.move?_eq]
          exact shown.trans (map_run_nil _).symm
  · have ineffective := not_exists.mp effects
    by_cases closed : call = .close
    · subst closed
      exact .inr (.inl ⟨rfl, rfl, rfl⟩)
    · obtain ⟨moved, same, _⟩ := answer_of_ineffective legal ineffective closed
      exact .inr (.inr ⟨closed, fun result effective => absurd effective (ineffective result), moved,
        .inr ⟨ineffective, same⟩⟩)

theorem cursor_after (legal : Legal history) {cursor : Cursor} :
    (after history).cursor = some cursor ↔ Shows history cursor := by
  induction history generalizing cursor with
  | nil => exact iff_of_false nofun not_shows_nil
  | cons call history ih =>
      obtain ⟨trace, effective, shown, _⟩ | ⟨rfl, shown, _⟩ | ⟨opened, other_kind, shown, _⟩ :=
        after_cons_cases legal
      · rw [shown, shows_of_effective effective, Option.some_inj]
      · rw [shown]
        exact iff_of_false nofun not_shows_close
      · rw [shown, shows_of_other opened other_kind, Option.map_eq_some_iff]
        exact exists_congr fun before => and_congr_left' (ih legal.2)

theorem lastError_after (legal : Legal history) {error : LoadError} :
    (after history).lastError = some error ↔
      ∃ since, Last Any (.error error) since history := by
  induction history generalizing error with
  | nil => exact iff_of_false nofun fun ⟨_, last⟩ => not_ended_nil last.1
  | cons call history ih =>
      obtain ⟨trace, effective, _, forgotten⟩ | ⟨rfl, _, forgotten⟩ |
        ⟨opened, _, _, ⟨found, effective, remembered⟩ | ⟨ineffective, kept⟩⟩ :=
        after_cons_cases legal
      · have any : Any (.ok trace) := trivial
        rw [forgotten]
        simp only [last_of_effective effective any]
        exact iff_of_false nofun fun ⟨_, _, same⟩ => nomatch same
      · rw [forgotten]
        exact iff_of_false nofun fun ⟨_, last⟩ => not_ended_close last.1
      · have any : Any (.error found) := trivial
        rw [remembered, Option.some_inj]
        simp only [last_of_effective effective any, Except.error.injEq]
        exact ⟨fun same => ⟨[], rfl, same.symm⟩, fun ⟨_, _, same⟩ => same.symm⟩
      · rw [kept, ih legal.2]
        simp only [last_of_other opened fun other effective => absurd effective (ineffective other)]
        exact ⟨fun ⟨since, last⟩ => ⟨call :: since, since, rfl, last⟩,
          fun ⟨_, since, _, last⟩ => ⟨since, last⟩⟩

theorem cursor_isSome_after (legal : Legal history) :
    (after history).cursor.isSome = true ↔ ∃ trace since, Ended (.ok trace) since history := by
  rw [Option.isSome_iff_exists]
  constructor
  · intro ⟨cursor, shown⟩
    obtain ⟨trace, since, last, _⟩ := (cursor_after legal).mp shown
    exact ⟨trace, since, last.1⟩
  · intro ⟨trace, since, ended⟩
    have succeeded : Succeeded (.ok trace) := ⟨trace, rfl⟩
    obtain ⟨result, since', last⟩ := exists_last_of_ended ended succeeded
    obtain ⟨trace', rfl⟩ := last.2.1
    exact ⟨_, (cursor_after legal).mpr ⟨trace', since', last, rfl⟩⟩

theorem state_eq_iff (session : Session) :
    (session.state = .failed ↔ session.lastError.isSome = true) ∧
      (session.state = .loaded ↔
        ¬ session.lastError.isSome = true ∧ session.cursor.isSome = true) ∧
      (session.state = .empty ↔
        ¬ session.lastError.isSome = true ∧ ¬ session.cursor.isSome = true) := by
  rw [state]
  cases session.lastError <;> cases session.cursor <;> simp

/-- How a call that finishes a load comes out. -/
theorem answer_outcome (legal : Legal (call :: history)) :
    (((after history).answer call).2 = some .superseded ↔
        (∃ result, call.result? = some result) ∧ ∀ result, ¬ Effective history call result) ∧
      (((after history).answer call).2 = some .loaded ↔
        ∃ trace, Effective history call (.ok trace)) ∧
      (((after history).answer call).2 = some .failed ↔
        ∃ error, Effective history call (.error error)) := by
  by_cases effects : ∃ result, Effective history call result
  · obtain ⟨result, effective⟩ := effects
    obtain ⟨_, _, _, outcome⟩ := answer_of_effective legal effective
    have kept : ¬ ∀ result, ¬ Effective history call result := fun stale => stale result effective
    rw [outcome, effective.exists_iff, effective.exists_iff]
    cases result <;> simp [outcomeOf, kept]
  · have ineffective := not_exists.mp effects
    have outcome : ((after history).answer call).2 = call.result?.map fun _ => .superseded := by
      by_cases closed : call = .close
      · subst closed
        rfl
      · exact (answer_of_ineffective legal ineffective closed).2.2
    rw [outcome]
    cases call.result? <;> simp [ineffective]

/-- The history of a session decides what it shows, what it remembers and how loads come out: the trace of
the last effective finish that succeeded, with all moves made since, the error of the last effective finish
if that one failed, and a load superseded where its finish is not effective. -/
theorem told_by_history {history : List Call} (legal : Legal history) :
    (∀ call, Legal (call :: history) →
      (((after history).answer call).2 = some .superseded ↔
          (∃ result, call.result? = some result) ∧ ∀ result, ¬ Effective history call result) ∧
        (((after history).answer call).2 = some .loaded ↔
          ∃ trace, Effective history call (.ok trace)) ∧
        (((after history).answer call).2 = some .failed ↔
          ∃ error, Effective history call (.error error))) ∧
      ((after history).cursor.isSome = true ↔ ∃ trace since, Ended (.ok trace) since history) ∧
      (∀ cursor, (after history).cursor = some cursor ↔ Shows history cursor) ∧
      (∀ error, (after history).lastError = some error ↔
        ∃ since, Last Any (.error error) since history) ∧
      ((after history).state = .failed ↔ ∃ error since, Last Any (.error error) since history) ∧
      ((after history).state = .loaded ↔
        (¬ ∃ error since, Last Any (.error error) since history) ∧
          ∃ trace since, Ended (.ok trace) since history) ∧
      ((after history).state = .empty ↔
        (¬ ∃ error since, Last Any (.error error) since history) ∧
          ¬ ∃ trace since, Ended (.ok trace) since history) ∧
      (after history).latest = history.countP Call.supersedes := by
  have shown := cursor_isSome_after legal
  have remembered : (after history).lastError.isSome = true ↔
      ∃ error since, Last Any (.error error) since history := by
    rw [Option.isSome_iff_exists]
    exact exists_congr fun error => lastError_after legal
  obtain ⟨failed, loaded, empty⟩ := state_eq_iff (after history)
  rw [remembered] at failed loaded empty
  rw [shown] at loaded empty
  exact ⟨fun call legal' => answer_outcome legal', shown,
    fun cursor => cursor_after legal,
    fun error => lastError_after legal, failed, loaded, empty, latest_after history⟩

/-- Two loads in flight, of which the second one is finished twice, with moves in between. -/
theorem told_by_history_interleaved :
    let earlier : List Call := [.finish ⟨1⟩ (.ok ⟨[]⟩), .begin, .begin]
    let since : List Call :=
      [.perform .forward, .finish ⟨2⟩ (.error (.unreadable "gone")), .perform .enter]
    let history : List Call := since ++ .finish ⟨2⟩ (.ok callingTrace) :: earlier
    Legal (.finish ⟨1⟩ (.ok ⟨[]⟩) :: history) ∧ Last Succeeded (.ok callingTrace) since history ∧
      (after history).cursor = some ⟨callingTrace, 1, ⟨1, 1⟩, [⟨1, 0⟩]⟩ ∧
      (after history).state = .failed ∧
      ((after history).answer (.finish ⟨1⟩ (.ok ⟨[]⟩))).2 = some .superseded := by
  intro earlier since history
  have first : Issued ⟨1⟩ [.begin] [.begin, .begin] := ⟨[], rfl, rfl⟩
  have second : Issued ⟨2⟩ [] [.begin, .begin] := ⟨[.begin], rfl, rfl⟩
  have second' : Issued ⟨2⟩ [.finish ⟨1⟩ (.ok ⟨[]⟩)] earlier := second.cons _
  have legal : Legal history := by
    refine ⟨nofun, fun _ _ same => ?_, nofun, fun _ _ same => ?_, fun _ _ same => ?_, nofun, nofun,
      trivial⟩
    · cases same
      exact ⟨_, (second'.cons _).cons _⟩
    · cases same
      exact ⟨_, second'⟩
    · cases same
      exact ⟨_, first⟩
  have legal' : Legal (.finish ⟨1⟩ (.ok ⟨[]⟩) :: history) := by
    refine ⟨fun _ _ same => ?_, legal⟩
    cases same
    exact ⟨_, ((((first.cons _).cons _).cons _).cons _).cons _⟩
  have effective : Effective earlier (.finish ⟨2⟩ (.ok callingTrace)) (.ok callingTrace) := by
    refine ⟨rfl, fun _ _ same => ?_⟩
    cases same
    exact ⟨_, second', by decide⟩
  have failing : ∀ other, Effective (.perform .enter :: .finish ⟨2⟩ (.ok callingTrace) :: earlier)
      (.finish ⟨2⟩ (.error (.unreadable "gone"))) other → ¬ Succeeded other := by
    rintro _ ⟨brings, _⟩ ⟨_, rfl⟩
    cases brings
  have moving : ∀ earlier move other, Effective earlier (.perform move) other → ¬ Succeeded other :=
    fun _ _ _ effective => nomatch effective.1
  have succeeded : Succeeded (.ok callingTrace) := ⟨callingTrace, rfl⟩
  have last : Last Succeeded (.ok callingTrace) since history := by
    refine (last_of_other (by nofun) (moving _ _)).mpr ⟨_, rfl, ?_⟩
    refine (last_of_other (by nofun) failing).mpr ⟨_, rfl, ?_⟩
    refine (last_of_other (by nofun) (moving _ _)).mpr ⟨_, rfl, ?_⟩
    exact (last_of_effective effective succeeded).mpr ⟨rfl, rfl⟩
  obtain ⟨outcomes, _, shown, remembered, failed, _⟩ := told_by_history legal
  obtain ⟨superseded, _⟩ := outcomes _ legal'
  refine ⟨legal', last, (shown _).mpr ⟨callingTrace, since, last, rfl⟩, failed.mpr ?_, superseded.mpr ⟨⟨_, rfl⟩, ?_⟩⟩
  · exact ⟨_, (remembered (.unreadable "gone")).mp rfl⟩
  · rintro _ ⟨_, awaited⟩
    exact absurd ((number_eq_latest_iff (((((first.cons _).cons _).cons _).cons _).cons _)).mpr
      (awaited _ _ rfl)) (by decide)

end Laws

end TraceReplay.Session
