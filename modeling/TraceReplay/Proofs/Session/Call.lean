import TraceReplay.Proofs.Cursor.Placement
import TraceReplay.Session

/-!
What can be done with a session, and what it does after all that was done before. The calls made with a
fresh session are listed with the last one first. A finish is effective where no load was begun and nothing
closed since its ticket was given out; the number of the ticket is enough to tell, because it is the latest
number for just as long.
-/
namespace TraceReplay.Session

/-- What can be done with a session. Reading a file is taken for what it yields. -/
inductive Call
  | begin
  | finish (ticket : Ticket) (result : Except LoadError Trace)
  | load (document : Bytes)
  | loadFile (path : String) (content : Except String Bytes)
  | close
  | perform (move : Move)

namespace Call

def supersedes : Call → Bool
  | .begin | .load _ | .loadFile .. | .close => true
  | .finish .. | .perform _ => false

def result? : Call → Option (Except LoadError Trace)
  | .finish _ result => some result
  | .load document => some (Trace.load document)
  | .loadFile _ (.ok document) => some (Trace.load document)
  | .loadFile _ (.error reason) => some (.error (.unreadable reason))
  | .begin | .close | .perform _ => none

def move? : Call → Option Move
  | .perform move => some move
  | _ => none

end Call

def answer (session : Session) : Call → Session × Option LoadOutcome
  | .begin => (session.begin.1, none)
  | .finish ticket result =>
    ((session.finish ticket result).1, some (session.finish ticket result).2.1)
  | .load document => ((session.load document).1, some (session.load document).2.1)
  | .loadFile path content =>
    ((session.loadFile path content).1, some (session.loadFile path content).2.1)
  | .close => (session.close, none)
  | .perform move => ((session.perform move).1, none)

def after : List Call → Session
  | [] => new
  | call :: earlier => ((after earlier).answer call).1

/-- The ticket was given out, and these calls were made since. -/
def Issued (ticket : Ticket) (since history : List Call) : Prop :=
  ∃ earlier, history = since ++ .begin :: earlier ∧ (after earlier).begin.2 = ticket

/-- No load was begun and nothing closed since the ticket was given out. -/
def Awaited (ticket : Ticket) (history : List Call) : Prop :=
  ∃ since, Issued ticket since history ∧ ∀ call ∈ since, call.supersedes = false

/-- Loads are finished with tickets given out before. -/
def Legal : List Call → Prop
  | [] => True
  | call :: earlier =>
    (∀ ticket result, call = .finish ticket result → ∃ since, Issued ticket since earlier) ∧
      Legal earlier

/-- A call finishes a load with a result that nothing has superseded. -/
def Effective (earlier : List Call) (call : Call) (result : Except LoadError Trace) : Prop :=
  call.result? = some result ∧
    ∀ ticket result, call = .finish ticket result → Awaited ticket earlier

section Numbers

variable {history since : List Call} {ticket : Ticket}

theorem latest_finish (session : Session) (ticket : Ticket) (result : Except LoadError Trace) :
    (session.finish ticket result).1.latest = session.latest := by
  unfold finish
  split
  case isTrue => cases result <;> rfl
  case isFalse => rfl

theorem latest_perform (session : Session) (move : Move) :
    (session.perform move).1.latest = session.latest := by
  rw [perform]
  cases session.cursor <;> rfl

theorem latest_answer (session : Session) (call : Call) :
    (session.answer call).1.latest = session.latest + call.supersedes.toNat := by
  cases call with
  | begin | close => rfl
  | finish ticket result => exact latest_finish session ticket result
  | load document => exact latest_finish session.begin.1 session.begin.2 _
  | loadFile path content =>
      cases content with
      | ok document => exact latest_finish session.begin.1 session.begin.2 _
      | error reason =>
          exact latest_finish session.begin.1 session.begin.2 (.error (.unreadable reason))
  | perform move => exact latest_perform session move

/-- Each load and each close takes a number. -/
theorem latest_after (history : List Call) :
    (after history).latest = history.countP Call.supersedes := by
  induction history with
  | nil => rfl
  | cons call earlier ih =>
      rw [after, latest_answer, ih, List.countP_cons]
      cases call.supersedes <;> rfl

theorem Issued.cons (issued : Issued ticket since history) (call : Call) :
    Issued ticket (call :: since) (call :: history) := by
  obtain ⟨earlier, rfl, given⟩ := issued
  exact ⟨earlier, rfl, given⟩

/-- Earlier tickets have smaller numbers. -/
theorem eq_of_begin_suffix {earlier later : List Call}
    (suffix : .begin :: earlier <:+ .begin :: later)
    (same : earlier.countP Call.supersedes = later.countP Call.supersedes) : earlier = later := by
  cases List.suffix_cons_iff.mp suffix with
  | inl whole => exact List.tail_eq_of_cons_eq whole
  | inr within =>
      have fewer : _ ≤ later.countP Call.supersedes := within.sublist.countP_le
      rw [List.countP_cons_of_pos rfl, same] at fewer
      exact absurd fewer (Nat.not_succ_le_self _)

/-- A ticket is given out once. -/
theorem Issued.unique {since' : List Call} (issued : Issued ticket since history)
    (issued' : Issued ticket since' history) : since = since' := by
  obtain ⟨earlier, split, given⟩ := issued
  obtain ⟨earlier', split', given'⟩ := issued'
  have number : earlier.countP Call.supersedes = earlier'.countP Call.supersedes := by
    rw [← latest_after, ← latest_after]
    exact Nat.succ_inj.mp (congrArg Ticket.number (given.trans given'.symm))
  have suffix : .begin :: earlier <:+ history := ⟨since, split.symm⟩
  have suffix' : .begin :: earlier' <:+ history := ⟨since', split'.symm⟩
  have same : earlier = earlier' := by
    cases List.suffix_or_suffix_of_suffix suffix suffix' with
    | inl within => exact eq_of_begin_suffix within number
    | inr within => exact (eq_of_begin_suffix within number.symm).symm
  rw [split, same] at split'
  exact List.append_cancel_right split'

/-- A ticket has the latest number just as long as its load is awaited. -/
theorem number_eq_latest_iff (issued : Issued ticket since history) :
    ticket.number = (after history).latest ↔ Awaited ticket history := by
  have awaited_iff : Awaited ticket history ↔ since.countP Call.supersedes = 0 := by
    simp only [List.countP_eq_zero, Bool.not_eq_true]
    constructor
    · intro ⟨since', issued', quiet⟩
      rwa [issued.unique issued']
    · intro quiet
      exact ⟨since, issued, quiet⟩
  obtain ⟨earlier, split, given⟩ := issued
  have number : ticket.number = (after earlier).latest + 1 := given ▸ rfl
  have count : history.countP Call.supersedes =
      since.countP Call.supersedes + (earlier.countP Call.supersedes + 1) := by
    rw [split, List.countP_append, List.countP_cons_of_pos rfl]
  rw [awaited_iff, number, latest_after, latest_after, count]
  omega

end Numbers

section Answers

def applied (session : Session) : Except LoadError Trace → Session
  | .ok trace => { session with cursor := some (Cursor.start trace), lastError := none }
  | .error error => { session with lastError := some error }

def outcomeOf : Except LoadError Trace → LoadOutcome
  | .ok _ => .loaded
  | .error _ => .failed

variable {session : Session} {ticket : Ticket} {earlier : List Call} {call : Call}
  {result other : Except LoadError Trace}

theorem finish_latest (latest : ticket.number = session.latest) (result : Except LoadError Trace) :
    (session.finish ticket result).1 = session.applied result ∧
      (session.finish ticket result).2.1 = outcomeOf result := by
  unfold finish
  rw [if_pos latest]
  cases result <;> exact ⟨rfl, rfl⟩

theorem finish_stale (stale : ticket.number ≠ session.latest) (result : Except LoadError Trace) :
    (session.finish ticket result).1 = session ∧
      (session.finish ticket result).2.1 = .superseded := by
  unfold finish
  rw [if_neg stale]
  exact ⟨rfl, rfl⟩

theorem finish_begun (session : Session) (result : Except LoadError Trace) :
    (session.begin.1.finish session.begin.2 result).1 = session.begin.1.applied result ∧
      (session.begin.1.finish session.begin.2 result).2.1 = outcomeOf result :=
  finish_latest rfl result

theorem map_run_nil (cursor : Option Cursor) : cursor.map (·.run []) = cursor := Option.map_id_apply

theorem perform_eq (session : Session) (move : Move) :
    (session.perform move).1.cursor = session.cursor.map (·.run [move]) ∧
      (session.perform move).1.lastError = session.lastError := by
  unfold perform
  cases shown : session.cursor with
  | none => exact ⟨shown, rfl⟩
  | some cursor => exact ⟨rfl, rfl⟩

theorem Effective.result_eq (effective : Effective earlier call result)
    (effective' : Effective earlier call other) : result = other :=
  Option.some.inj (effective.1.symm.trans effective'.1)

theorem Effective.exists_iff {α : Type} {build : α → Except LoadError Trace}
    (effective : Effective earlier call result) :
    (∃ x, Effective earlier call (build x)) ↔ ∃ x, result = build x := by
  constructor
  · intro ⟨x, effective'⟩
    exact ⟨x, effective.result_eq effective'⟩
  · intro ⟨x, same⟩
    exact ⟨x, same ▸ effective⟩

theorem Effective.move?_eq (effective : Effective earlier call result) : call.move? = none := by
  cases call with
  | perform move => cases effective.1
  | begin | finish _ _ | load _ | loadFile _ _ | close => rfl

theorem Effective.ne_close (effective : Effective earlier call result) : call ≠ .close := by
  rintro rfl
  cases effective.1

/-- An effective finish applies its result to the session, or to the session with the load begun. -/
theorem answer_of_effective (legal : Legal (call :: earlier))
    (effective : Effective earlier call result) :
    ∃ begun : Session, begun.cursor = (after earlier).cursor ∧
      ((after earlier).answer call).1 = begun.applied result ∧
      ((after earlier).answer call).2 = some (outcomeOf result) := by
  obtain ⟨brings, awaited⟩ := effective
  cases call with
  | begin | close | perform _ => cases brings
  | finish ticket given =>
      cases brings
      obtain ⟨since, issued⟩ := legal.1 ticket result rfl
      have latest := (number_eq_latest_iff issued).mpr (awaited ticket result rfl)
      obtain ⟨applies, outcome⟩ := finish_latest latest result
      exact ⟨after earlier, rfl, applies, congrArg some outcome⟩
  | load document =>
      cases brings
      obtain ⟨applies, outcome⟩ := finish_begun (after earlier) (Trace.load document)
      exact ⟨(after earlier).begin.1, rfl, applies, congrArg some outcome⟩
  | loadFile path content =>
      obtain ⟨applies, outcome⟩ := finish_begun (after earlier) result
      cases content with
      | ok document =>
          cases brings
          exact ⟨(after earlier).begin.1, rfl, applies, congrArg some outcome⟩
      | error reason =>
          cases brings
          exact ⟨(after earlier).begin.1, rfl, applies, congrArg some outcome⟩

/-- A call that neither finishes a load effectively nor closes the session makes at most a move. -/
theorem answer_of_ineffective (legal : Legal (call :: earlier))
    (ineffective : ∀ result, ¬ Effective earlier call result) (opened : call ≠ .close) :
    ((after earlier).answer call).1.cursor =
        (after earlier).cursor.map (·.run call.move?.toList) ∧
      ((after earlier).answer call).1.lastError = (after earlier).lastError ∧
      ((after earlier).answer call).2 = call.result?.map fun _ => .superseded := by
  have still := (map_run_nil (after earlier).cursor).symm
  cases call with
  | begin => exact ⟨still, rfl, rfl⟩
  | close => contradiction
  | load document => exact absurd ⟨rfl, fun _ _ => nofun⟩ (ineffective (Trace.load document))
  | loadFile path content =>
      cases content with
      | ok document => exact absurd ⟨rfl, fun _ _ => nofun⟩ (ineffective (Trace.load document))
      | error reason =>
          exact absurd ⟨rfl, fun _ _ => nofun⟩ (ineffective (.error (.unreadable reason)))
  | finish ticket given =>
      obtain ⟨since, issued⟩ := legal.1 ticket given rfl
      have stale : ticket.number ≠ (after earlier).latest := by
        intro latest
        have awaited := (number_eq_latest_iff issued).mp latest
        refine ineffective given ⟨rfl, fun ticket' result same => ?_⟩
        cases same
        exact awaited
      obtain ⟨same, outcome⟩ := finish_stale stale given
      exact ⟨(congrArg cursor same).trans still, congrArg lastError same, congrArg some outcome⟩
  | perform move =>
      obtain ⟨moved, same⟩ := perform_eq (after earlier) move
      exact ⟨moved, same, rfl⟩

end Answers

end TraceReplay.Session
