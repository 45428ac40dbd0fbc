import Mathlib.Data.List.Forall2
import TraceReplay.Proofs.Session.Call

/-!
Loads that come to nothing do not interfere with anything else. A run is compared with what is left of it when
such loads are taken out. Without the finishes that come too late all other calls are made on the very same
sessions. Without the loads that fail as well, the sessions differ in the error they remember at most, which no
call looks at.
-/
namespace TraceReplay.Session

inductive Returned
  | ticket (ticket : Ticket)
  | outcome (outcome : LoadOutcome)
  /-- There is no reply where there is no cursor to move. -/
  | reply (reply : Option Reply)
  | nothing
deriving DecidableEq

def returned (session : Session) : Call → Returned
  | .begin => .ticket session.begin.2
  | .finish ticket result => .outcome (session.finish ticket result).2.1
  | .load document => .outcome (session.load document).2.1
  | .loadFile path content => .outcome (session.loadFile path content).2.1
  | .close => .nothing
  | .perform move => .reply (session.perform move).2.1

structure Step where
  before : Session
  call : Call

def Step.returned (step : Step) : Returned := step.before.returned step.call

def steps (session : Session) : List Call → List Step
  | [] => []
  | call :: calls => ⟨session, call⟩ :: steps (session.answer call).1 calls

def final (session : Session) : List Call → Session
  | [] => session
  | call :: calls => final (session.answer call).1 calls

namespace Step

def isSuperseded (step : Step) : Bool :=
  match step.call with
  | .finish .. => decide (step.returned = .outcome .superseded)
  | .begin | .load _ | .loadFile .. | .close | .perform _ => false

/-- What is left of a call where loads that come to nothing are taken out. A finish is left only if it loads a
trace; of a whole load that fails the beginning is left. -/
def unlessFailed? (step : Step) : Option Call :=
  match step.call with
  | .finish .. => if step.returned = .outcome .loaded then some step.call else none
  | .load _ | .loadFile .. =>
    if step.returned = .outcome .loaded then some step.call else some .begin
  | .begin | .close | .perform _ => some step.call

/-- A step and what is left of it: they are made with the same cursor and the same number of loads begun, and a
call that is left as it is gives back the same. -/
structure Leaves (step left : Step) : Prop where
  call : step.unlessFailed? = some left.call
  cursor : left.before.cursor = step.before.cursor
  latest : left.before.latest = step.before.latest
  returned : left.call = step.call → left.returned = step.returned

end Step

def withoutSuperseded (session : Session) (calls : List Call) : List Call :=
  ((session.steps calls).filter (!·.isSuperseded)).map Step.call

def withoutFailed (session : Session) (calls : List Call) : List Call :=
  (session.steps calls).filterMap Step.unlessFailed?

section Superseded

variable {session : Session} {call : Call}

theorem finish_cases (session : Session) (ticket : Ticket) (result : Except LoadError Trace) :
    (session.answer (.finish ticket result)).1 = session ∧
        session.returned (.finish ticket result) = .outcome .superseded ∨
      (session.answer (.finish ticket result)).1 = session.applied result ∧
        session.returned (.finish ticket result) = .outcome (outcomeOf result) ∧
        ticket.number = session.latest := by
  by_cases latest : ticket.number = session.latest
  · obtain ⟨applies, outcome⟩ := finish_latest latest result
    exact .inr ⟨applies, congrArg Returned.outcome outcome, latest⟩
  · obtain ⟨same, outcome⟩ := finish_stale latest result
    exact .inl ⟨same, congrArg Returned.outcome outcome⟩

/-- A finish that comes too late changes nothing at all. -/
theorem answer_of_superseded (superseded : (Step.mk session call).isSuperseded = true) :
    (session.answer call).1 = session := by
  cases call with
  | finish ticket result =>
      obtain ⟨same, _⟩ | ⟨_, outcome, _⟩ := finish_cases session ticket result
      · exact same
      · have late : session.returned (.finish ticket result) = .outcome .superseded :=
          of_decide_eq_true superseded
        rw [outcome] at late
        cases result <;> cases late
  | begin | load _ | loadFile _ _ | close | perform _ => cases superseded

/-- Without the finishes that come too late, the other steps and the session at the end are as they were. -/
theorem steps_withoutSuperseded (session : Session) (calls : List Call) :
    session.steps (session.withoutSuperseded calls) =
        (session.steps calls).filter (!·.isSuperseded) ∧
      session.final (session.withoutSuperseded calls) = session.final calls := by
  induction calls generalizing session with
  | nil => exact ⟨rfl, rfl⟩
  | cons call calls ih =>
      rw [withoutSuperseded, steps, List.filter_cons, final]
      cases superseded : (Step.mk session call).isSuperseded with
      | true =>
          rw [answer_of_superseded superseded]
          exact ih session
      | false =>
          obtain ⟨same, ends⟩ := ih (session.answer call).1
          rw [if_pos Bool.not_false, List.map_cons, steps, final]
          exact ⟨congrArg (List.cons _) same, ends⟩

end Superseded

section Failed

/-- Two sessions differ at most in the error that they remember. -/
structure Alike (session other : Session) : Prop where
  cursor : other.cursor = session.cursor
  latest : other.latest = session.latest

variable {session other : Session} {call : Call} {result : Except LoadError Trace}

theorem Alike.begin (alike : Alike session other) : Alike session.begin.1 other.begin.1 :=
  ⟨alike.cursor, congrArg (· + 1) alike.latest⟩

theorem Alike.applied (alike : Alike session other) (result : Except LoadError Trace) :
    Alike (session.applied result) (other.applied result) := by
  cases result with
  | ok trace => exact ⟨rfl, alike.latest⟩
  | error error => exact ⟨alike.cursor, alike.latest⟩

/-- A whole load applies its result to the session with the load begun. -/
theorem answer_of_load (brings : call.result? = some result)
    (whole : ∀ ticket given, call ≠ .finish ticket given) (session : Session) :
    (session.answer call).1 = session.begin.1.applied result ∧
      session.returned call = .outcome (outcomeOf result) := by
  cases call with
  | finish ticket given => exact absurd rfl (whole ticket given)
  | begin | close | perform _ => cases brings
  | load document =>
      cases brings
      obtain ⟨applies, outcome⟩ := finish_begun session (Trace.load document)
      exact ⟨applies, congrArg Returned.outcome outcome⟩
  | loadFile path content =>
      obtain ⟨applies, outcome⟩ := finish_begun session result
      cases content with
      | ok document =>
          cases brings
          exact ⟨applies, congrArg Returned.outcome outcome⟩
      | error reason =>
          cases brings
          exact ⟨applies, congrArg Returned.outcome outcome⟩

/-- Alike sessions stay alike when what is left of a call is made on the second one. -/
def Follows (session other : Session) (call : Call) : Option Call → Prop
  | none => Alike (session.answer call).1 other
  | some left => Alike (session.answer call).1 (other.answer left).1 ∧
      (left = call → other.returned left = session.returned call)

theorem Alike.follows_finish (alike : Alike session other) (ticket : Ticket)
    (result : Except LoadError Trace) :
    Follows session other (.finish ticket result)
      (Step.mk session (.finish ticket result)).unlessFailed? := by
  have returned : (Step.mk session (.finish ticket result)).returned =
    session.returned (.finish ticket result) := rfl
  rw [Step.unlessFailed?, returned]
  obtain ⟨same, outcome⟩ | ⟨applies, outcome, latest⟩ := finish_cases session ticket result
  · rw [outcome, if_neg (by decide), Follows, same]
    exact alike
  · cases result with
    | error error =>
        rw [outcome, outcomeOf, if_neg (by decide), Follows, applies]
        exact ⟨alike.cursor, alike.latest⟩
    | ok trace =>
        obtain ⟨applies', outcome'⟩ := finish_latest (latest.trans alike.latest.symm) (.ok trace)
        rw [outcome, outcomeOf, if_pos rfl, Follows, applies]
        exact ⟨applies' ▸ alike.applied (.ok trace),
          fun _ => (congrArg Returned.outcome outcome').trans outcome.symm⟩

theorem Alike.follows_load (alike : Alike session other) (brings : call.result? = some result)
    (whole : ∀ ticket given, call ≠ .finish ticket given) :
    Follows session other call (Step.mk session call).unlessFailed? := by
  obtain ⟨applies, outcome⟩ := answer_of_load brings whole session
  obtain ⟨applies', outcome'⟩ := answer_of_load brings whole other
  have left : (Step.mk session call).unlessFailed? =
      if (Step.mk session call).returned = .outcome .loaded then some call else some .begin := by
    cases call with
    | finish ticket given => exact absurd rfl (whole ticket given)
    | begin | close | perform _ => cases brings
    | load _ | loadFile _ _ => rfl
  have returned : (Step.mk session call).returned = session.returned call := rfl
  rw [left, returned, outcome]
  cases result with
  | ok trace =>
      rw [outcomeOf, if_pos rfl, Follows, applies, applies']
      exact ⟨alike.begin.applied (.ok trace), fun _ => outcome'.trans outcome.symm⟩
  | error error =>
      rw [outcomeOf, if_neg (by decide), Follows, applies]
      refine ⟨⟨alike.begin.cursor, alike.begin.latest⟩, fun same => ?_⟩
      rw [← same] at brings
      cases brings

theorem Alike.follows (alike : Alike session other) (call : Call) :
    Follows session other call (Step.mk session call).unlessFailed? := by
  cases call with
  | finish ticket result => exact alike.follows_finish ticket result
  | load document => exact alike.follows_load rfl nofun
  | loadFile path content =>
      cases content with
      | ok document => exact alike.follows_load rfl nofun
      | error reason => exact alike.follows_load rfl nofun
  | begin =>
      have given : other.begin.2 = session.begin.2 := congrArg (Ticket.mk <| · + 1) alike.latest
      exact ⟨alike.begin, fun _ => congrArg Returned.ticket given⟩
  | close => exact ⟨⟨rfl, congrArg (· + 1) alike.latest⟩, fun _ => rfl⟩
  | perform move =>
      have moves : Alike (session.perform move).1 (other.perform move).1 ∧
          (other.perform move).2.1 = (session.perform move).2.1 := by
        rw [perform, perform, alike.cursor]
        cases shown : session.cursor with
        | none => exact ⟨alike, rfl⟩
        | some cursor => exact ⟨⟨rfl, alike.latest⟩, rfl⟩
      exact ⟨moves.1, fun _ => congrArg Returned.reply moves.2⟩

/-- By induction on the calls: what is left of each is made beside it, on sessions that stay alike. -/
theorem Alike.steps_filterMap (alike : Alike session other) (calls : List Call) :
    List.Forall₂ Step.Leaves ((session.steps calls).filter (·.unlessFailed?.isSome))
        (other.steps (session.withoutFailed calls)) ∧
      Alike (session.final calls) (other.final (session.withoutFailed calls)) := by
  induction calls generalizing session other with
  | nil => exact ⟨.nil, alike⟩
  | cons call calls ih =>
      have follows := alike.follows call
      rw [withoutFailed, steps, List.filter_cons, List.filterMap_cons, final]
      cases left : (Step.mk session call).unlessFailed? with
      | none =>
          rw [left] at follows
          exact ih follows
      | some call' =>
          rw [left] at follows
          obtain ⟨rest, ends⟩ := ih follows.1
          exact ⟨.cons ⟨left, alike.cursor, alike.latest, follows.2⟩ rest, ends⟩

end Failed

/-- Loads that come to nothing leave no trace. If the finishes that come too late are taken out of a run, all other
calls are made on the same sessions as before, so they give back the same, and the run ends with the same session.
If loads that fail are taken out as well, all other calls find the same cursor and give back the same, and the run
ends with the same cursor and with as many loads begun. -/
theorem fruitless_loads_do_not_interfere (session : Session) (calls : List Call) :
    (session.steps (session.withoutSuperseded calls) =
        (session.steps calls).filter (!·.isSuperseded) ∧
      session.final (session.withoutSuperseded calls) = session.final calls) ∧
    List.Forall₂ Step.Leaves ((session.steps calls).filter (·.unlessFailed?.isSome))
        (session.steps (session.withoutFailed calls)) ∧
      (session.final (session.withoutFailed calls)).cursor = (session.final calls).cursor ∧
      (session.final (session.withoutFailed calls)).latest = (session.final calls).latest := by
  have alike : Alike session session := ⟨rfl, rfl⟩
  obtain ⟨leaves, ends⟩ := alike.steps_filterMap calls
  exact ⟨session.steps_withoutSuperseded calls, leaves, ends.cursor, ends.latest⟩

example :
    new.withoutFailed [.load [], .begin, .begin, .finish ⟨2⟩ (.ok ⟨[]⟩), .finish ⟨3⟩ (.ok ⟨[]⟩),
        .perform .reset, .finish ⟨3⟩ (.error (.unreadable "gone"))] =
      [.begin, .begin, .begin, .finish ⟨3⟩ (.ok ⟨[]⟩), .perform .reset] := rfl

end TraceReplay.Session
