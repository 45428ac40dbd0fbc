import TraceReplay.Proofs.Cursor.Landing
import TraceReplay.Proofs.Interactive.Isolation
import TraceReplay.Proofs.Interactive.Language
import TraceReplay.Proofs.Program.Arguments
import TraceReplay.Proofs.Reading.Length
import TraceReplay.Proofs.Trace.Selection

/-!
The numbers of steps and methods, as they are typed at the prompt, given as arguments and shown in a view. A
number leads to the same view in all three places, whatever the session was looking at before.
-/
namespace TraceReplay

/-- The header of a view that counts a step, with its number and the number of all steps. -/
def Counts (view : List Piece) (k all : Nat) : Prop :=
  ∃ name place rest, view = .bold :: .plain name :: .reset ::
    .plain (place ++ ", step " ++ toString k ++ "/" ++ toString all ++ "]\n") :: rest

namespace Cursor

theorem start_trace (trace : Trace) : (start trace).trace = trace :=
  (Reachable.start : Reachable trace (start trace)).wellPlaced.trace_eq

/-- Jumps over a whole trace do not depend on where they start. -/
theorem jumpToStep_congr {cursor other : Cursor} (same : other.trace = cursor.trace) (n : Nat) :
    other.jumpToStep n = cursor.jumpToStep n := by
  rw [jumpToStep, jumpToStep, same]

theorem jumpToMethod_congr {cursor other : Cursor} (same : other.trace = cursor.trace) (i : Nat) :
    other.jumpToMethod i = cursor.jumpToMethod i := by
  rw [jumpToMethod, jumpToMethod, same]

theorem exists_jumpToMethod_iff {cursor : Cursor} {i : Nat} :
    (∃ moved, cursor.jumpToMethod i = .ok moved) ↔ i < cursor.trace.methodCount := by
  rw [jumpToMethod, Trace.methodCount]
  split
  next found => simp [(List.getElem?_eq_some_iff.mp found).1]
  next missing => simpa using missing

end Cursor

section Header

variable {cursor : Cursor} {settings : RenderSettings} {k k' all all' n : Nat}

theorem Cursor.standing_of_stepIndex? (numbered : cursor.stepIndex? = some n) :
    ∃ place, cursor.standing = place ++ ", step " ++ toString (n + 1) ++ "/" ++
      toString cursor.trace.totalEvaluationCount ++ "]\n" := by
  delta standing
  rw [numbered]
  refine ⟨"  [method " ++ toString cursor.method ++ ", block " ++ toString cursor.frame.block ++
    ", eval " ++ toString cursor.frame.eval, ?_⟩
  generalize "  [method " ++ toString cursor.method ++ ", block " ++ toString cursor.frame.block ++
    ", eval " ++ toString cursor.frame.eval = place
  simp only [String.append_assoc]

theorem Cursor.counts_of_stepIndex? (numbered : cursor.stepIndex? = some n) :
    Counts (cursor.view settings) (n + 1) cursor.trace.totalEvaluationCount := by
  obtain ⟨top, onStep, _⟩ := stepIndex?_eq_some_iff.mp numbered
  obtain ⟨method, found, _⟩ := position_mem_addressable top onStep
  have current : cursor.currentMethod? = some method := found
  obtain ⟨place, stands⟩ := standing_of_stepIndex? numbered
  rw [view, current, stands]
  exact ⟨method.displayName, place, _, rfl⟩

/-- Digits at the end of a text, after another character, are told from what is before them. -/
theorem append_toString_inj {before before' : List Char} {c c' : Char} (other : ¬c.isDigit)
    (other' : ¬c'.isDigit)
    (same : before ++ c :: (toString k).toList = before' ++ c' :: (toString k').toList) :
    k = k' ∧ before ++ [c] = before' ++ [c'] := by
  have reversed := congrArg List.reverse same
  rw [List.reverse_append, List.reverse_append, List.reverse_cons, List.reverse_cons, List.append_assoc,
    List.append_assoc] at reversed
  have digits (n : Nat) : ∀ d ∈ (toString n).toList.reverse, d.isDigit := fun d mem =>
    PathStep.digit_of_mem_toString n d (List.mem_reverse.mp mem)
  obtain ⟨number, rest⟩ := PathStep.append_inj_of_takeWhile (digits k) (digits k') (by simp [other])
    (by simp [other']) reversed
  refine ⟨PathStep.toString_injective (List.reverse_injective number), List.reverse_injective ?_⟩
  simpa using rest

/-- A view shows one number of a step and one number of all. -/
theorem Counts.unique {view : List Piece} (counts : Counts view k all) (counts' : Counts view k' all') :
    k = k' ∧ all = all' := by
  obtain ⟨name, place, rest, rfl⟩ := counts
  obtain ⟨name', place', rest', same⟩ := counts'
  simp only [List.cons.injEq, Piece.plain.injEq, true_and] at same
  have shape (place : String) (k all : Nat) :
      (place ++ ", step " ++ toString k ++ "/" ++ toString all ++ "]\n").toList =
        (place.toList ++ ", step".toList ++ ' ' :: (toString k).toList) ++ '/' :: (toString all).toList ++
          "]\n".toList := by
    simp
  have characters := congrArg String.toList same.2.1
  rw [shape, shape] at characters
  obtain ⟨total, rest⟩ :=
    append_toString_inj (by decide) (by decide) (List.append_cancel_right characters)
  obtain ⟨number, _⟩ :=
    append_toString_inj (by decide) (by decide) (List.append_cancel_right rest)
  exact ⟨number, total⟩

end Header

namespace Command

/-- A line with one of these names and a text that spells the number. -/
def Typed (names : List String) (n : Nat) (line : String) : Prop :=
  ∃ name ∈ names, ∃ text, Text.words line = [name, text] ∧ Text.Spells text n

section Typing

variable {names : List String} {name line : String} {quantity : Quantity} {n : Nat}

/-- The name of a command and a printed number. -/
theorem typed_toString (mem : name ∈ names) (isWord : Text.IsWord name) (n : Nat) :
    Typed names n (name ++ " " ++ toString n) :=
  have spells := Text.spells_toString n
  ⟨name, mem, toString n, Text.words_pair isWord spells.isWord, spells⟩

theorem parse_typed (requests : ∀ name ∈ names, request? name = some (.number quantity))
    (typed : Typed names n line) (small : n < Text.wordLimit) :
    parse line = (ofNumber quantity n).map some := by
  obtain ⟨name, mem, text, words, spells⟩ := typed
  simp [parse, words, requests name mem, ofRequest, Text.number?_eq_some_iff.mpr ⟨spells, small⟩]

theorem parse_step (typed : Typed ["s", "step"] (n + 1) line) (small : n + 1 < Text.wordLimit) :
    parse line = .ok (some (.move (.step n))) :=
  parse_typed (request?_of_mem (.number .stepNumber)) typed small

theorem parse_method (typed : Typed ["m", "method"] n line) (small : n < Text.wordLimit) :
    parse line = .ok (some (.move (.method n))) :=
  parse_typed (request?_of_mem (.number .methodIndex)) typed small

theorem parse_typed_large (requests : ∀ name ∈ names, request? name = some (.number quantity))
    (typed : Typed names n line) (large : Text.wordLimit ≤ n) :
    ∃ text, parse line = .error (.invalidNumber text quantity) := by
  obtain ⟨name, mem, text, words, spells⟩ := typed
  have unread : Text.number? text = none := by
    rw [Text.number?_of_spells spells, if_neg (Nat.not_lt.mpr large)]
  refine ⟨text, ?_⟩
  simp [parse, words, requests name mem, ofRequest, unread, Except.map]

end Typing

end Command

namespace Interactive

/-- A line that leads to a cursor is answered with the view from there, and with nothing else. -/
def LeadsTo (settings : RenderSettings) (files : Surroundings) (session : Session) (line : String)
    (moved : Cursor) : Prop :=
  respond settings files.read session line =
    some ({ session with cursor := some moved }, moved.view settings)

/-- A line that is refused is answered with an error, and the session stays as it is. -/
def Refuses (settings : RenderSettings) (files : Surroundings) (session : Session) (line : String) :
    Prop :=
  ∃ message shown, respond settings files.read session line =
    some (session, Piece.errorLine message ++ shown)

section Answers

variable {settings : RenderSettings} {files : Surroundings} {session : Session} {line : String}
  {cursor moved moved' : Cursor} {move : Move} {result : Except NavigationError Cursor}

theorem LeadsTo.unique (leads : LeadsTo settings files session line moved)
    (leads' : LeadsTo settings files session line moved') : moved = moved' := by
  have sessions := congrArg Prod.fst (Option.some.inj (leads.symm.trans leads'))
  exact Option.some.inj (congrArg Session.cursor sessions)

/-- No view begins with an error. -/
theorem Refuses.not_leadsTo (refuses : Refuses settings files session line) :
    ¬LeadsTo settings files session line moved := by
  intro leads
  obtain ⟨message, shown, responds⟩ := refuses
  have views := congrArg Prod.snd (Option.some.inj (leads.symm.trans responds))
  rw [Cursor.view] at views
  split at views <;> simp [Piece.errorLine, Piece.inColour] at views

theorem leadsTo_of_ok (parsed : Command.parse line = .ok (some (.move move)))
    (shown : session.cursor = some cursor) (settles : cursor.perform move = cursor.settle result)
    (jump : result = .ok moved) : LeadsTo settings files session line moved := by
  rw [LeadsTo, respond_move_of_some parsed shown, settles, jump]
  rfl

theorem refuses_of_error (parsed : Command.parse line = .ok (some (.move move)))
    (shown : session.cursor = some cursor) (settles : cursor.perform move = cursor.settle result)
    {error : NavigationError} (jump : result = .error error) :
    Refuses settings files session line := by
  refine ⟨error.message, _, respond_unmoved parsed shown ?_ ?_⟩ <;>
  · rw [settles, jump]
    rfl

theorem refuses_malformed {error : CommandError} (parsed : Command.parse line = .error error) :
    Refuses settings files session line :=
  ⟨error.message, [], (respond_malformed parsed).trans (by rw [List.append_nil])⟩

end Answers

/-- A line and a run agree on a step or a method: both succeed just if it is there, and then show the same
view. -/
structure Agree (settings : RenderSettings) (files : Surroundings) (session : Session)
    (coloured : Bool) (line : String) (run : Outcome) (isThere : Prop) : Prop where
  line_succeeds : (∃ moved, LeadsTo settings files session line moved) ↔ isThere
  run_succeeds : run.exit = 0 ↔ isThere
  same_view : ∀ moved, LeadsTo settings files session line moved →
    run = ⟨0, Piece.bytes coloured (moved.view settings), []⟩
  refuses : ¬isThere → Refuses settings files session line

section Agreement

variable {settings : RenderSettings} {files : Surroundings} {session : Session} {coloured : Bool}
  {line : String} {run : Outcome} {isThere : Prop} {moved : Cursor}

theorem Agree.of_there (leads : LeadsTo settings files session line moved)
    (shows : run = ⟨0, Piece.bytes coloured (moved.view settings), []⟩) (there : isThere) :
    Agree settings files session coloured line run isThere where
  line_succeeds := iff_of_true ⟨moved, leads⟩ there
  run_succeeds := iff_of_true (congrArg Outcome.exit shows) there
  same_view _ leads' := leads.unique leads' ▸ shows
  refuses notThere := absurd there notThere

theorem Agree.of_missing (refuses : Refuses settings files session line) (fails : run.exit ≠ 0)
    (missing : ¬isThere) : Agree settings files session coloured line run isThere where
  line_succeeds := iff_of_false (fun ⟨_, leads⟩ => refuses.not_leadsTo leads) missing
  run_succeeds := iff_of_false fails missing
  same_view _ leads := absurd leads refuses.not_leadsTo
  refuses _ := refuses

end Agreement

end Interactive

/-- Options of a run that shows a trace file once, and wait for a step or a method to show of it. -/
structure Options.AwaitsChoice (options : Options) : Prop where
  unchosen : options.Unchosen
  noDump : options.dump = false
  once : options.interactive = false

/-- A file with a trace; a word holds the number of its bytes. -/
structure Surroundings.HasTrace (files : Surroundings) (path : String) (trace : Trace) : Prop where
  noDirectory : files.tracesBelow path = none
  loads : ∃ document, files.read path = .ok document ∧ Trace.load document = .ok trace ∧
    document.length < Text.wordLimit

section Runs

variable {files : Surroundings} {options : Options} {trace : Trace} {coloured : Bool}
  {output : Output}

theorem Surroundings.HasTrace.load_eq (has : files.HasTrace options.input trace) :
    files.load options.input = .ok trace := by
  obtain ⟨document, reads, loaded, _⟩ := has.loads
  rw [load, reads]
  exact loaded

theorem Surroundings.HasTrace.counts_lt (has : files.HasTrace options.input trace) :
    trace.totalEvaluationCount < Text.wordLimit ∧ trace.methodCount < Text.wordLimit := by
  obtain ⟨document, _, loaded, short⟩ := has.loads
  obtain ⟨steps, methods⟩ := Trace.counts_le_of_load loaded
  exact ⟨Nat.lt_of_le_of_lt steps short, Nat.lt_of_le_of_lt methods short⟩

theorem run_choose (has : files.HasTrace options.input trace) (awaits : options.AwaitsChoice)
    (choice : Choice) (input : Bytes) :
    (options.choose choice).run files input = (options.choose choice).runOnce files := by
  cases choice <;> simp [Options.run, Options.choose, has.noDirectory, awaits.once]

theorem run_chosen_step (has : files.HasTrace options.input trace) (awaits : options.AwaitsChoice)
    (k : Nat) (input : Bytes) : (options.choose (.step k)).run files input =
      viewFrom options.settings ((Cursor.start trace).jumpToStep (k - 1)) := by
  rw [run_choose has awaits]
  simp only [Options.runOnce, Options.present, Options.choose, has.load_eq, awaits.unchosen.2,
    awaits.noDump]
  rfl

theorem run_chosen_method (has : files.HasTrace options.input trace)
    (awaits : options.AwaitsChoice) {text : String} {i : Nat}
    (chosen : trace.chosenMethod text = .ok i) (input : Bytes) :
    (options.choose (.method text)).run files input =
      viewFrom options.settings ((Cursor.start trace).jumpToMethod i) := by
  rw [run_choose has awaits]
  simp only [Options.runOnce, Options.present, Options.choose, has.load_eq, chosen,
    awaits.unchosen.1, awaits.noDump]
  rfl

theorem run_unknown_method (has : files.HasTrace options.input trace)
    (awaits : options.AwaitsChoice) {text : String} {error : ProgramError}
    (chosen : trace.chosenMethod text = .error error) (input : Bytes) :
    (options.choose (.method text)).run files input = .ofError error := by
  rw [run_choose has awaits]
  simp only [Options.runOnce, Options.choose, has.load_eq, chosen]

theorem deliver_view (unlimited : output.room = none) (settings : RenderSettings)
    (cursor : Cursor) : (viewFrom settings (.ok cursor)).deliver coloured output =
      ⟨0, Piece.bytes coloured (cursor.view settings), []⟩ := by
  rw [Transcript.deliver_of_unlimited unlimited, viewFrom]
  exact congrArg (Outcome.mk 0 · []) (List.append_nil _)

theorem deliver_ofError (unlimited : output.room = none) (error : ProgramError) :
    ((Transcript.ofError error).deliver coloured output).exit ≠ 0 := by
  rw [Transcript.deliver_of_unlimited unlimited]
  simp only [Outcome.after, Transcript.ofError, Transcript.report]
  split <;> exact Nat.one_ne_zero

end Runs

namespace Interactive

section Numbers

variable {files : Surroundings} {options : Options} {trace : Trace} {cursor : Cursor}
  {session : Session} {before after : List String} {output : Output} {line text : String}
  (terminal noColor : Option String) (input : Bytes)

/-- The next step that is counted is there just if the total is not reached. -/
theorem agree_on_step (has : files.HasTrace options.input trace) (awaits : options.AwaitsChoice)
    (splits : CommandLine.Splits before after options) (unlimited : output.room = none)
    (shown : session.cursor = some cursor) (same : cursor.trace = trace) {n : Nat}
    (typed : Command.Typed ["s", "step"] (n + 1) line) (spells : Text.Spells text (n + 1)) :
    Agree options.settings files session (options.color.colours terminal noColor) line
      (execute (before ++ "--step" :: text :: after) terminal noColor files input output)
      (n + 1 ≤ trace.totalEvaluationCount) := by
  rcases Nat.lt_or_ge (n + 1) Text.wordLimit with small | large
  · have parsed := Command.parse_step typed small
    have arguments := splits.parse_step awaits.unchosen spells (Nat.succ_pos n) small
    have jumps : (Cursor.start trace).jumpToStep n = cursor.jumpToStep n :=
      Cursor.jumpToStep_congr ((Cursor.start_trace trace).trans same.symm) n
    rw [execute, arguments]
    dsimp only
    rw [run_chosen_step has awaits, Nat.add_sub_cancel, jumps]
    cases jump : cursor.jumpToStep n with
    | ok moved =>
        have there := Cursor.exists_jumpToStep_iff.mp ⟨moved, jump⟩
        exact .of_there (leadsTo_of_ok parsed shown rfl jump) (deliver_view unlimited _ _) (same ▸ there)
    | error error =>
        refine .of_missing (refuses_of_error parsed shown rfl jump) (deliver_ofError unlimited _) ?_
        intro there
        obtain ⟨moved, found⟩ := Cursor.exists_jumpToStep_iff.mpr (same ▸ there)
        cases jump.symm.trans found
  · obtain ⟨_, parsed⟩ := Command.parse_typed_large (Command.request?_of_mem (.number .stepNumber)) typed large
    rw [execute, splits.parse_step_large spells large]
    refine .of_missing (refuses_malformed parsed) (Nat.succ_ne_zero 1) fun there => ?_
    exact Nat.not_lt.mpr large (Nat.lt_of_le_of_lt there has.counts_lt.1)

/-- A method is there just if its number is below their count. -/
theorem agree_on_method (has : files.HasTrace options.input trace) (awaits : options.AwaitsChoice)
    (splits : CommandLine.Splits before after options) (unlimited : output.room = none)
    (shown : session.cursor = some cursor) (same : cursor.trace = trace) {i : Nat}
    (typed : Command.Typed ["m", "method"] i line) (spells : Text.Spells text i) :
    Agree options.settings files session (options.color.colours terminal noColor) line
      (execute (before ++ "--method" :: text :: after) terminal noColor files input output)
      (i < trace.methodCount) := by
  have arguments := splits.parse_method awaits.unchosen (CommandLine.argument_of_spells spells)
  rw [execute, arguments]
  dsimp only
  rcases Nat.lt_or_ge i Text.wordLimit with small | large
  · have parsed := Command.parse_method typed small
    have selects := trace.selectMethod_of_spells spells small
    cases jump : cursor.jumpToMethod i with
    | ok moved =>
        have there := same ▸ Cursor.exists_jumpToMethod_iff.mp ⟨moved, jump⟩
        have chosen : trace.chosenMethod text = .ok i := by
          rw [Trace.chosenMethod_eq, selects, if_pos there]
          rfl
        have jumps : (Cursor.start trace).jumpToMethod i = .ok moved :=
          (Cursor.jumpToMethod_congr ((Cursor.start_trace trace).trans same.symm) i).trans jump
        rw [run_chosen_method has awaits chosen, jumps]
        exact .of_there (leadsTo_of_ok parsed shown rfl jump) (deliver_view unlimited _ _) there
    | error error =>
        have missing : ¬i < trace.methodCount := by
          intro there
          obtain ⟨moved, found⟩ := Cursor.exists_jumpToMethod_iff.mpr (same ▸ there)
          cases jump.symm.trans found
        have chosen : trace.chosenMethod text = .error (.unknownMethod text) := by
          rw [Trace.chosenMethod_eq, selects, if_neg missing]
          rfl
        rw [run_unknown_method has awaits chosen]
        exact .of_missing (refuses_of_error parsed shown rfl jump) (deliver_ofError unlimited _) missing
  · obtain ⟨_, parsed⟩ := Command.parse_typed_large (Command.request?_of_mem (.number .methodIndex)) typed large
    have missing : ¬i < trace.methodCount := fun there =>
      Nat.not_lt.mpr large (Nat.lt_trans there has.counts_lt.2)
    have chosen : trace.chosenMethod text = .error (.unknownMethod text) := by
      rw [Trace.chosenMethod_eq, trace.selectMethod_of_large spells large]
      rfl
    rw [run_unknown_method has awaits chosen]
    exact .of_missing (refuses_malformed parsed) (deliver_ofError unlimited _) missing

theorem jumpToStep_of_leadsTo {settings : RenderSettings} {moved : Cursor} {n : Nat}
    (parsed : Command.parse line = .ok (some (.move (.step n)))) (shown : session.cursor = some cursor)
    (leads : LeadsTo settings files session line moved) : cursor.jumpToStep n = .ok moved := by
  cases jump : cursor.jumpToStep n with
  | ok landing => rw [(leadsTo_of_ok parsed shown rfl jump).unique leads]
  | error error => exact absurd leads (refuses_of_error parsed shown rfl jump).not_leadsTo

/-- The step that a line leads to is counted by the number that was typed. -/
theorem counts_of_leadsTo (has : files.HasTrace options.input trace)
    (shown : session.cursor = some cursor) (same : cursor.trace = trace) {settings : RenderSettings}
    {moved : Cursor} {n : Nat} (inRange : n + 1 ≤ trace.totalEvaluationCount)
    (typed : Command.Typed ["s", "step"] (n + 1) line)
    (leads : LeadsTo settings files session line moved) :
    Counts (moved.view settings) (n + 1) trace.totalEvaluationCount := by
  have small := Nat.lt_of_le_of_lt inRange has.counts_lt.1
  have jump := jumpToStep_of_leadsTo (Command.parse_step typed small) shown leads
  obtain ⟨position, named, rfl, rfl⟩ := Cursor.jumpToStep_eq_ok_iff.mp jump
  subst same
  exact Cursor.counts_of_stepIndex? (Cursor.stepIndex?_of_top rfl (Cursor.isOnStep_atTop named))

/-- What is counted in a header is the number of the step. -/
theorem leadsTo_of_counts (has : files.HasTrace options.input trace)
    (shown : session.cursor = some cursor) (same : cursor.trace = trace) {target : Cursor}
    (same' : target.trace = trace) (top : target.owners = []) (onStep : target.isOnStep = true)
    {settings : RenderSettings} {k all : Nat} (counts : Counts (target.view settings) k all) :
    all = trace.totalEvaluationCount ∧ ∀ line, Command.Typed ["s", "step"] k line →
      LeadsTo settings files session line target := by
  have named := Cursor.position_mem_addressable top onStep
  have numbered := Cursor.stepIndex?_of_top top onStep
  obtain ⟨rfl, rfl⟩ := counts.unique (Cursor.counts_of_stepIndex? numbered)
  have inRange := target.trace.stepNumber_bijOn.mapsTo named
  have jump : cursor.jumpToStep (target.trace.stepNumber target.position) = .ok target := by
    rw [Cursor.jumpToStep_congr (same.trans same'.symm), Cursor.jumpToStep_stepNumber named,
      Cursor.atTop_position top]
  subst same'
  have small := Nat.lt_of_le_of_lt (Set.mem_Iio.mp inRange) has.counts_lt.1
  exact ⟨rfl, fun line typed => leadsTo_of_ok (Command.parse_step typed small) shown rfl jump⟩

end Numbers

/-- For a trace file and a session that looks at its trace from anywhere, a number leads the prompt and the
option `--step` to the same view, or else neither; the header of that view has the number. A number in the
header of a view leads back to where it was printed. The numbers of methods are those below their count, at
the prompt and for the option `--method`. -/
theorem numbers_agree {files : Surroundings} {options : Options} {trace : Trace} {cursor : Cursor}
    {session : Session} {before after : List String} {output : Output}
    (has : files.HasTrace options.input trace) (awaits : options.AwaitsChoice)
    (splits : CommandLine.Splits before after options) (unlimited : output.room = none)
    (shown : session.cursor = some cursor) (reachable : Reachable trace cursor)
    (terminal noColor : Option String) (input : Bytes) :
    let settings := options.settings
    let coloured := options.color.colours terminal noColor
    let run (option text : String) :=
      execute (before ++ option :: text :: after) terminal noColor files input output
    (∀ k line text, 0 < k → Command.Typed ["s", "step"] k line → Text.Spells text k →
      Agree settings files session coloured line (run "--step" text)
          (k ≤ trace.totalEvaluationCount) ∧
        ∀ moved, LeadsTo settings files session line moved →
          Counts (moved.view settings) k trace.totalEvaluationCount) ∧
      (∀ target, Reachable trace target → target.depth = 0 → target.isOnStep = true →
        (∃ k, Counts (target.view settings) k trace.totalEvaluationCount) ∧
          ∀ k all, Counts (target.view settings) k all → all = trace.totalEvaluationCount ∧
            ∀ line, Command.Typed ["s", "step"] k line →
              LeadsTo settings files session line target) ∧
      ∀ i line text, Command.Typed ["m", "method"] i line → Text.Spells text i →
        Agree settings files session coloured line (run "--method" text)
          (i < trace.methodCount) := by
  intro settings coloured run
  have same := reachable.wellPlaced.trace_eq
  refine ⟨?steps, ?counted, ?methods⟩
  case steps =>
    rintro (_ | n) line text positive typed spells
    · cases positive
    have agree := agree_on_step terminal noColor input has awaits splits unlimited shown same typed spells
    refine ⟨agree, fun moved leads => ?_⟩
    have inRange := agree.line_succeeds.mp ⟨moved, leads⟩
    exact counts_of_leadsTo has shown same inRange typed leads
  case counted =>
    intro target reached top onStep
    have same' := reached.wellPlaced.trace_eq
    have top : target.owners = [] := List.length_eq_zero_iff.mp top
    have numbered := Cursor.stepIndex?_of_top top onStep
    refine ⟨⟨_, same' ▸ Cursor.counts_of_stepIndex? numbered⟩, fun k all counts => ?_⟩
    exact leadsTo_of_counts has shown same same' top onStep counts
  case methods =>
    intro i line text typed spells
    exact agree_on_method terminal noColor input has awaits splits unlimited shown same typed spells

/-- From a subroutine: the second of three steps, the number after the last one, and a method that is not
there. -/
theorem numbers_agree_calling :
    let document := Utf8.encode (callingTrace.encode .compact)
    let files : Surroundings := ⟨fun _ => .ok document, fun _ => none⟩
    let options : Options := ⟨"t.json", none, none, none, .auto, false, false, true, false⟩
    let cursor : Cursor := ⟨callingTrace, 1, ⟨1, 0⟩, [⟨1, 0⟩]⟩
    let session : Session := { Session.new with cursor := some cursor }
    let run (option text : String) :=
      execute ["t.json", option, text, "--no-worklist"] none none files [] ⟨none, "no room"⟩
    Reachable callingTrace cursor ∧ callingTrace.totalEvaluationCount = 3 ∧
      (∃ moved, LeadsTo options.settings files session " step  +2" moved ∧
        run "--step" "02" = ⟨0, Piece.bytes false (moved.view options.settings), []⟩ ∧
        Counts (moved.view options.settings) 2 3) ∧
      Refuses options.settings files session "s 4" ∧ (run "--step" "4").exit ≠ 0 ∧
      LeadsTo options.settings files session "s 1" (Cursor.start callingTrace) ∧
      Refuses options.settings files session "m 3" ∧ (run "--method" "3").exit ≠ 0 := by
  intro document files options cursor session run
  have reachable : Reachable callingTrace cursor := .perform (.block 7) (.perform .enter .start)
  have loaded : Trace.load document = .ok callingTrace := by
    rw [Trace.load_encode_eq_checked]
    exact Trace.checked_eq_ok_iff.mpr ⟨rfl, rfl⟩
  have short : document.length < Text.wordLimit := by
    dsimp only [document]
    rw [Trace.encode, Utf8.encode_ofList]
    decide +kernel
  have has : files.HasTrace options.input callingTrace := ⟨rfl, document, rfl, loaded, short⟩
  have awaits : options.AwaitsChoice := ⟨⟨rfl, rfl⟩, rfl, rfl⟩
  have splits : CommandLine.Splits ["t.json"] ["--no-worklist"] options :=
    ⟨⟨{ CommandLine.Given.nothing with input := some "t.json" }, fun _ => rfl⟩, rfl⟩
  have spells {text : String} {n : Nat} (reads : Text.number? text = some n) : Text.Spells text n :=
    (Text.number?_eq_some_iff.mp reads).1
  have shown : session.cursor = some cursor := rfl
  obtain ⟨steps, counted, methods⟩ :=
    @numbers_agree _ _ _ _ _ _ _ ⟨none, "no room"⟩ has awaits splits rfl shown reachable none none []
  obtain ⟨second, counts⟩ := steps 2 " step  +2" "02" (by decide)
    ⟨"step", by decide, "+2", by decide, spells (by decide)⟩ (spells (by decide))
  have typed (n : Nat) : Command.Typed ["s", "step"] n ("s" ++ " " ++ toString n) :=
    Command.typed_toString (by decide) (by simp [Text.IsWord, Text.isBlank]) n
  have typed' (n : Nat) : Command.Typed ["m", "method"] n ("m" ++ " " ++ toString n) :=
    Command.typed_toString (by decide) (by simp [Text.IsWord, Text.isBlank]) n
  obtain ⟨fourth, _⟩ := steps 4 "s 4" "4" (by decide) (typed 4) (Text.spells_toString 4)
  have third := methods 3 "m 3" "3" (typed' 3) (Text.spells_toString 3)
  obtain ⟨moved, leads⟩ := second.line_succeeds.mpr (by decide)
  have missing : ¬4 ≤ callingTrace.totalEvaluationCount := by decide
  have missing' : ¬3 < callingTrace.methodCount := by decide
  refine ⟨reachable, rfl, ⟨moved, leads, second.same_view moved leads, counts moved leads⟩,
    fourth.refuses missing, fun exits => missing (fourth.run_succeeds.mp exits), ?first,
    third.refuses missing', fun exits => missing' (third.run_succeeds.mp exits)⟩
  obtain ⟨_, back⟩ := counted (Cursor.start callingTrace) .start rfl rfl
  have first : Counts ((Cursor.start callingTrace).view options.settings) 1 3 :=
    Cursor.counts_of_stepIndex? rfl
  exact (back 1 3 first).2 "s 1" (typed 1)

end Interactive

end TraceReplay
