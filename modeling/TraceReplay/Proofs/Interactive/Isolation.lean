import TraceReplay.Program
import TraceReplay.Proofs.Cursor.Refusal
import TraceReplay.Proofs.Interactive.Language
import TraceReplay.Proofs.Session.Interference

/-!
Lines that come to nothing in the interactive loop: blank ones, those that are no command or ask for help, moves
that lead nowhere and loads that fail. Each is answered, and from then on all goes as if it had not been typed,
because the loop reads nothing of a session but its cursor.
-/
namespace TraceReplay

def Outcome.after (printed : Bytes) (outcome : Outcome) : Outcome :=
  { outcome with stdout := printed ++ outcome.stdout }

theorem Outcome.after_append (outcome : Outcome) (first second : Bytes) :
    outcome.after (first ++ second) = (outcome.after second).after first := by
  rw [after, List.append_assoc]
  rfl

theorem Piece.bytes_append (coloured : Bool) (first second : List Piece) :
    bytes coloured (first ++ second) = bytes coloured first ++ bytes coloured second :=
  List.flatMap_append

namespace Transcript

theorem report_eq (coloured : Bool) (output : Output) (printed : Bytes)
    (error : Option ProgramError) :
    report coloured output printed error = (report coloured output [] error).after printed := by
  cases error with
  | none => exact congrArg (Outcome.mk 0 · []) (List.append_nil printed).symm
  | some error =>
      rw [report, report]
      split <;> rfl

/-- An output that accepts everything gets all that is printed, and then the error. -/
theorem deliver_of_unlimited {output : Output} (unlimited : output.room = none)
    (transcript : Transcript) (coloured : Bool) :
    transcript.deliver coloured output =
      (report coloured output [] transcript.error).after
        (Piece.bytes coloured transcript.printed) := by
  obtain ⟨_, refusal⟩ := output
  cases unlimited
  exact report_eq coloured _ _ transcript.error

end Transcript

end TraceReplay

namespace TraceReplay.Interactive

open Session (Call)
open Transcript (deliver_of_unlimited)

section Answers

variable {settings : RenderSettings} {files : Surroundings} {session : Session} {line : String}

theorem respond_malformed {error : CommandError} (parsed : Command.parse line = .error error) :
    respond settings files.read session line = some (session, Piece.errorLine error.message) := by
  rw [respond, parsed]

theorem respond_nothing (parsed : Command.parse line = .ok none) :
    respond settings files.read session line = some (session, []) := by
  rw [respond, parsed]

theorem respond_quit (parsed : Command.parse line = .ok (some .quit)) :
    respond settings files.read session line = none := by
  rw [respond, parsed]

theorem respond_help (parsed : Command.parse line = .ok (some .help)) :
    respond settings files.read session line = some (session, [.plain Command.helpText]) := by
  rw [respond, parsed]

theorem respond_move_of_none {move : Move} (parsed : Command.parse line = .ok (some (.move move)))
    (shown : session.cursor = none) :
    respond settings files.read session line = some (session, noTrace) := by
  simp only [respond, parsed, Session.perform, shown]

theorem respond_move_of_some {move : Move} {cursor : Cursor}
    (parsed : Command.parse line = .ok (some (.move move))) (shown : session.cursor = some cursor) :
    respond settings files.read session line =
      some ({ session with cursor := some (cursor.perform move).1 },
        comment (cursor.perform move).2 ++ (cursor.perform move).1.view settings) := by
  simp only [respond, parsed, Session.perform, shown, display]

def loadReport (path : String) : Except LoadError Trace → List Piece
  | .ok _ => []
  | .error error => Piece.errorLine (path ++ " - " ++ error.message)

theorem result?_loadFile (files : Surroundings) (path : String) :
    (Call.loadFile path (files.read path)).result? = some (files.load path) := by
  rw [Surroundings.load]
  cases files.read path <;> rfl

theorem loadFile_eq (files : Surroundings) (session : Session) (path : String) :
    loadFile files.read session path =
      (session.begin.1.applied (files.load path), loadReport path (files.load path)) := by
  obtain ⟨applies, outcome⟩ := Session.answer_of_load (result?_loadFile files path) nofun session
  have applies : (session.loadFile path (files.read path)).1 =
    session.begin.1.applied (files.load path) := applies
  have outcome : (session.loadFile path (files.read path)).2.1 =
    Session.outcomeOf (files.load path) := Session.Returned.outcome.inj outcome
  rw [loadFile]
  generalize session.loadFile path (files.read path) = loaded at applies outcome
  obtain ⟨after, ended, events⟩ := loaded
  subst applies outcome
  cases files.load path <;> rfl

theorem respond_load {path : String} (parsed : Command.parse line = .ok (some (.load path))) :
    respond settings files.read session line = some (session.begin.1.applied (files.load path),
      loadReport path (files.load path) ++
        display settings (session.begin.1.applied (files.load path))) := by
  simp only [respond, parsed, loadFile_eq]

theorem respond_eq_none_iff :
    respond settings files.read session line = none ↔
      Command.parse line = .ok (some .quit) := by
  refine ⟨fun ends => ?_, respond_quit⟩
  rcases parsed : Command.parse line with error | _ | move | path | _ | _
  case ok.some.quit => rfl
  case error => exact nomatch (respond_malformed parsed).symm.trans ends
  case ok.none => exact nomatch (respond_nothing parsed).symm.trans ends
  case ok.some.help => exact nomatch (respond_help parsed).symm.trans ends
  case ok.some.load => exact nomatch (respond_load parsed).symm.trans ends
  case ok.some.move =>
      cases shown : session.cursor with
      | none => exact nomatch (respond_move_of_none parsed shown).symm.trans ends
      | some cursor => exact nomatch (respond_move_of_some parsed shown).symm.trans ends

end Answers

section Running

variable {settings : RenderSettings} {files : Surroundings} {session : Session} {line : String}

/-- Until a line ends the loop, the lines after some others are answered where those have led to. -/
theorem converse_append {before : List String}
    (running : ∀ earlier ∈ before, Command.parse earlier ≠ .ok (some .quit))
    (after : List String) :
    converse settings files.read session (before ++ after) =
      let here := converse settings files.read session before
      let rest := converse settings files.read here.session after
      ⟨rest.session, here.printed ++ rest.printed, rest.ended⟩ := by
  induction before generalizing session with
  | nil => rfl
  | cons line before ih =>
      obtain ⟨first, others⟩ := List.forall_mem_cons.mp running
      rw [List.cons_append, converse, converse]
      cases responds : respond settings files.read session line with
      | none => exact absurd (respond_eq_none_iff.mp responds) first
      | some answered => simp only [ih others, List.append_assoc]

/-- After a line that ends the loop no other is read. -/
theorem converse_quit (settings : RenderSettings) (files : Surroundings) (session : Session)
    (before after : List String) (quits : Command.parse line = .ok (some .quit)) :
    converse settings files.read session (before ++ line :: after) =
        converse settings files.read session (before ++ [line]) ∧
      (converse settings files.read session (before ++ [line])).ended = true := by
  induction before generalizing session with
  | nil =>
      rw [List.nil_append, List.nil_append, converse, converse, respond_quit quits]
      exact ⟨rfl, rfl⟩
  | cons first before ih =>
      rw [List.cons_append, List.cons_append, converse, converse]
      cases respond settings files.read session first with
      | none => exact ⟨rfl, rfl⟩
      | some answered =>
          obtain ⟨same, ends⟩ := ih answered.1
          exact ⟨congrArg (fun rest => { rest with printed := answered.2 ++ rest.printed }) same, ends⟩

end Running

section Cursors

variable {settings : RenderSettings} {files : Surroundings} {session other : Session}

theorem display_eq (same : other.cursor = session.cursor) :
    display settings other = display settings session := by
  rw [display, display, same]

theorem cursor_applied (same : other.cursor = session.cursor) (result : Except LoadError Trace) :
    (other.begin.1.applied result).cursor = (session.begin.1.applied result).cursor := by
  cases result with
  | ok trace => rfl
  | error error => exact same

/-- Sessions with one cursor are answered alike and have one cursor afterwards. -/
theorem respond_eq (same : other.cursor = session.cursor) (line : String) :
    (respond settings files.read other line).map (fun answered => (answered.1.cursor, answered.2)) =
      (respond settings files.read session line).map fun answered =>
        (answered.1.cursor, answered.2) := by
  rcases parsed : Command.parse line with error | _ | move | path | _ | _
  case error => rw [respond_malformed parsed, respond_malformed parsed, Option.map, Option.map, same]
  case ok.none => rw [respond_nothing parsed, respond_nothing parsed, Option.map, Option.map, same]
  case ok.some.help => rw [respond_help parsed, respond_help parsed, Option.map, Option.map, same]
  case ok.some.quit => rw [respond_quit parsed, respond_quit parsed]
  case ok.some.load =>
      have same := cursor_applied same (files.load path)
      rw [respond_load parsed, respond_load parsed, Option.map, Option.map, same, display_eq same]
  case ok.some.move =>
      cases shown : session.cursor with
      | none =>
          have shown' := same.trans shown
          rw [respond_move_of_none parsed shown, respond_move_of_none parsed shown', Option.map,
            Option.map, same]
      | some cursor =>
          have shown' := same.trans shown
          rw [respond_move_of_some parsed shown, respond_move_of_some parsed shown', Option.map,
            Option.map]

/-- What follows depends on the cursor alone. -/
theorem converse_eq (same : other.cursor = session.cursor) (lines : List String) :
    (converse settings files.read other lines).printed =
        (converse settings files.read session lines).printed ∧
      (converse settings files.read other lines).session.cursor =
        (converse settings files.read session lines).session.cursor ∧
      (converse settings files.read other lines).ended =
        (converse settings files.read session lines).ended := by
  induction lines generalizing session other with
  | nil => exact ⟨rfl, same, rfl⟩
  | cons line lines ih =>
      have answers := @respond_eq settings files _ _ same line
      rw [converse, converse]
      cases responds : respond settings files.read session line with
      | none =>
          rw [responds, Option.map_none, Option.map_eq_none_iff] at answers
          rw [answers]
          exact ⟨rfl, same, rfl⟩
      | some answered =>
          rw [responds, Option.map_some] at answers
          obtain ⟨answered', responds', agree⟩ := Option.map_eq_some_iff.mp answers
          obtain ⟨cursors, printed⟩ := Prod.mk.inj agree
          obtain ⟨rest, ends⟩ := ih cursors
          rw [responds']
          exact ⟨congrArg₂ _ printed rest, ends⟩

end Cursors

/-- A line that comes to nothing in a session, with what is printed for it: nothing, a message, or the display
once more, after the error where there is one. -/
inductive Fruitless (settings : RenderSettings) (files : Surroundings) (session : Session)
    (line : String) : List Piece → Prop
  | blank : (∀ c ∈ line.toList, Text.isBlank c = true) → Fruitless settings files session line []
  | malformed {error : CommandError} :
      Command.parse line = .error error →
      Fruitless settings files session line (Piece.errorLine error.message)
  | help :
      Command.parse line = .ok (some .help) →
      Fruitless settings files session line [.plain Command.helpText]
  | nothingLoaded {move : Move} :
      Command.parse line = .ok (some (.move move)) → session.cursor = none →
      Fruitless settings files session line noTrace
  | refused {move : Move} {cursor : Cursor} {error : NavigationError} :
      Command.parse line = .ok (some (.move move)) → session.cursor = some cursor →
      (cursor.perform move).2 = .refused error →
      Fruitless settings files session line
        (Piece.errorLine error.message ++ display settings session)
  | noFurtherStep {move : Move} {cursor : Cursor} :
      Command.parse line = .ok (some (.move move)) → session.cursor = some cursor →
      (cursor.perform move).2 = .stepped false →
      Fruitless settings files session line
        (Piece.errorLine "can't step any further" ++ display settings session)
  | unmoved {move : Move} {cursor : Cursor} :
      Command.parse line = .ok (some (.move move)) → session.cursor = some cursor →
      (cursor.perform move).2.succeeded = true → (cursor.perform move).1 = cursor →
      Fruitless settings files session line (display settings session)
  | failedLoad {path : String} {error : LoadError} :
      Command.parse line = .ok (some (.load path)) → files.load path = .error error →
      Fruitless settings files session line
        (Piece.errorLine (path ++ " - " ++ error.message) ++ display settings session)

section Fruitless

variable {settings : RenderSettings} {files : Surroundings} {session : Session} {line : String}
  {added : List Piece}

theorem comment_of_succeeded {reply : Reply} (succeeded : reply.succeeded = true) :
    comment reply = [] := by
  cases reply with
  | stepped moved =>
      cases succeeded
      rfl
  | done => rfl
  | refused => cases succeeded

/-- A move that leads nowhere is answered with what it says and the display as it was. -/
theorem respond_unmoved {move : Move} {cursor : Cursor} {said : List Piece}
    (parsed : Command.parse line = .ok (some (.move move))) (shown : session.cursor = some cursor)
    (stays : (cursor.perform move).1 = cursor) (answer : comment (cursor.perform move).2 = said) :
    respond settings files.read session line = some (session, said ++ display settings session) := by
  obtain ⟨_, lastError, latest⟩ := session
  cases shown
  rw [respond_move_of_some parsed rfl, stays, answer, display]

/-- The answer to a line that comes to nothing leaves the cursor as it is. -/
theorem Fruitless.responds (fruitless : Fruitless settings files session line added) :
    ∃ after, respond settings files.read session line = some (after, added) ∧
      after.cursor = session.cursor := by
  cases fruitless with
  | blank blank => exact ⟨session, respond_nothing (Command.parse_eq_ok_none_iff.mpr blank), rfl⟩
  | malformed parsed => exact ⟨session, respond_malformed parsed, rfl⟩
  | help parsed => exact ⟨session, respond_help parsed, rfl⟩
  | nothingLoaded parsed shown => exact ⟨session, respond_move_of_none parsed shown, rfl⟩
  | refused parsed shown refused =>
      have stays := Cursor.perform_of_failed (congrArg Reply.succeeded refused)
      exact ⟨session, respond_unmoved parsed shown stays (congrArg comment refused), rfl⟩
  | noFurtherStep parsed shown ends =>
      have stays := Cursor.perform_of_failed (congrArg Reply.succeeded ends)
      exact ⟨session, respond_unmoved parsed shown stays (congrArg comment ends), rfl⟩
  | unmoved parsed shown succeeded stays =>
      have silent := comment_of_succeeded succeeded
      exact ⟨session, respond_unmoved parsed shown stays silent, rfl⟩
  | @failedLoad path error parsed fails =>
      refine ⟨session.begin.1.applied (.error error), ?_, rfl⟩
      rw [respond_load parsed, fails]
      rfl

end Fruitless

/-- What a run of the loop prints, and the error that ends it. It is `broken` if behind its lines there is one
that is no text. -/
def transcript (settings : RenderSettings) (files : Surroundings) (session : Session)
    (lines : List String) (broken : Bool) : Transcript :=
  let conversation := converse settings files.read session lines
  ⟨display settings session ++ conversation.printed,
    if broken ∧ ¬conversation.ended then
      some (.io "stream did not contain valid UTF-8")
    else none⟩

theorem runInteractive_eq {options : Options} {files : Surroundings} {session : Session}
    {report : List Piece} (opened : options.openSession files.read = (session, report, none))
    (input : Bytes) :
    let heard := Text.readableLines (Text.lines input)
    options.runInteractive files input =
      (transcript options.settings files session heard.1 heard.2).after report := by
  simp only [Options.runInteractive, opened, transcript, Transcript.after, List.append_assoc]

/-- The program leaves behind what the loop does, with the report of its first load before. -/
theorem deliver_runInteractive {options : Options} {files : Surroundings} {session : Session}
    {report : List Piece} (opened : options.openSession files.read = (session, report, none))
    (coloured : Bool) {output : Output} (unlimited : output.room = none) (input : Bytes) :
    let heard := Text.readableLines (Text.lines input)
    (options.runInteractive files input).deliver coloured output =
      ((transcript options.settings files session heard.1 heard.2).deliver coloured output).after
        (Piece.bytes coloured report) := by
  intro heard
  rw [runInteractive_eq opened, deliver_of_unlimited unlimited, deliver_of_unlimited unlimited,
    ← Outcome.after_append, ← Piece.bytes_append]
  rfl

/-- A line between others adds its part to what an output gets and has no other effect. -/
structure AddsOnly (settings : RenderSettings) (files : Surroundings) (session : Session)
    (before : List String) (line : String) (after : List String) (added : List Piece) : Prop where
  output : ∀ coloured output, output.room = none → ∀ broken, ∃ rest : Outcome,
    let shown := Piece.bytes coloured (transcript settings files session before false).printed
    (transcript settings files session (before ++ after) broken).deliver coloured output =
        rest.after shown ∧
      (transcript settings files session (before ++ line :: after) broken).deliver coloured output =
        rest.after (shown ++ Piece.bytes coloured added)
  cursor : (converse settings files.read session (before ++ line :: after)).session.cursor =
    (converse settings files.read session (before ++ after)).session.cursor
  ended : (converse settings files.read session (before ++ line :: after)).ended =
    (converse settings files.read session (before ++ after)).ended

section Isolation

variable {settings : RenderSettings} {files : Surroundings} {session : Session} {line : String}
  {before : List String} {added : List Piece}

/-- The lines after one that comes to nothing are answered as they would be without it. -/
theorem Fruitless.converse_cons (fruitless : Fruitless settings files session line added)
    (after : List String) :
    (converse settings files.read session (line :: after)).printed =
        added ++ (converse settings files.read session after).printed ∧
      (converse settings files.read session (line :: after)).session.cursor =
        (converse settings files.read session after).session.cursor ∧
      (converse settings files.read session (line :: after)).ended =
        (converse settings files.read session after).ended := by
  obtain ⟨left, responds, same⟩ := fruitless.responds
  obtain ⟨printed, rest⟩ := @converse_eq settings files _ _ same after
  rw [converse, responds]
  exact ⟨congrArg (added ++ ·) printed, rest⟩

theorem printed_append (running : ∀ earlier ∈ before, Command.parse earlier ≠ .ok (some .quit))
    (lines : List String) (broken : Bool) :
    (transcript settings files session (before ++ lines) broken).printed =
      (transcript settings files session before false).printed ++
        (converse settings files.read (converse settings files.read session before).session
          lines).printed := by
  rw [transcript, transcript, converse_append running, List.append_assoc]

theorem Fruitless.addsOnly
    (running : ∀ earlier ∈ before, Command.parse earlier ≠ .ok (some .quit))
    (fruitless :
      Fruitless settings files (converse settings files.read session before).session line added)
    (after : List String) : AddsOnly settings files session before line after added := by
  obtain ⟨printed, cursor, ended⟩ := fruitless.converse_cons after
  have ended : (converse settings files.read session (before ++ line :: after)).ended =
      (converse settings files.read session (before ++ after)).ended := by
    rw [converse_append running, converse_append running]
    exact ended
  refine ⟨fun coloured output unlimited broken => ?_, ?_, ended⟩
  · have error : (transcript settings files session (before ++ line :: after) broken).error =
        (transcript settings files session (before ++ after) broken).error := by
      rw [transcript, transcript, ended]
    have follows (lines : List String) := deliver_of_unlimited unlimited
      (transcript settings files session (before ++ lines) broken) coloured
    simp only [printed_append running, Piece.bytes_append, Outcome.after_append] at follows
    refine ⟨_, follows after, ?_⟩
    rw [follows (line :: after), printed, error, Piece.bytes_append, Outcome.after_append,
      Outcome.after_append]
  · rw [converse_append running, converse_append running]
    exact cursor

end Isolation

/-- Up to the line that ends the loop, a line that comes to nothing adds its own part to the output, and all the
rest of the output and the cursor at the end are as they would be without it. What comes after the line that ends
the loop has no effect. The program leaves behind what the loop on the session that it opens does. -/
theorem fruitless_lines_are_isolated {settings : RenderSettings} {files : Surroundings}
    {session : Session} {before : List String}
    (running : ∀ earlier ∈ before, Command.parse earlier ≠ .ok (some .quit)) :
    (∀ line added,
      Fruitless settings files (converse settings files.read session before).session line added →
        ∀ after, AddsOnly settings files session before line after added) ∧
      (∀ last, Command.parse last = .ok (some .quit) → ∀ after broken,
        converse settings files.read session (before ++ last :: after) =
            converse settings files.read session (before ++ [last]) ∧
          transcript settings files session (before ++ last :: after) broken =
            transcript settings files session (before ++ [last]) false) ∧
      ∀ (options : Options) (report : List Piece), options.settings = settings →
        options.openSession files.read = (session, report, none) →
          ∀ coloured output, output.room = none → ∀ input,
            let heard := Text.readableLines (Text.lines input)
            (options.runInteractive files input).deliver coloured output =
              ((transcript settings files session heard.1 heard.2).deliver coloured output).after
                (Piece.bytes coloured report) := by
  refine ⟨fun line added fruitless after => fruitless.addsOnly running after,
    fun last quits after broken => ?_, ?_⟩
  case refine_2 =>
      rintro options report rfl opened coloured output unlimited input
      exact deliver_runInteractive opened coloured unlimited input
  obtain ⟨same, ended⟩ := converse_quit settings files session before after quits
  refine ⟨same, ?_⟩
  rw [transcript, transcript, same, ended]
  simp

/-- In a subroutine, a load that fails and a jump to a block that is not there. Beside it, the program on a file that is
not there. -/
theorem fruitless_lines_are_isolated_in_subroutine :
    let settings := RenderSettings.defaults
    let files : Surroundings := ⟨fun _ => .error "no such file", fun _ => none⟩
    let session : Session := { Session.new with cursor := some (Cursor.start callingTrace) }
    let before := ["m 1", "", "enter"]
    let here := (converse settings files.read session before).session
    let options : Options := ⟨"gone.json", none, none, none, .auto, false, true, false, false⟩
    let opened := options.openSession files.read
    here.cursor = some ⟨callingTrace, 1, ⟨1, 0⟩, [⟨1, 0⟩]⟩ ∧
      (∀ earlier ∈ before, Command.parse earlier ≠ .ok (some .quit)) ∧
      AddsOnly settings files session before "load gone.json" ["leave", "q", "n"]
        (Piece.errorLine ("gone.json" ++ " - " ++ (LoadError.unreadable "no such file").message) ++
          display settings here) ∧
      AddsOnly settings files session before " b 2 " ["leave", "q", "n"]
        (Piece.errorLine (NavigationError.outOfRange 2 2).message ++ display settings here) ∧
      converse settings files.read session (before ++ "quit" :: ["leave"]) =
        converse settings files.read session (before ++ ["quit"]) ∧
      (options.runInteractive files (Utf8.encode "b 2\nq\n")).deliver true ⟨none, ""⟩ =
        ((transcript settings files opened.1 ["b 2", "q"] false).deliver true ⟨none, ""⟩).after
          (Piece.bytes true opened.2.1) := by
  intro settings files session before here options opened
  have running : ∀ earlier ∈ before, Command.parse earlier ≠ .ok (some .quit) := by decide
  have inside : here.cursor = some ⟨callingTrace, 1, ⟨1, 0⟩, [⟨1, 0⟩]⟩ := rfl
  have load : Command.parse "load gone.json" = .ok (some (.load "gone.json")) := rfl
  have jump : Command.parse " b 2 " = .ok (some (.move (.block 2))) := rfl
  obtain ⟨adds, quits, _⟩ := @fruitless_lines_are_isolated settings files session before running
  obtain ⟨_, _, program⟩ := @fruitless_lines_are_isolated settings files opened.1 [] (fun _ mem => nomatch mem)
  refine ⟨inside, running, adds _ _ (.failedLoad load rfl) _, adds _ _ (.refused jump inside rfl) _,
    (quits "quit" rfl ["leave"] false).1, ?_⟩
  exact program options opened.2.1 rfl rfl true ⟨none, ""⟩ rfl (Utf8.encode "b 2\nq\n")

end TraceReplay.Interactive
