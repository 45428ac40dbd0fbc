import TraceReplay.Proofs.Cursor.Placement
import TraceReplay.Proofs.Cursor.Walk
import TraceReplay.Proofs.Render.Line
import TraceReplay.Proofs.Render.Writing
import TraceReplay.Proofs.Trace.Statistics
import TraceReplay.Render.Display

/-!
A dump walks through the visits of a method. Between two lines it goes into a sub-trace, or one step on and
out of the sub-traces that end there; in both cases what it has left to print are the visits that lie ahead
of its cursor, so it prints all of them and stops.
-/
namespace TraceReplay

def Visit.cursor (trace : Trace) (m : Nat) (visit : Visit) : Cursor :=
  ⟨trace, m, visit.frame, visit.owners⟩

def Visit.scene (trace : Trace) (m : Nat) (settings : RenderSettings) (visit : Visit) :
    Cursor × List Piece :=
  (visit.cursor trace m, visit.line settings)

namespace Cursor

section Walk

variable {trace : Trace} {m : Nat} {method : MethodTrace} {settings : RenderSettings}
  {frame : Frame} {owners : List Frame} {evaluation : InstructionEvaluation}

theorem currentBlocks_mk (found : trace.methods[m]? = some method) (frame : Frame)
    (owners : List Frame) :
    (Cursor.mk trace m frame owners).currentBlocks = blocksBelow method.blocks owners := by
  simp only [currentBlocks, currentMethod?, found]

theorem line_of_visit (found : trace.methods[m]? = some method)
    (named : frame.evaluation? (blocksBelow method.blocks owners) = some evaluation) :
    (Cursor.mk trace m frame owners).projection.line settings =
      Visit.line ⟨owners, frame, evaluation⟩ settings := by
  obtain ⟨block, at_block, at_eval⟩ := Option.bind_eq_some_iff.mp named
  have current : (Cursor.mk trace m frame owners).currentBlock? = some block := by
    rw [currentBlock?, currentBlocks_mk found, at_block]
  simp only [projection, currentMethod?, found, current, at_eval]
  rfl

/-- A dump goes into a sub-trace just where there is something to visit in it. -/
theorem dumpedInside?_cases (found : trace.methods[m]? = some method)
    (named : frame.evaluation? (blocksBelow method.blocks owners) = some evaluation)
    (settings : RenderSettings) :
    ((Cursor.mk trace m frame owners).dumpedInside? settings = none ∧
        evaluation.visitsInside settings.showNested (frame :: owners) = []) ∨
      ∃ first ∈ addressable (blocksBelow method.blocks (frame :: owners)),
        (Cursor.mk trace m frame owners).dumpedInside? settings =
          some ⟨trace, m, first, frame :: owners⟩ ∧
        evaluation.visitsInside settings.showNested (frame :: owners) =
          visitsFrom settings.showNested (frame :: owners)
            (blocksBelow method.blocks (frame :: owners)) first := by
  have current : (Cursor.mk trace m frame owners).currentEvaluation? = some evaluation := by
    rw [currentEvaluation?, currentBlocks_mk found, named]
  rw [evaluation.visitsInside_eq, dumpedInside?, enter, firstNestedStep?, current]
  cases settings.showNested with
  | false => exact .inl ⟨rfl, rfl⟩
  | true =>
      cases owned : evaluation.nestedBlocks with
      | none => exact .inl (by simp [Except.toOption, owned])
      | some inner =>
          rw [blocksBelow_cons named owned]
          have first := firstStep_finds inner 0
          have inside := visits_eq_firstStep true (frame :: owners) inner
          cases step : firstStep inner 0 with
          | none =>
              rw [step] at inside
              exact .inl (by simp [Except.toOption, owned, step, inside])
          | some frame' =>
              rw [step] at first inside
              exact .inr ⟨frame', first.1.1, by simp [Except.toOption, owned, step],
                by simp [inside]⟩

theorem onwardFrom_of_nextStep (found : trace.methods[m]? = some method) {next : Frame}
    (step : nextStep (blocksBelow method.blocks owners) frame = some next) :
    onwardFrom trace m frame owners = .ok ⟨trace, m, next, owners⟩ := by
  have moves : (Cursor.mk trace m frame owners).next? = some ⟨trace, m, next, owners⟩ := by
    rw [next?, currentBlocks_mk found, step]
  cases owners with
  | nil => rw [onwardFrom, moves]
  | cons owner owners => rw [onwardFrom, moves]

/-- One step on comes to the next visit that is pending. Where none is, it leaves the sub-traces and the
method. -/
theorem onwardFrom_cases (found : trace.methods[m]? = some method) (nested : Bool)
    (frame : Frame) (owners : List Frame) :
    (∃ next owners', onwardFrom trace m frame owners = .ok ⟨trace, m, next, owners'⟩ ∧
        next ∈ addressable (blocksBelow method.blocks owners') ∧
        visitsPending nested method.blocks (frame :: owners) =
          visitsAhead nested method.blocks next owners') ∨
      visitsPending nested method.blocks (frame :: owners) = [] ∧ ∃ left : Cursor,
        left.owners = [] ∧ (onwardFrom trace m frame owners = .error left ∨
          onwardFrom trace m frame owners = .ok left ∧ left.method ≠ m) := by
  induction owners generalizing frame with
  | nil =>
      have later := nextStep_finds (blocksBelow method.blocks []) frame
      rw [visitsPending, visitsAfter]
      cases step : nextStep (blocksBelow method.blocks []) frame with
      | some next =>
          rw [step] at later
          exact .inl ⟨next, [], onwardFrom_of_nextStep found step, later.1.1, rfl⟩
      | none =>
          have leaves : (Cursor.mk trace m frame []).next? =
              (trace.firstStepFrom (m + 1)).map fun target => ⟨trace, target.1, target.2, []⟩ := by
            rw [next?, currentBlocks_mk found, step]
            rfl
          have onLater := firstStepFrom_finds trace (m + 1)
          refine .inr ⟨rfl, ?_⟩
          cases target : trace.firstStepFrom (m + 1) with
          | none =>
              rw [target] at leaves
              exact ⟨⟨trace, m, frame, []⟩, rfl, .inl (by rw [onwardFrom, leaves]; rfl)⟩
          | some target' =>
              rw [target] at leaves onLater
              have after : m < target'.1 := onLater.1.2
              exact ⟨⟨trace, target'.1, target'.2, []⟩, rfl,
                .inr ⟨by rw [onwardFrom, leaves]; rfl, Nat.ne_of_gt after⟩⟩
  | cons owner owners ih =>
      have later := nextStep_finds (blocksBelow method.blocks (owner :: owners)) frame
      rw [visitsPending, visitsAfter]
      cases step : nextStep (blocksBelow method.blocks (owner :: owners)) frame with
      | some next =>
          rw [step] at later
          exact .inl ⟨next, owner :: owners, onwardFrom_of_nextStep found step, later.1.1, rfl⟩
      | none =>
          have stays : (Cursor.mk trace m frame (owner :: owners)).next? = none := by
            rw [next?, currentBlocks_mk found, step]
            rfl
          rw [onwardFrom, stays]
          exact ih owner

/-- The dump from a cursor prints these visits, however much more it may print, and comes to stand
outside of all sub-traces. -/
def Dumps (settings : RenderSettings) (cursor : Cursor) (shown : List Visit) : Prop :=
  ∃ left : Cursor, left.owners = [] ∧ ∀ limit, shown.length ≤ limit →
    dumpFrom settings cursor.method limit cursor =
      ⟨shown.map (Visit.scene cursor.trace cursor.method settings), left⟩

theorem Dumps.last {left : Cursor} (outside : left.owners = [])
    (ends : ∀ limit, dumpFrom settings m (limit + 1) ⟨trace, m, frame, owners⟩ =
      ⟨[Visit.scene trace m settings ⟨owners, frame, evaluation⟩], left⟩) :
    Dumps settings ⟨trace, m, frame, owners⟩ [⟨owners, frame, evaluation⟩] := by
  refine ⟨left, outside, fun limit enough => ?_⟩
  cases limit with
  | zero => exact absurd enough (Nat.not_succ_le_zero _)
  | succ limit => exact ends limit

theorem Dumps.cons {next : Frame} {owners' : List Frame} {shown : List Visit}
    (rest : Dumps settings ⟨trace, m, next, owners'⟩ shown)
    (step : ∀ limit, dumpFrom settings m (limit + 1) ⟨trace, m, frame, owners⟩ =
      (dumpFrom settings m limit ⟨trace, m, next, owners'⟩).andThen
        (Visit.scene trace m settings ⟨owners, frame, evaluation⟩)) :
    Dumps settings ⟨trace, m, frame, owners⟩ (⟨owners, frame, evaluation⟩ :: shown) := by
  obtain ⟨left, outside, dumped⟩ := rest
  refine ⟨left, outside, fun limit enough => ?_⟩
  cases limit with
  | zero => exact absurd enough (Nat.not_succ_le_zero _)
  | succ limit =>
      have dumped : dumpFrom settings m limit ⟨trace, m, next, owners'⟩ = _ :=
        dumped limit (Nat.le_of_succ_le_succ enough)
      change dumpFrom settings m (limit + 1) ⟨trace, m, frame, owners⟩ = _
      rw [step, dumped]
      rfl

/-- From a cursor on a step the dump prints all that lies ahead. -/
theorem dumps_visitsAhead (found : trace.methods[m]? = some method) (settings : RenderSettings)
    (frame : Frame) (owners : List Frame)
    (named : frame ∈ addressable (blocksBelow method.blocks owners)) :
    Dumps settings ⟨trace, m, frame, owners⟩
      (visitsAhead settings.showNested method.blocks frame owners) := by
  induction size : (visitsAhead settings.showNested method.blocks frame owners).length
    using Nat.strongRecOn generalizing frame owners with
  | ind n ih =>
      obtain ⟨evaluation, named⟩ := named
      have ahead := visitsAhead_of_named settings.showNested named
      have line : (Cursor.mk trace m frame owners).projection.line settings = _ :=
        line_of_visit found named
      cases dumpedInside?_cases found named settings with
      | inr inside =>
          obtain ⟨first, named', enters, inside⟩ := inside
          have split : visitsAhead settings.showNested method.blocks frame owners =
              ⟨owners, frame, evaluation⟩ ::
                visitsAhead settings.showNested method.blocks first (frame :: owners) := by
            rw [ahead, inside, visitsAhead]
          rw [split, List.length_cons] at size
          rw [split]
          refine (ih _ (by omega) first (frame :: owners) named' rfl).cons fun limit => ?_
          rw [dumpFrom, enters, line]
          rfl
      | inl outside =>
          obtain ⟨stays, nothing⟩ := outside
          rw [nothing, List.nil_append] at ahead
          cases onwardFrom_cases found settings.showNested frame owners with
          | inl goes =>
              obtain ⟨next, owners', goes, named', pending⟩ := goes
              rw [pending] at ahead
              rw [ahead, List.length_cons] at size
              rw [ahead]
              refine (ih _ (by omega) next owners' named' rfl).cons fun limit => ?_
              rw [dumpFrom, stays, onward, goes, line]
              simp only [ne_eq, not_true_eq_false, and_false, if_false]
              rfl
          | inr ends =>
              obtain ⟨none, left, outside, ends⟩ := ends
              rw [ahead, none]
              refine Dumps.last outside fun limit => ?_
              rw [dumpFrom, stays, onward, line]
              cases ends with
              | inl ends =>
                  rw [ends]
                  rfl
              | inr ends =>
                  have empty : left.owners.isEmpty = true := List.isEmpty_iff.mpr outside
                  rw [ends.1]
                  simp only [empty, ends.2, ne_eq, not_false_eq_true, and_self, if_true]
                  rfl

end Walk

def dumpTitle (method : MethodTrace) (m : Nat) : List Piece :=
  [.bold, .plain ("[" ++ toString m ++ "] " ++ method.displayName ++ "\n"), .reset]

/-- The number of visits is the one that the method itself gives. -/
theorem length_shown (method : MethodTrace) (nested : Bool) :
    (visits nested [] 0 method.blocks).length =
      if nested then method.statistics.evaluations else method.evaluationCount := by
  cases nested with
  | true => exact (evaluations_statistics method).symm
  | false => exact length_visits_shallow method

theorem length_shown_le (method : MethodTrace) (nested : Bool) :
    (visits nested [] 0 method.blocks).length ≤ method.statistics.evaluations := by
  rw [length_shown]
  cases nested with
  | true => exact Nat.le_refl _
  | false => exact evaluationCount_le_statistics method

section Landing

variable {trace : Trace} {m : Nat} {method : MethodTrace}

theorem dumpHere_eq (found : trace.methods[m]? = some method) (settings : RenderSettings)
    (frame : Frame) :
    (Cursor.mk trace m frame []).dumpHere settings =
      (if (Cursor.mk trace m frame []).isOnStep then
        dumpFrom settings m method.statistics.evaluations ⟨trace, m, frame, []⟩
      else Script.still ⟨trace, m, frame, []⟩ [noEvaluations]).andThen
        (⟨trace, m, frame, []⟩, dumpTitle method m) := by
  have current : (Cursor.mk trace m frame []).currentMethod? = some method := found
  rw [dumpHere, current]
  cases step : (Cursor.mk trace m frame []).isOnStep with
  | true => simp only [if_true, dumpTitle]
  | false => simp only [Bool.false_eq_true, if_false, dumpTitle]

theorem isOnStep_landing (found : trace.methods[m]? = some method) :
    (Cursor.mk trace m ((firstStep method.blocks 0).getD .start) []).isOnStep =
      (firstStep method.blocks 0).isSome := by
  have first := firstStep_finds method.blocks 0
  rw [isOnStep, currentEvaluation?, currentBlocks_mk found, blocksBelow]
  cases step : firstStep method.blocks 0 with
  | none =>
      rw [step] at first
      cases named : Frame.start.evaluation? method.blocks with
      | none => exact congrArg Option.isSome named
      | some evaluation =>
          exact (Set.eq_empty_iff_forall_notMem.mp first Frame.start
            ⟨⟨evaluation, named⟩, Nat.zero_le _⟩).elim
  | some frame =>
      rw [step] at first
      obtain ⟨evaluation, named⟩ := first.1.1
      exact congrArg Option.isSome named

theorem dumps_shown (found : trace.methods[m]? = some method) (settings : RenderSettings)
    (some_step : visits settings.showNested [] 0 method.blocks ≠ []) :
    (firstStep method.blocks 0).isSome ∧
      Dumps settings ⟨trace, m, (firstStep method.blocks 0).getD .start, []⟩
        (visits settings.showNested [] 0 method.blocks) := by
  have all := visits_eq_firstStep settings.showNested [] method.blocks
  have first := firstStep_finds method.blocks 0
  cases step : firstStep method.blocks 0 with
  | none =>
      rw [step] at all
      exact absurd all some_step
  | some frame =>
      rw [step] at all first
      have dumps := dumps_visitsAhead found settings frame [] first.1.1
      rw [visitsAhead, visitsPending, List.append_nil, blocksBelow] at dumps
      rw [all]
      exact ⟨rfl, dumps⟩

theorem firstStep_of_no_visits {nested : Bool} {blocks : List BlockEvaluation}
    (none_step : visits nested [] 0 blocks = []) : firstStep blocks 0 = none := by
  have all := visits_eq_firstStep nested [] blocks
  have first := firstStep_finds blocks 0
  cases step : firstStep blocks 0 with
  | none => rfl
  | some frame =>
      rw [step] at all first
      obtain ⟨evaluation, named⟩ := first.1.1
      rw [none_step, Option.elim_some, visitsFrom_of_named nested [] blocks named] at all
      cases all

def dumpBody (trace : Trace) (m : Nat) (settings : RenderSettings) (landing : Cursor)
    (shown : List Visit) : List (Cursor × List Piece) :=
  if shown = [] then [(landing, [noEvaluations])] else shown.map (Visit.scene trace m settings)

theorem method_of_mem_dumpBody {settings : RenderSettings} {landing : Cursor} {shown : List Visit}
    (here : landing.method = m) {scene : Cursor × List Piece}
    (mem : scene ∈ dumpBody trace m settings landing shown) : scene.1.method = m := by
  unfold dumpBody at mem
  split at mem
  case isTrue _ => rw [List.mem_singleton.mp mem, here]
  case isFalse _ =>
      obtain ⟨visit, _, rfl⟩ := List.mem_map.mp mem
      rfl

theorem dumpHere_landing (found : trace.methods[m]? = some method) (settings : RenderSettings) :
    let landing : Cursor := ⟨trace, m, (firstStep method.blocks 0).getD .start, []⟩
    let shown := visits settings.showNested [] 0 method.blocks
    ∃ left : Cursor, left.owners = [] ∧ landing.dumpHere settings =
        ⟨(landing, dumpTitle method m) :: dumpBody trace m settings landing shown, left⟩ ∧
      (shown ≠ [] → ∀ limit, shown.length ≤ limit → dumpFrom settings m limit landing =
        ⟨dumpBody trace m settings landing shown, left⟩) := by
  intro landing shown
  by_cases h : shown = []
  · have step : landing.isOnStep = false := by
      rw [isOnStep_landing found, firstStep_of_no_visits h, Option.isSome_none]
    refine ⟨landing, rfl, ?_, fun some_step => absurd h some_step⟩
    rw [dumpHere_eq found, step, dumpBody, if_pos h]
    rfl
  · obtain ⟨isSome, left, outside, dumped⟩ := dumps_shown found settings h
    have step : landing.isOnStep = true := (isOnStep_landing found).trans isSome
    have lines : ∀ limit, shown.length ≤ limit → dumpFrom settings m limit landing =
        ⟨dumpBody trace m settings landing shown, left⟩ := by
      intro limit enough
      rw [dumpBody, if_neg h]
      exact dumped limit enough
    refine ⟨left, outside, ?_, fun _ => lines⟩
    rw [dumpHere_eq found, step, if_pos rfl, lines _ (length_shown_le method settings.showNested)]
    rfl

end Landing

end Cursor

/-- The text of a dump: the number and the name of the method in bold, and the lines below. -/
def dumpText (coloured : Bool) (m : Nat) (method : MethodTrace) (lines : List String) : String :=
  styled coloured "1" ("[" ++ toString m ++ "] " ++ method.className ++ "#" ++ method.methodName ++ "\n") ++
    if lines = [] then "  (no instruction evaluations)\n" else String.join lines

section Text

variable {trace : Trace} {m : Nat} {settings : RenderSettings} {coloured : Bool} {landing : Cursor}
  {shown : List Visit}

theorem flatMap_bytes (coloured : Bool) (scenes : List (Cursor × List Piece)) :
    (scenes.flatMap fun scene => Piece.bytes coloured scene.2) =
      Utf8.encode (String.join (scenes.map fun scene => Piece.text coloured scene.2)) := by
  induction scenes with
  | nil => rfl
  | cons scene scenes ih =>
      rw [List.flatMap_cons, List.map_cons, String.join_cons, Utf8.encode_append, ← ih,
        Piece.bytes_eq_encode]

theorem text_dumpTitle (coloured : Bool) (m : Nat) (method : MethodTrace) :
    Piece.text coloured (Cursor.dumpTitle method m) =
      styled coloured "1"
        ("[" ++ toString m ++ "] " ++ method.className ++ "#" ++ method.methodName ++ "\n") := by
  rw [Cursor.dumpTitle, Piece.text_styled rfl, MethodTrace.displayName]
  simp only [String.append_assoc]

/-- The lines of the visits are printed below the title, one for each. -/
theorem bytes_dump (method : MethodTrace) :
    ∃ lines, List.Forall₂ (Visit.Shows settings coloured) shown lines ∧
      (((landing, Cursor.dumpTitle method m) :: Cursor.dumpBody trace m settings landing shown).flatMap
        fun scene => Piece.bytes coloured scene.2) = Utf8.encode (dumpText coloured m method lines) := by
  refine ⟨shown.map fun visit => Piece.text coloured (visit.line settings), ?_, ?_⟩
  · rw [List.forall₂_map_right_iff, List.forall₂_same]
    exact fun visit _ => visit.shows_line settings coloured
  · rw [flatMap_bytes, List.map_cons, String.join_cons, text_dumpTitle, dumpText, Cursor.dumpBody]
    by_cases none : shown = []
    · rw [if_pos none, if_pos (List.map_eq_nil_iff.mpr none), List.map_singleton, noEvaluations, Piece.text_plain]
      rfl
    · rw [if_neg none, if_neg (mt List.map_eq_nil_iff.mp none), List.map_map]
      rfl

end Text

/-- An output that accepts everything is left as it was, with all that there is to print. -/
theorem Script.print_unlimited (script : Script) (coloured : Bool) {output : Output}
    (unlimited : output.room = none) :
    script.print coloured output =
      ⟨script.scenes.flatMap fun scene => Piece.bytes coloured scene.2, output, script.last, true⟩ := by
  rw [Script.print_of_fits (Output.fits_of_unlimited unlimited _),
    Output.after_of_unlimited unlimited, Script.bytes]

namespace Cursor

variable {trace : Trace} {cursor : Cursor} {m : Nat} {method : MethodTrace}

theorem dump_eq_landing (reachable : Reachable trace cursor)
    (found : trace.methods[m]? = some method) (settings : RenderSettings) :
    cursor.dump settings m =
      .ok ((Cursor.mk trace m ((firstStep method.blocks 0).getD .start) []).dumpHere settings) := by
  have same : cursor.trace = trace := reachable.wellPlaced.trace_eq
  have target : cursor.trace.methods[m]? = some method := same ▸ found
  rw [dump, jumpToMethod, target, same]
  rfl

/-- A dump prints the title of the method and then a line that shows each of its evaluations, or each that is not in
a sub-trace, in pre-order and wherever it is started from. -/
theorem dump_preorder (reachable : Reachable trace cursor)
    (found : trace.methods[m]? = some method) (settings : RenderSettings) :
    let landing : Cursor := ⟨trace, m, (firstStep method.blocks 0).getD .start, []⟩
    let shown := visits settings.showNested [] 0 method.blocks
    let body := dumpBody trace m settings landing shown
    let scenes := (landing, dumpTitle method m) :: body
    -- pre-order, each evaluation once, and no other place
    shown.Pairwise (·.frames < ·.frames) ∧
      (∀ visit : Visit, visit ∈ shown ↔
        visit.frame.evaluation? (blocksBelow method.blocks visit.owners) = some visit.evaluation ∧
          (settings.showNested = true ∨ visit.owners = [])) ∧
      shown.length =
        (if settings.showNested then method.statistics.evaluations else method.evaluationCount) ∧
      (settings.showNested = false →
        shown.map Visit.evaluation = method.blocks.flatMap BlockEvaluation.evaluations) ∧
      (∀ scene ∈ scenes, scene.1.method = m) ∧
      ∃ left : Cursor, left.depth = 0 ∧ cursor.dump settings m = .ok ⟨scenes, left⟩ ∧
        -- the loop ends by itself
        (shown ≠ [] → ∀ limit, shown.length ≤ limit →
          dumpFrom settings m limit landing = ⟨body, left⟩) ∧
        ∀ coloured : Bool,
          (∃ lines, List.Forall₂ (Visit.Shows settings coloured) shown lines ∧
            (scenes.flatMap fun scene => Piece.bytes coloured scene.2) =
              Utf8.encode (dumpText coloured m method lines)) ∧
          ∀ output : Output, output.room = none →
            (Display.mk cursor output).perform settings coloured (.present (.dump m)) =
              (⟨left, output⟩, .shown, scenes.flatMap fun scene => Piece.bytes coloured scene.2) := by
  intro landing shown body scenes
  obtain ⟨left, outside, dumped, ends⟩ := dumpHere_landing found settings
  have dumped : cursor.dump settings m = .ok ⟨scenes, left⟩ := by
    rw [dump_eq_landing reachable found, dumped]
  refine ⟨visits_ordered _ _ _ _, fun visit => mem_visits_iff, length_shown method _, ?_, ?_, left,
    congrArg List.length outside, dumped, ends, fun coloured => ⟨bytes_dump method, fun output unlimited => ?_⟩⟩
  · intro shallow
    have top := map_evaluation_visits_shallow [] 0 method.blocks
    rwa [← shallow] at top
  · exact List.forall_mem_cons.mpr ⟨rfl, fun scene mem => method_of_mem_dumpBody rfl mem⟩
  · rw [Display.perform, script, dumped]
    simp only [Script.print_unlimited _ _ unlimited, if_true]

/-- A method that calls a subroutine, with a step that is cut off and one that generalizes. An offset and an instruction
are wider than their columns, and a stack has more values than are shown of it. -/
def wideMethod : MethodTrace :=
  let subroutine : List BlockEvaluation :=
    [.bare [⟨false, false, none, "astore_1", 9, none, [], ["L4"], none⟩,
      ⟨true, false, none, "ret 1", 10, none, [], [], some []⟩]]
  let caller : InstructionEvaluation := ⟨false, false, none, "jsr 9", 4, none, [], ["1", "2", "x"], some subroutine⟩
  let after : InstructionEvaluation :=
    ⟨false, true, some 12, "invokestatic java/lang/Thread.yield()V", 123456, none, [], ["é"], none⟩
  ⟨"A", "run()V", [], [], none, [.bare [], .bare [caller], .bare [after]]⟩

def wideTrace : Trace :=
  let other : MethodTrace := .bare [.bare [.bare none]]
  ⟨[other, wideMethod, other]⟩

def twoValues : RenderSettings := ⟨true, true, .auto, some 2⟩

def wideText : Bool → List String
  | false =>
    ["[1] A#run()V\n",
      "      4 jsr 9                           stack [1, 2, ... 1 more]\n",
      "        9 astore_1                        stack [L4]\n",
      "       10 ret 1                    S      stack []\n",
      "  123456 invokestatic java/lang/Thread.yield()V G x12  stack [é]\n"]
  | true =>
    ["\x1b[0m\x1b[1m[1] A#run()V\n\x1b[0m",
      "      4 jsr 9                           stack [1, 2, ... 1 more]\n",
      "        9 astore_1                        stack [L4]\n",
      "       10 ret 1                   \x1b[0m\x1b[33m S     \x1b[0m stack []\n",
      "  123456 invokestatic java/lang/Thread.yield()V\x1b[0m\x1b[35m G x12 \x1b[0m stack [é]\n"]

theorem text_wideMethod (coloured : Bool) :
    Piece.text coloured (dumpTitle wideMethod 1) ::
        (visits true [] 0 wideMethod.blocks).map (fun visit => Piece.text coloured (visit.line twoValues)) =
      wideText coloured := by
  cases coloured <;> decide +kernel

/-- The dump of the method with the subroutine, started inside of it, with colours and without. -/
theorem dump_preorder_calling :
    let cursor : Cursor := ⟨wideTrace, 1, ⟨0, 1⟩, [⟨1, 0⟩]⟩
    Reachable wideTrace cursor ∧ ∃ left : Cursor, left.depth = 0 ∧
      ∃ script, cursor.dump twoValues 1 = .ok script ∧ script.last = left ∧
        script.scenes.map (fun scene => scene.1.frames) =
          [[⟨1, 0⟩], [⟨1, 0⟩], [⟨1, 0⟩, ⟨0, 0⟩], [⟨1, 0⟩, ⟨0, 1⟩], [⟨2, 0⟩]] ∧
        dumpFrom twoValues 1 9 ⟨wideTrace, 1, ⟨1, 0⟩, []⟩ = ⟨script.scenes.tail, left⟩ ∧
        ∀ coloured : Bool,
          (Display.mk cursor ⟨none, ""⟩).perform twoValues coloured (.present (.dump 1)) =
            (⟨left, ⟨none, ""⟩⟩, .shown, Utf8.encode (String.join (wideText coloured))) := by
  intro cursor
  have reachable : Reachable wideTrace cursor :=
    .perform .forward (.perform .enter (.perform (.method 1) .start))
  obtain ⟨_, _, _, _, _, left, outside, dumped, ends, printed⟩ :=
    dump_preorder reachable (m := 1) rfl twoValues
  refine ⟨reachable, left, outside, _, dumped, rfl, rfl, ends (List.cons_ne_nil _ _) 9 (by decide),
    fun coloured => ?_⟩
  rw [(printed coloured).2 ⟨none, ""⟩ rfl, flatMap_bytes, ← text_wideMethod]
  rfl

end Cursor

end TraceReplay
