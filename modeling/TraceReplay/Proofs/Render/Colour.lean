import TraceReplay.Proofs.Cursor.Projection
import TraceReplay.Proofs.Render.Cutoff
import TraceReplay.Proofs.Render.Style
import TraceReplay.Proofs.Trace.Texts

/-!
Colours change nothing but style codes. All that is shown of a trace whose texts have no escapes is tidy; so a
display with colours and one without stay the same, action by action, and the first one prints what the second one
prints with style codes in between, of which the last one of an action ends all styles.
-/
namespace TraceReplay

open Terminal

def Trace.EscapeFree (trace : Trace) : Prop := ∀ text ∈ trace.texts, Terminal.EscapeFree text

instance : DecidablePred Trace.EscapeFree :=
  fun trace => inferInstanceAs (Decidable (∀ text ∈ trace.texts, Terminal.EscapeFree text))

/-- A showing whose own text, if it has one, has no escape. -/
def Showing.EscapeFree : Showing → Prop
  | .summary path => Terminal.EscapeFree path
  | .error message => Terminal.EscapeFree message
  | .view | .line | .dump _ => True

def DisplayAction.EscapeFree : DisplayAction → Prop
  | .present showing => showing.EscapeFree
  | .move _ => True

structure Projection.EscapeFree (projection : Projection) : Prop where
  instructionText : Terminal.EscapeFree projection.instructionText
  variablesBefore : ∀ text ∈ projection.variablesBefore, Terminal.EscapeFree text
  stackBefore : ∀ text ∈ projection.stackBefore, Terminal.EscapeFree text
  pendingWorklist : ∀ target ∈ projection.pendingWorklist, ∀ text ∈ target.texts,
    Terminal.EscapeFree text
  exceptionHandler : ∀ handler, projection.exceptionHandler = some handler →
    ∀ text ∈ handler.texts, Terminal.EscapeFree text

section Recorded

variable {trace : Trace} {cursor : Cursor} {method : MethodTrace} {block : BlockEvaluation}
  {evaluation : InstructionEvaluation}

theorem Trace.EscapeFree.inMethod (free : trace.EscapeFree) (mem : method ∈ trace.methods) :
    ∀ text ∈ method.texts, Terminal.EscapeFree text :=
  fun text inMethod => free text (List.mem_flatMap.mpr ⟨method, mem, inMethod⟩)

theorem Trace.EscapeFree.displayName (free : trace.EscapeFree) (mem : method ∈ trace.methods) :
    Terminal.EscapeFree method.displayName := by
  have texts := free.inMethod mem
  have className := texts method.className (by simp [MethodTrace.texts])
  have methodName := texts method.methodName (by simp [MethodTrace.texts])
  simp +decide [MethodTrace.displayName, className, methodName]

theorem Trace.EscapeFree.error (free : trace.EscapeFree) (mem : method ∈ trace.methods)
    {error : EvaluationError} (failed : method.error = some error) :
    Terminal.EscapeFree error.text := by
  have message := free.inMethod mem error.message (by simp [MethodTrace.texts, failed])
  simp +decide [EvaluationError.text, message]

theorem Trace.EscapeFree.inBlock (free : cursor.trace.EscapeFree)
    (at_block : cursor.currentBlock? = some block) :
    ∀ text ∈ block.texts, Terminal.EscapeFree text := by
  intro text inBlock
  have inBlocks := texts_subset_of_mem_blocks (List.mem_of_getElem? at_block) inBlock
  rw [Cursor.currentBlocks] at inBlocks
  split at inBlocks
  next method current =>
      refine free.inMethod (List.mem_of_getElem? current) text (List.mem_append_right _ ?_)
      exact texts_blocksBelow_subset _ _ inBlocks
  next => cases inBlocks

/-- The parts of a projection that come from a block. -/
theorem Projection.EscapeFree.withBlock {projection : Projection} (free : projection.EscapeFree)
    (texts : ∀ text ∈ block.texts, Terminal.EscapeFree text) (index : Nat) :
    (projection.withBlock block index).EscapeFree where
  __ := free
  pendingWorklist target mem text inTarget :=
    texts text (texts_subset_of_mem_worklistAt mem inTarget)
  exceptionHandler handler runs text inHandler := by
    obtain ⟨_, _, _, _, _, _⟩ := block
    cases runs
    exact texts text (by simp [BlockEvaluation.texts, inHandler])

theorem Projection.EscapeFree.withEvaluation {projection : Projection}
    (free : projection.EscapeFree) (texts : ∀ text ∈ evaluation.texts, Terminal.EscapeFree text) :
    (projection.withEvaluation evaluation).EscapeFree := by
  obtain ⟨_, _, _, _, _, _, _, _, _⟩ := evaluation
  simp only [InstructionEvaluation.texts, List.forall_mem_cons, List.forall_mem_append] at texts
  obtain ⟨text, ⟨⟨values, stack⟩, _⟩, _⟩ := texts
  exact ⟨text, values, stack, free.pendingWorklist, free.exceptionHandler⟩

/-- All texts that a projection shows are texts of the trace. -/
theorem Cursor.escapeFree_projection (free : cursor.trace.EscapeFree) :
    cursor.projection.EscapeFree := by
  have empty : Projection.empty.EscapeFree := ⟨by decide, nofun, nofun, nofun, nofun⟩
  have inMethod (method : MethodTrace) : (cursor.projectionIn method).EscapeFree :=
    ⟨empty.1, empty.2, empty.3, empty.4, empty.5⟩
  obtain ⟨method, block, evaluation, _, record, _, shown⟩ |
    ⟨_, ⟨_, _, shown⟩ | ⟨method, _, ⟨_, shown⟩ | ⟨block, at_block, shown⟩⟩⟩ :=
    projection_cases cursor
  · obtain ⟨at_block, at_eval⟩ := Frame.record?_eq_some_iff.mp record
    have texts := free.inBlock at_block
    rw [shown]
    refine ((inMethod method).withBlock texts _).withEvaluation fun text mem => ?_
    exact texts text (texts_subset_of_mem_evaluations (List.mem_of_getElem? at_eval) mem)
  · exact shown ▸ empty
  · exact shown ▸ inMethod method
  · exact shown ▸ (inMethod method).withBlock (free.inBlock at_block) _

end Recorded

section Shown

variable {settings : RenderSettings} {projection : Projection}

theorem escapeFree_values {values : List String}
    (all : ∀ text ∈ values, Terminal.EscapeFree text) (settings : RenderSettings) :
    Terminal.EscapeFree (settings.values values) := by
  have cutOff {shown : List String} (front : ∀ text ∈ shown, Terminal.EscapeFree text) :
      Terminal.EscapeFree ("[" ++ String.intercalate ", "
        (if values.length - shown.length = 0 then shown
        else shown ++ ["... " ++ toString (values.length - shown.length) ++ " more"]) ++ "]") := by
    refine escapeFree_append.mpr
      ⟨escapeFree_append.mpr ⟨by decide, escapeFree_intercalate (by decide) ?_⟩, by decide⟩
    split
    next => exact front
    next => exact List.forall_mem_append.mpr ⟨front, by simp +decide⟩
  rw [RenderSettings.values]
  cases settings.valueLimit with
  | none => exact cutOff all
  | some limit => exact cutOff fun text mem => all text (List.mem_of_mem_take mem)

@[simp] theorem escapeFree_alignLeft {text : String} {width : Nat} :
    Terminal.EscapeFree (Text.alignLeft width text) ↔ Terminal.EscapeFree text := by
  simp +decide [Text.alignLeft, Text.padding]

@[simp] theorem escapeFree_alignRight {text : String} {width : Nat} :
    Terminal.EscapeFree (Text.alignRight width text) ↔ Terminal.EscapeFree text := by
  simp +decide [Text.alignRight, Text.padding]

@[simp] theorem Projection.escapeFree_marker (projection : Projection) :
    Terminal.EscapeFree projection.marker := by
  have flags : Terminal.EscapeFree projection.flags.marker := by
    obtain ⟨skip, generalization⟩ := projection.flags
    cases skip <;> cases generalization <;> decide
  rw [marker]
  split
  next => simp +decide [flags]
  next => exact flags

@[simp] theorem Projection.escapeFree_offsetText (projection : Projection) :
    Terminal.EscapeFree projection.offsetText := by
  rw [offsetText]
  split
  next offset _ => exact escapeFree_repr offset.toNat
  next => decide

theorem tidy_inColour {text : String} (free : Terminal.EscapeFree text) (colour : Colour) :
    Tidy (Piece.inColour colour text) :=
  .styled (.inr ⟨colour, rfl⟩) free .nil

theorem tidy_errorLine {message : String} (free : Terminal.EscapeFree message) :
    Tidy (Piece.errorLine message) :=
  tidy_inColour (by simp +decide [free]) .red

theorem Projection.EscapeFree.tidy_line (free : projection.EscapeFree) (settings : RenderSettings) :
    Tidy (projection.line settings) := by
  have stack := escapeFree_values free.stackBefore settings
  refine ((Tidy.plain ?_ .nil).append ?_).append (.plain ?_ .nil)
  · simp +decide [free.instructionText]
  · have marker : Terminal.EscapeFree (" " ++ Text.alignLeft 6 projection.marker) := by
      simp +decide
    split
    next colour _ => exact tidy_inColour marker colour
    next => exact .plain marker .nil
  · simp +decide [stack]

theorem Projection.EscapeFree.worklistText (free : projection.EscapeFree)
    (settings : RenderSettings) : Terminal.EscapeFree (projection.worklistText settings) := by
  have targets : ∀ text ∈ projection.pendingWorklist.map fun target =>
      "    @" ++ toString target.startOffset.toNat ++
        " variables " ++ settings.values target.startVariables ++
        " stack " ++ settings.values target.startStack ++ "\n",
      Terminal.EscapeFree text := by
    refine List.forall_mem_map.mpr fun target mem => ?_
    obtain ⟨values, stack⟩ := List.forall_mem_append.mp (free.pendingWorklist target mem)
    simp +decide [escapeFree_values values settings, escapeFree_values stack settings]
  have all := escapeFree_join targets
  rw [Projection.worklistText]
  generalize String.join (projection.pendingWorklist.map _) = joined at all ⊢
  cases projection.updatedWorklist.isSome <;> split <;> simp +decide [all]

theorem Projection.EscapeFree.blockText (free : projection.EscapeFree) :
    Terminal.EscapeFree projection.blockText := by
  rw [Projection.blockText]
  refine escapeFree_append.mpr ⟨escapeFree_append.mpr ⟨?start, ?handler⟩, by decide⟩
  case start => split <;> simp +decide
  case handler =>
      split
      next handler runs =>
          have catches : Terminal.EscapeFree (handler.catchType.getD "any") := by
            have texts := free.exceptionHandler handler runs
            cases named : handler.catchType with
            | none => decide
            | some catchType => exact texts catchType (by simp [ExceptionHandler.texts, named])
          simp +decide [catches]
      next => decide

end Shown

section Scripts

variable {trace : Trace} {cursor : Cursor}

theorem tidy_noEvaluations : Tidy [noEvaluations] := .plain (by decide) .nil

theorem Trace.EscapeFree.tidy_line (free : trace.EscapeFree) (same : cursor.trace = trace)
    (settings : RenderSettings) : Tidy (cursor.projection.line settings) :=
  (Cursor.escapeFree_projection (same ▸ free)).tidy_line settings

theorem Cursor.escapeFree_standing (cursor : Cursor) : Terminal.EscapeFree cursor.standing := by
  delta standing
  split
  next => simp +decide
  next =>
      split <;> simp +decide

theorem Cursor.tidy_stepView (free : cursor.trace.EscapeFree) (settings : RenderSettings) :
    Tidy (cursor.stepView settings) := by
  have shown := escapeFree_projection free
  have values := escapeFree_values shown.variablesBefore settings
  have stack := escapeFree_values shown.stackBefore settings
  rw [stepView]
  refine (((shown.tidy_line settings).append ?_).append ?_).append ?_
  · refine .plain shown.blockText (.plain ?_ (.plain ?_ .nil))
    · simp +decide [values]
    · simp +decide [stack]
  · split
    next => exact .plain (shown.worklistText settings) .nil
    next => exact .nil
  · split
    next => exact .plain (by decide) .nil
    next => exact .nil

theorem Cursor.tidy_view (free : cursor.trace.EscapeFree) (settings : RenderSettings) :
    Tidy (cursor.view settings) := by
  rw [view]
  split
  next => exact .plain (by decide) .nil
  next method current =>
      have mem := List.mem_of_getElem? current
      have header : Tidy [.bold, .plain method.displayName, .reset, .plain cursor.standing] :=
        .styled (.inl rfl) (free.displayName mem) (.plain cursor.escapeFree_standing .nil)
      refine (header.append ?_).append ?_
      · split
        next error failed =>
            exact tidy_errorLine (by simp +decide [free.error mem failed])
        next => exact .nil
      · split
        next => exact tidy_noEvaluations
        next => exact tidy_stepView free settings

theorem Trace.EscapeFree.tidy_summary (free : trace.EscapeFree) {path : String}
    (named : Terminal.EscapeFree path) : Tidy (trace.summary path) := by
  refine .styled (.inl rfl) (by simp +decide [named]) (tidy_flatMap fun item numbered => ?_)
  obtain ⟨method, index⟩ := item
  have mem := List.mem_of_getElem? (List.mem_zipIdx_iff_getElem?.mp numbered)
  refine Tidy.append (.plain ?_ .nil) ?_
  · simp +decide [free.displayName mem]
  · split
    next error failed => exact tidy_errorLine (by simp +decide [free.error mem failed])
    next => exact .nil

/-- A dump prints the lines of the steps that it comes by, and nothing else. -/
theorem Cursor.scenes_dumpFrom (settings : RenderSettings) (m limit : Nat) (cursor : Cursor) :
    ∀ scene ∈ (dumpFrom settings m limit cursor).scenes,
      scene.2 = scene.1.projection.line settings := by
  fun_induction dumpFrom settings m limit cursor with
  | case1 => exact fun _ mem => absurd mem List.not_mem_nil
  | case2 cursor limit scene inside _ ih => exact List.forall_mem_cons.mpr ⟨rfl, ih⟩
  | case3 | case4 => exact List.forall_mem_singleton.mpr rfl
  | case5 cursor limit scene _ next _ _ ih => exact List.forall_mem_cons.mpr ⟨rfl, ih⟩

theorem Cursor.tidy_dumpHere (reachable : Reachable trace cursor) (free : trace.EscapeFree)
    (settings : RenderSettings) : ∀ scene ∈ (cursor.dumpHere settings).scenes, Tidy scene.2 := by
  rw [dumpHere]
  split
  next => exact List.forall_mem_singleton.mpr .nil
  next method current =>
      have mem : method ∈ trace.methods :=
        reachable.wellPlaced.trace_eq ▸ List.mem_of_getElem? current
      have title : Tidy [.bold, .plain ("[" ++ toString cursor.method ++ "] " ++
          method.displayName ++ "\n"), .reset] :=
        .styled (.inl rfl) (by simp +decide [free.displayName mem]) .nil
      dsimp only
      split
      next =>
          refine List.forall_mem_cons.mpr ⟨title, fun scene inDump => ?_⟩
          rw [scenes_dumpFrom _ _ _ _ scene inDump]
          have stop := reachable_dumpFrom reachable settings _ _ scene.1
            (List.mem_append_left _ (List.mem_map_of_mem inDump))
          exact free.tidy_line stop.wellPlaced.trace_eq settings
      next => exact List.forall_mem_cons.mpr ⟨title, List.forall_mem_singleton.mpr tidy_noEvaluations⟩

/-- Whatever is shown of a trace without escapes is tidy. -/
theorem Cursor.tidy_script (reachable : Reachable trace cursor) (free : trace.EscapeFree)
    {settings : RenderSettings} {showing : Showing} (own : showing.EscapeFree) {script : Script}
    (shows : cursor.script settings showing = .ok script) :
    ∀ scene ∈ script.scenes, Tidy scene.2 := by
  have same := reachable.wellPlaced.trace_eq
  cases showing with
  | view =>
      cases shows
      exact List.forall_mem_singleton.mpr (tidy_view (same ▸ free) settings)
  | line =>
      cases shows
      exact List.forall_mem_singleton.mpr (free.tidy_line same settings)
  | summary path =>
      cases shows
      exact List.forall_mem_singleton.mpr (Trace.EscapeFree.tidy_summary (same ▸ free) own)
  | error message =>
      cases shows
      exact List.forall_mem_singleton.mpr (tidy_errorLine own)
  | dump m =>
      have landed := reachable.perform (.method m)
      rw [perform] at landed
      rw [Cursor.script, dump] at shows
      cases jump : cursor.jumpToMethod m with
      | error error =>
          rw [jump] at shows
          cases shows
      | ok landing =>
          rw [jump] at landed shows
          cases shows
          exact tidy_dumpHere landed free settings

theorem Script.bytes_eq (script : Script) (coloured : Bool) :
    script.bytes coloured = Piece.bytes coloured (script.scenes.flatMap Prod.snd) := by
  rw [bytes, Piece.bytes, List.flatMap_assoc]
  rfl

end Scripts

section Choice

variable (settings : RenderSettings) (on off : ColorChoice)

/-- The choice of colours has no part in where a dump goes. -/
theorem Cursor.dumpFrom_color (m limit : Nat) (cursor : Cursor) :
    dumpFrom { settings with color := on } m limit cursor =
      dumpFrom { settings with color := off } m limit cursor := by
  induction limit generalizing cursor with
  | zero => rfl
  | succ limit ih =>
      simp only [dumpFrom, ih]
      rfl

/-- What is shown does not depend on the choice of colours. -/
theorem Cursor.script_color (cursor : Cursor) (showing : Showing) :
    cursor.script { settings with color := on } showing =
      cursor.script { settings with color := off } showing := by
  cases showing with
  | view | line | summary | error => rfl
  | dump m =>
      rw [Cursor.script, Cursor.script, dump, dump]
      congr 1
      funext landing
      rw [dumpHere, dumpHere]
      simp only [dumpFrom_color settings on off]

end Choice

namespace Display

section Together

variable {trace : Trace} {display : Display}

/-- One action on a display with colours and on one without. -/
theorem perform_colour (reachable : Reachable trace display.cursor)
    (unlimited : display.output.room = none) (free : trace.EscapeFree) (settings : RenderSettings)
    (on off : ColorChoice) {action : DisplayAction} (own : action.EscapeFree) :
    let met := display.perform { settings with color := on } true action
    let met' := display.perform { settings with color := off } false action
    met.1 = met'.1 ∧ met.2.1 = met'.2.1 ∧ met.1.output.room = none ∧
      (∀ rest, visible (met.2.2 ++ rest) = met'.2.2 ++ visible rest) ∧
      ∀ style ∈ (styles met.2.2).getLast?, style = resetStyle := by
  have silent : ∀ style ∈ (styles []).getLast?, style = resetStyle := fun _ mem =>
    absurd mem (Option.not_mem_none _)
  cases action with
  | move move => exact ⟨rfl, rfl, unlimited, fun _ => rfl, silent⟩
  | present showing =>
      simp only [perform, Cursor.script_color settings on off]
      cases shows : display.cursor.script { settings with color := off } showing with
      | error error => exact ⟨rfl, rfl, unlimited, fun _ => rfl, silent⟩
      | ok script =>
          have tidy := tidy_flatMap (Cursor.tidy_script reachable free own shows)
          have fits (coloured : Bool) := Output.fits_of_unlimited unlimited (script.bytes coloured)
          simp only [Script.print_of_fits (fits _), Output.after_of_unlimited unlimited,
            Script.bytes_eq, true_and]
          exact ⟨unlimited, tidy.visible_bytes, tidy.ends_reset⟩

/-- By induction on the actions: with colours and without, the display is the same after each of them. -/
theorem run_colour (reachable : Reachable trace display.cursor)
    (unlimited : display.output.room = none) (free : trace.EscapeFree) (settings : RenderSettings)
    (on off : ColorChoice) {actions : List DisplayAction}
    (own : ∀ action ∈ actions, action.EscapeFree) :
    let ran := display.run { settings with color := on } true actions
    let ran' := display.run { settings with color := off } false actions
    ran.1 = ran'.1 ∧ Reachable trace ran.1.cursor ∧ ran.1.output.room = none ∧
      visible ran.2 = ran'.2 := by
  induction actions generalizing display with
  | nil => exact ⟨rfl, reachable, unlimited, rfl⟩
  | cons action actions ih =>
      obtain ⟨first, others⟩ := List.forall_mem_cons.mp own
      obtain ⟨same, _, unlimited', shows, _⟩ :=
        perform_colour reachable unlimited free settings on off first
      have reachable' := reachable_perform reachable { settings with color := on } true action
      obtain ⟨ended, there, room, all⟩ := ih reachable' unlimited' others
      simp only [run]
      rw [← same, shows, all]
      exact ⟨ended, there, room, rfl⟩

end Together

/-- On an output with room for everything, what is printed in colour shows as what is printed without colours.
Each action has the same result and leaves the same display, and the last style code that it prints, if any, is
the reset. -/
theorem colours_only_add_codes {trace : Trace} {cursor : Cursor}
    (reachable : Reachable trace cursor) (free : trace.EscapeFree) (settings : RenderSettings)
    (on off : ColorChoice) (refusal : String) {actions : List DisplayAction}
    (own : ∀ action ∈ actions, action.EscapeFree) :
    let start : Display := ⟨cursor, ⟨none, refusal⟩⟩
    let coloured := start.run { settings with color := on } true
    let plain := start.run { settings with color := off } false
    visible (coloured actions).2 = (plain actions).2 ∧ (coloured actions).1 = (plain actions).1 ∧
      ∀ earlier action later, actions = earlier ++ action :: later →
        let met := (coloured earlier).1.perform { settings with color := on } true action
        let met' := (plain earlier).1.perform { settings with color := off } false action
        met.1 = met'.1 ∧ met.2.1 = met'.2.1 ∧ visible met.2.2 = met'.2.2 ∧
          ∀ style ∈ (styles met.2.2).getLast?, style = resetStyle := by
  intro start coloured plain
  obtain ⟨ended, _, _, shows⟩ :=
    @run_colour trace start reachable rfl free settings on off _ own
  refine ⟨shows, ended, ?_⟩
  rintro earlier action later rfl met met'
  obtain ⟨before, here, _⟩ := List.forall_mem_append.mp own |>.imp_right List.forall_mem_cons.mp
  obtain ⟨same, there, room, _⟩ :=
    @run_colour trace start reachable rfl free settings on off _ before
  obtain ⟨after, result, _, shown, reset⟩ :=
    perform_colour there room free settings on off here
  have shown := shown []
  rw [List.append_nil] at shown
  simp only [met', plain, ← same]
  exact ⟨after, result, shown.trans (List.append_nil _), reset⟩

/-- A recording of a failed method, with marked evaluations in it and in a subroutine that it calls. -/
def markedTrace : Trace :=
  let evaluation (skip generalization : Bool) (nested : Option (List BlockEvaluation)) :
      InstructionEvaluation :=
    ⟨skip, generalization, some 3, "ré", 8, none, ["i:1", "a"], [], nested⟩
  let block (evaluations : List InstructionEvaluation) : BlockEvaluation :=
    ⟨8, [], [], none, [], evaluations⟩
  ⟨[⟨"A", "m()V", [], [], some ⟨8, "gave up"⟩,
    [block [evaluation false true (some [block [evaluation true true none]]),
      evaluation false false none]]⟩]⟩

/-- Bold, red, magenta and yellow, from a subroutine and in a dump. -/
theorem colours_only_add_codes_marked :
    let settings : RenderSettings := ⟨true, true, .auto, some 1⟩
    let start : Display := ⟨Cursor.start markedTrace, ⟨none, "no room"⟩⟩
    let actions : List DisplayAction :=
      [.move .enter, .present .view, .present (.error "x"), .present (.dump 0)]
    let coloured := start.run { settings with color := .always } true
    let dumped := (coloured (actions.take 3)).1.perform { settings with color := .always } true
      (.present (.dump 0))
    Reachable markedTrace start.cursor ∧ markedTrace.EscapeFree ∧
      (∀ action ∈ actions, action.EscapeFree) ∧
      visible (coloured actions).2 =
        (start.run { settings with color := .never } false actions).2 ∧
      (styles dumped.2.2).length = 9 ∧
      ∀ style ∈ (styles dumped.2.2).getLast?, style = resetStyle := by
  intro settings start actions coloured dumped
  have reachable : Reachable markedTrace start.cursor := .start
  have free : markedTrace.EscapeFree := by decide
  have own : ∀ action ∈ actions, action.EscapeFree := by
    simp +decide [actions, DisplayAction.EscapeFree, Showing.EscapeFree]
  obtain ⟨shows, _, each⟩ :=
    colours_only_add_codes reachable free settings .always .never "no room" own
  obtain ⟨_, _, _, reset⟩ := each (actions.take 3) (.present (.dump 0)) [] rfl
  exact ⟨reachable, free, own, shows, by decide +kernel, reset⟩

end Display

end TraceReplay
