import TraceReplay.Proofs.Render.Showing

/-!
A display with room for a number of bytes, beside one with room for everything. The two go together until what
the second one has printed exceeds the room of the first. There the first one is cut off, and from then on it
only moves.
-/
namespace TraceReplay

def DisplayAction.text (action : DisplayAction) (settings : RenderSettings) (coloured : Bool)
    (cursor : Cursor) : Bytes :=
  match action with
  | .move _ => []
  | .present showing =>
    match cursor.script settings showing with
    | .error _ => []
    | .ok script => script.bytes coloured

theorem DisplayAction.text_ne_nil_of_trace_eq {first second : Cursor}
    (same : first.trace = second.trace) {settings : RenderSettings} {coloured : Bool}
    {action : DisplayAction} (speaks : action.text settings coloured first ≠ []) :
    action.text settings coloured second ≠ [] := by
  cases action with
  | move move => exact absurd rfl speaks
  | present showing =>
      have alike := Cursor.script_isOk_of_trace_eq same settings showing
      rw [text] at speaks ⊢
      cases shows : second.script settings showing with
      | ok script => exact (Cursor.script_speaks shows).bytes_ne_nil coloured
      | error error =>
          rw [shows] at alike
          cases shows' : first.script settings showing with
          | ok script =>
              rw [shows'] at alike
              cases alike
          | error error' =>
              rw [shows'] at speaks
              exact absurd rfl speaks

namespace Display

def run (settings : RenderSettings) (coloured : Bool) (display : Display) :
    List DisplayAction → Display × Bytes
  | [] => (display, [])
  | action :: actions =>
    let done := display.perform settings coloured action
    let rest := run settings coloured done.1 actions
    (rest.1, done.2.2 ++ rest.2)

section Step

variable {trace : Trace} {display : Display} {settings : RenderSettings} {coloured : Bool}

/-- A showing that is cut off leaves what came of printing its script. -/
theorem printed_of_full {showing : Showing}
    (full : (display.perform settings coloured (.present showing)).2.1 = .full) :
    let done := display.perform settings coloured (.present showing)
    ∃ script, display.cursor.script settings showing = .ok script ∧
      let printed := script.print coloured display.output
      printed.bytes = done.2.2 ∧ printed.cursor = done.1.cursor ∧ printed.complete = false := by
  cases shows : display.cursor.script settings showing with
  | error error =>
      simp only [perform, shows] at full
      cases full
  | ok script =>
      refine ⟨script, rfl, ?_⟩
      simp only [perform, shows] at full ⊢
      cases complete : (script.print coloured display.output).complete with
      | false => exact ⟨trivial, trivial, rfl⟩
      | true =>
          rw [complete] at full
          cases full

/-- An action is one write of what it has to print. -/
theorem perform_written (display : Display) (settings : RenderSettings) (coloured : Bool)
    (action : DisplayAction) :
    let text := action.text settings coloured display.cursor
    let done := display.perform settings coloured action
    done.2.2 = display.output.accepted text ∧ done.1.output = display.output.after text ∧
      (done.2.1 = .full ↔ display.output.fits text = false) := by
  intro text done
  have silent : ∀ result : DisplayResult, result ≠ .full →
      [] = display.output.accepted [] ∧ display.output = display.output.after [] ∧
        (result = .full ↔ display.output.fits [] = false) := by
    intro result notFull
    rw [Output.accepted_nil, Output.after_nil, Output.fits_nil]
    exact ⟨rfl, rfl, iff_of_false notFull (by decide)⟩
  cases action with
  | move move => exact silent (.moved _) (by simp)
  | present showing =>
      cases shows : display.cursor.script settings showing with
      | error error =>
          have quiet : text = [] := by simp only [text, DisplayAction.text, shows]
          have refused : done = (display, .navigation error, []) := by
            simp only [done, perform, shows]
          rw [quiet, refused]
          exact silent (.navigation error) (by simp)
      | ok script =>
          have loud : text = script.bytes coloured := by
            simp only [text, DisplayAction.text, shows]
          have written := script.print_written coloured display.output
          rw [Printed.written, Writing.whole, Written.mk.injEq, ← loud] at written
          obtain ⟨taken, after, complete⟩ := written
          simp only [done, perform, shows, taken, after, complete]
          cases display.output.fits text with
          | true => exact ⟨trivial, trivial, iff_of_false (by decide) (by decide)⟩
          | false => exact ⟨trivial, trivial, iff_of_true rfl rfl⟩

/-- Where the output takes all that is to be printed, it makes no difference. -/
theorem perform_of_fits {free : Display} (same : display.cursor = free.cursor)
    {action : DisplayAction}
    (fits : display.output.fits (action.text settings coloured display.cursor) = true)
    (fits' : free.output.fits (action.text settings coloured free.cursor) = true) :
    (display.perform settings coloured action).1.cursor =
        (free.perform settings coloured action).1.cursor ∧
      (display.perform settings coloured action).2 = (free.perform settings coloured action).2 := by
  cases action with
  | move move =>
      rw [perform, perform, same]
      exact ⟨rfl, rfl⟩
  | present showing =>
      rw [← same] at fits'
      cases shows : display.cursor.script settings showing with
      | error error => simp only [perform, ← same, shows, and_self]
      | ok script =>
          simp only [DisplayAction.text, shows] at fits fits'
          simp only [perform, ← same, shows, Script.print_of_fits fits, Script.print_of_fits fits',
            and_self]

theorem reachable_perform (reachable : Reachable trace display.cursor) (settings : RenderSettings)
    (coloured : Bool) (action : DisplayAction) :
    Reachable trace (display.perform settings coloured action).1.cursor := by
  cases action with
  | move move => exact reachable.perform move
  | present showing =>
      rw [perform]
      cases shows : display.cursor.script settings showing with
      | error error => exact reachable
      | ok script =>
          exact Cursor.reachable_script reachable shows _
            (script.print_cursor_mem coloured display.output)

end Step

/-- A display that began with an output, beside one that has had room for everything and has printed a text.
The first one has taken what it could of the text, and is in step where this was all of it. -/
structure Follows (trace : Trace) (output : Output) (text : Bytes) (limited free : Display) :
    Prop where
  output_eq : limited.output = output.after text
  unlimited : free.output.room = none
  reachable : Reachable trace limited.cursor
  reachable_free : Reachable trace free.cursor
  cursor_eq : output.fits text = true → limited.cursor = free.cursor

section Run

variable {trace : Trace} {output : Output} {text : Bytes} {limited free : Display}

theorem perform_free (unlimited : free.output.room = none) (settings : RenderSettings)
    (coloured : Bool) (action : DisplayAction) :
    let freely := free.perform settings coloured action
    freely.2.2 = action.text settings coloured free.cursor ∧ freely.1.output.room = none ∧
      freely.2.1 ≠ .full := by
  obtain ⟨taken, after, full⟩ := perform_written free settings coloured action
  intro freely
  refine ⟨?_, ?_, ?_⟩
  · rw [taken, Output.accepted_of_fits (Output.fits_of_unlimited unlimited _)]
  · rw [after, Output.after_of_unlimited unlimited, unlimited]
  · intro h
    have refused := full.mp h
    rw [Output.fits_of_unlimited unlimited] at refused
    cases refused

theorem Follows.start {cursor : Cursor} (reachable : Reachable trace cursor) {everything : Output}
    (unlimited : everything.room = none) (output : Output) :
    Follows trace output [] ⟨cursor, output⟩ ⟨cursor, everything⟩ where
  output_eq := output.after_nil.symm
  unlimited := unlimited
  reachable := reachable
  reachable_free := reachable
  cursor_eq _ := rfl

theorem Follows.trace_eq (follows : Follows trace output text limited free) :
    limited.cursor.trace = free.cursor.trace := by
  rw [follows.reachable.wellPlaced.trace_eq, follows.reachable_free.wellPlaced.trace_eq]

/-- In step, both have the same to print. -/
theorem Follows.text_eq (follows : Follows trace output text limited free)
    (fits : output.fits text = true) (settings : RenderSettings) (coloured : Bool)
    (action : DisplayAction) :
    action.text settings coloured limited.cursor =
      (free.perform settings coloured action).2.2 := by
  rw [follows.cursor_eq fits, (perform_free follows.unlimited settings coloured action).1]

/-- What comes of an action: what it should as long as there is room, and a failure once there is none and
it has anything to print. -/
theorem Follows.outcome (follows : Follows trace output text limited free)
    (settings : RenderSettings) (coloured : Bool) (action : DisplayAction) :
    let freely := free.perform settings coloured action
    let met := limited.perform settings coloured action
    (output.fits (text ++ freely.2.2) = true →
        met.1.cursor = freely.1.cursor ∧ met.2 = freely.2) ∧
      (output.fits (text ++ freely.2.2) = false → (met.2.1 = .full ↔ freely.2.2 ≠ [])) := by
  intro freely met
  obtain ⟨_, _, full⟩ := perform_written limited settings coloured action
  rw [Output.fits_append, ← follows.output_eq]
  cases fits : output.fits text with
  | true =>
      have here : _ = freely.2.2 := follows.text_eq fits settings coloured action
      rw [Bool.true_and]
      refine ⟨fun all => ?_, fun refused => ?_⟩
      · rw [← here] at all
        exact perform_of_fits (follows.cursor_eq fits) all
          (Output.fits_of_unlimited follows.unlimited _)
      · rw [here] at full
        refine iff_of_true (full.mpr refused) fun silent => ?_
        rw [silent, Output.fits_nil] at refused
        cases refused
  | false =>
      have noRoom := Output.room_after_of_refused fits
      have printed : freely.2.2 = _ := (perform_free follows.unlimited settings coloured action).1
      refine ⟨fun all => absurd all Bool.false_ne_true, fun _ => full.trans ?_⟩
      rw [follows.output_eq, Output.fits_of_full noRoom, List.isEmpty_eq_false_iff, printed]
      exact ⟨DisplayAction.text_ne_nil_of_trace_eq follows.trace_eq,
        DisplayAction.text_ne_nil_of_trace_eq follows.trace_eq.symm⟩

/-- An action of both, whether or not they are still in step. -/
theorem Follows.perform (follows : Follows trace output text limited free)
    (settings : RenderSettings) (coloured : Bool) (action : DisplayAction) :
    let freely := free.perform settings coloured action
    let met := limited.perform settings coloured action
    Follows trace output (text ++ freely.2.2) met.1 freely.1 ∧
      met.2.2 = (output.after text).accepted freely.2.2 := by
  intro freely met
  obtain ⟨taken, after, _⟩ := perform_written limited settings coloured action
  have written : met.2.2 = limited.output.accepted freely.2.2 ∧
      met.1.output = limited.output.after freely.2.2 := by
    rw [taken, after]
    cases fits : output.fits text with
    | true =>
        rw [follows.text_eq fits]
        exact ⟨rfl, rfl⟩
    | false =>
        have full := Output.room_after_of_refused fits
        simp only [follows.output_eq, Output.accepted_of_full full, Output.after_of_full full,
          and_self]
  rw [follows.output_eq, ← Output.after_append] at written
  refine ⟨⟨written.2, (perform_free follows.unlimited settings coloured action).2.1, ?_, ?_, ?_⟩,
    written.1⟩
  · exact reachable_perform follows.reachable settings coloured action
  · exact reachable_perform follows.reachable_free settings coloured action
  · exact fun all => ((follows.outcome settings coloured action).1 all).1

theorem Follows.run (follows : Follows trace output text limited free)
    (settings : RenderSettings) (coloured : Bool) (actions : List DisplayAction) :
    let freely := free.run settings coloured actions
    let met := limited.run settings coloured actions
    Follows trace output (text ++ freely.2) met.1 freely.1 ∧
      met.2 = (output.after text).accepted freely.2 := by
  induction actions generalizing text limited free with
  | nil => exact ⟨(List.append_nil text).symm ▸ follows, (Output.accepted_nil _).symm⟩
  | cons action actions ih =>
      obtain ⟨follows', taken⟩ := follows.perform settings coloured action
      obtain ⟨ended, taken'⟩ := ih follows'
      simp only [Display.run]
      rw [← List.append_assoc, Output.accepted_append, ← taken, ← Output.after_append, ← taken']
      exact ⟨ended, rfl⟩

section Room

variable {room : Nat} {refusal : String}

theorem Follows.within (follows : Follows trace ⟨some room, refusal⟩ text limited free)
    (settings : RenderSettings) (coloured : Bool) (action : DisplayAction) :
    let freely := free.perform settings coloured action
    let met := limited.perform settings coloured action
    text.length + freely.2.2.length ≤ room →
      met.1.cursor = freely.1.cursor ∧ met.2 = freely.2 := by
  intro freely met enough
  rw [← List.length_append] at enough
  exact (follows.outcome settings coloured action).1 (decide_eq_true enough)

theorem Follows.beyond (follows : Follows trace ⟨some room, refusal⟩ text limited free)
    (settings : RenderSettings) (coloured : Bool) (action : DisplayAction) :
    let freely := free.perform settings coloured action
    let met := limited.perform settings coloured action
    room < text.length + freely.2.2.length →
      met.2.2 = freely.2.2.take (room - text.length) ∧ (met.2.1 = .full ↔ freely.2.2 ≠ []) ∧
        met.1.output = ⟨some 0, refusal⟩ := by
  intro freely met exceeded
  rw [← List.length_append] at exceeded
  obtain ⟨follows', taken⟩ := follows.perform settings coloured action
  refine ⟨taken, ?_, ?_⟩
  · exact (follows.outcome settings coloured action).2 (decide_eq_false (Nat.not_le.mpr exceeded))
  · rw [follows'.output_eq]
    exact congrArg (Output.mk · refusal)
      (congrArg some (Nat.sub_eq_zero_of_le (Nat.le_of_lt exceeded)))

end Room

end Run

/-- An output with room for a number of bytes gets the front of what would be printed on one with room for
everything. Until the room is exceeded it makes no difference. From then on every action fails that has
something to print. -/
theorem run_cut_off {trace : Trace} {cursor : Cursor} (reachable : Reachable trace cursor)
    (settings : RenderSettings) (coloured : Bool) (actions : List DisplayAction) (room : Nat)
    (refusal : String) :
    let free : Display := ⟨cursor, ⟨none, refusal⟩⟩
    let limited : Display := ⟨cursor, ⟨some room, refusal⟩⟩
    (limited.run settings coloured actions).2 =
        (free.run settings coloured actions).2.take room ∧
      (∀ earlier action later, actions = earlier ++ action :: later →
        let freely := (free.run settings coloured earlier).1.perform settings coloured action
        let met := (limited.run settings coloured earlier).1.perform settings coloured action
        let before := (free.run settings coloured earlier).2.length
        let through := before + freely.2.2.length
        freely.2.1 ≠ .full ∧
          (through ≤ room → met.1.cursor = freely.1.cursor ∧ met.2 = freely.2) ∧
          (before ≤ room → room < through →
            met.2.1 = .full ∧ met.2.2 = freely.2.2.take (room - before) ∧
              met.1.output = ⟨some 0, refusal⟩) ∧
          (room < before →
            met.2.2 = [] ∧ (met.2.1 = .full ↔ freely.2.2 ≠ []) ∧
              met.1.output = ⟨some 0, refusal⟩)) ∧
      -- and so it is write by write, with each colour reset even after a text that was refused
      ∀ (parting : Parting) (script : Script) (output : Output),
        parting.print coloured script output = script.print coloured output := by
  intro free limited
  have start : Follows trace limited.output [] limited free := .start reachable rfl limited.output
  have front := (start.run settings coloured actions).2
  rw [Output.after_nil] at front
  refine ⟨front, ?_, fun parting script output => parting.print_eq coloured script output⟩
  intro earlier action later _ freely met before through
  obtain ⟨follows, _⟩ := start.run settings coloured earlier
  rw [List.nil_append] at follows
  obtain ⟨_, _, notFull⟩ := perform_free follows.unlimited settings coloured action
  refine ⟨notFull, follows.within settings coloured action, fun within exceeded => ?_,
    fun exceeded => ?_⟩
  · obtain ⟨taken, full, spent⟩ := follows.beyond settings coloured action exceeded
    have speaks : freely.2.2 ≠ [] := by
      intro silent
      have nothing : freely.2.2.length = 0 := congrArg List.length silent
      omega
    exact ⟨full.mpr speaks, taken, spent⟩
  · obtain ⟨taken, full, spent⟩ := follows.beyond settings coloured action
      (Nat.lt_of_lt_of_le exceeded (Nat.le_add_right _ _))
    rw [Nat.sub_eq_zero_of_le (Nat.le_of_lt exceeded), List.take_zero] at taken
    exact ⟨taken, full, spent⟩

/-- A coloured dump that is cut off in the line of a subroutine, also when it is written byte by byte, and an error that
is shown after it. -/
theorem run_cut_off_in_subroutine :
    let settings : RenderSettings := { RenderSettings.defaults with showNested := true }
    let line : DisplayAction := .present .line
    let report : DisplayAction := .present (.error "x")
    let free : Display := ⟨Cursor.start callingTrace, ⟨none, "no room"⟩⟩
    let limited : Display := ⟨Cursor.start callingTrace, ⟨some 120, "no room"⟩⟩
    let shown := (limited.run settings true [line]).1
    let cut := shown.perform settings true (.present (.dump 1))
    let last := (limited.run settings true [line, .present (.dump 1), .move .leave]).1.perform settings true report
    (limited.run settings true [line, .present (.dump 1), .move .leave, report]).2 =
        (free.run settings true [line, .present (.dump 1), .move .leave, report]).2.take 120 ∧
      (limited.perform settings true line).2 = (free.perform settings true line).2 ∧
      cut.2.1 = .full ∧ cut.1.cursor.frames = [⟨1, 0⟩, ⟨1, 0⟩] ∧
      (∃ script, shown.cursor.script settings (.dump 1) = .ok script ∧
        let parted := Parting.bytewise.print true script shown.output
        parted.bytes = cut.2.2 ∧ parted.cursor = cut.1.cursor ∧ parted.complete = false) ∧
      last.2.1 = .full ∧ last.2.2 = [] ∧ last.1.output = ⟨some 0, "no room"⟩ := by
  intro settings line report
  have reachable : Reachable callingTrace (Cursor.start callingTrace) := .start
  obtain ⟨front, outcomes, writes⟩ :=
    run_cut_off reachable settings true [line, .present (.dump 1), .move .leave, report] 120 "no room"
  obtain ⟨_, inStep, _⟩ := outcomes [] line [.present (.dump 1), .move .leave, report] rfl
  obtain ⟨_, _, crossing, _⟩ := outcomes [line] (.present (.dump 1)) [.move .leave, report] rfl
  obtain ⟨_, _, _, beyond⟩ := outcomes [line, .present (.dump 1), .move .leave] report [] rfl
  obtain ⟨cutOff, _⟩ := crossing (by decide +kernel) (by decide +kernel)
  obtain ⟨nothing, fails, spent⟩ := beyond (by decide +kernel)
  have failed := fails.mpr (by decide +kernel)
  obtain ⟨script, shows, printed⟩ := printed_of_full cutOff
  refine ⟨front, (inStep (by decide +kernel)).2, cutOff, by decide +kernel, ⟨script, shows, ?_⟩, failed,
    nothing, spent⟩
  rw [writes]
  exact printed

end Display

end TraceReplay
