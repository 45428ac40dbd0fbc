import TraceReplay.Proofs.Cursor.Placement
import TraceReplay.Proofs.Render.Writing
import TraceReplay.Proofs.Text.Utf8
import TraceReplay.Render.Display

/-!
What is known of a showing before it is printed: the cursors that it may be cut off at, and that it has
something to print unless it is refused.
-/
namespace TraceReplay

namespace Cursor

variable {trace : Trace} {cursor : Cursor}

theorem reachable_dumpedInside? (reachable : Reachable trace cursor) {settings : RenderSettings}
    {inside : Cursor} (enters : cursor.dumpedInside? settings = some inside) :
    Reachable trace inside := by
  have moved := reachable.perform .enter
  rw [perform] at moved
  rw [dumpedInside?] at enters
  split at enters
  next =>
      cases entry : cursor.enter with
      | ok target =>
          rw [entry] at moved enters
          cases enters
          exact moved
      | error error =>
          rw [entry] at enters
          cases enters
  next => cases enters

theorem reachable_next? (reachable : Reachable trace cursor) {next : Cursor}
    (step : cursor.next? = some next) : Reachable trace next := by
  have moved := reachable.perform .forward
  rwa [perform, step] at moved

theorem reachable_onwardFrom {held : Trace} {m : Nat} {frame : Frame} {owners : List Frame}
    (reachable : Reachable trace ⟨held, m, frame, owners⟩) {stop : Cursor}
    (ends : onwardFrom held m frame owners = .ok stop ∨
      onwardFrom held m frame owners = .error stop) : Reachable trace stop := by
  induction owners generalizing frame with
  | nil =>
      rw [onwardFrom] at ends
      split at ends
      next next step =>
          obtain ⟨⟨⟩⟩ | ⟨⟨⟩⟩ := ends
          exact reachable_next? reachable step
      next =>
          obtain ⟨⟨⟩⟩ | ⟨⟨⟩⟩ := ends
          exact reachable
  | cons owner owners ih =>
      rw [onwardFrom] at ends
      split at ends
      next next step =>
          obtain ⟨⟨⟩⟩ | ⟨⟨⟩⟩ := ends
          exact reachable_next? reachable step
      next => exact ih (reachable.perform .leave) ends

/-- A dump moves by single steps, into sub-traces and out of them. -/
theorem reachable_dumpFrom (reachable : Reachable trace cursor) (settings : RenderSettings)
    (m limit : Nat) :
    ∀ stop ∈ (dumpFrom settings m limit cursor).cursors, Reachable trace stop := by
  fun_induction dumpFrom settings m limit cursor with
  | case1 cursor => exact List.forall_mem_singleton.mpr reachable
  | case2 cursor limit scene inside enters ih =>
      exact List.forall_mem_cons.mpr ⟨reachable, ih (reachable_dumpedInside? reachable enters)⟩
  | case3 cursor limit scene _ outside ends =>
      exact List.forall_mem_cons.mpr ⟨reachable,
        List.forall_mem_singleton.mpr (reachable_onwardFrom reachable (.inr ends))⟩
  | case4 cursor limit scene _ next goes _ =>
      exact List.forall_mem_cons.mpr ⟨reachable,
        List.forall_mem_singleton.mpr (reachable_onwardFrom reachable (.inl goes))⟩
  | case5 cursor limit scene _ next goes _ ih =>
      exact List.forall_mem_cons.mpr ⟨reachable, ih (reachable_onwardFrom reachable (.inl goes))⟩

theorem reachable_dumpHere (reachable : Reachable trace cursor) (settings : RenderSettings) :
    ∀ stop ∈ (cursor.dumpHere settings).cursors, Reachable trace stop := by
  have still : ∀ pieces, ∀ stop ∈ (Script.still cursor pieces).cursors, Reachable trace stop :=
    fun _ => List.forall_mem_cons.mpr ⟨reachable, List.forall_mem_singleton.mpr reachable⟩
  rw [dumpHere]
  split
  next => exact still []
  next method _ =>
      dsimp only
      split
      next => exact List.forall_mem_cons.mpr ⟨reachable, reachable_dumpFrom reachable settings _ _⟩
      next => exact List.forall_mem_cons.mpr ⟨reachable, still _⟩

/-- Wherever a showing is cut off, the cursor stands where moves could have brought it. -/
theorem reachable_script (reachable : Reachable trace cursor) {settings : RenderSettings}
    {showing : Showing} {script : Script} (shows : cursor.script settings showing = .ok script) :
    ∀ stop ∈ script.cursors, Reachable trace stop := by
  cases showing with
  | dump m =>
      have landed := reachable.perform (.method m)
      rw [perform] at landed
      rw [Cursor.script, dump] at shows
      cases jump : cursor.jumpToMethod m with
      | error error =>
          rw [jump] at shows
          cases shows
      | ok landing =>
          rw [jump] at landed shows
          cases shows
          exact reachable_dumpHere landed settings
  | _ =>
      cases shows
      exact List.forall_mem_cons.mpr ⟨reachable, List.forall_mem_singleton.mpr reachable⟩

end Cursor

theorem toList_append_ne_nil {text last : String} (notEmpty : last.toList ≠ []) : (text ++ last).toList ≠ [] := by
  rw [String.toList_append]
  exact List.append_ne_nil_of_right_ne_nil _ notEmpty

def Script.Speaks (script : Script) : Prop :=
  ∃ scene ∈ script.scenes, ∃ text, Piece.plain text ∈ scene.2 ∧ text.toList ≠ []

theorem Script.Speaks.bytes_ne_nil {script : Script} (speaks : script.Speaks) (coloured : Bool) :
    script.bytes coloured ≠ [] := by
  obtain ⟨scene, inScript, text, inScene, notEmpty⟩ := speaks
  intro silent
  have noPiece := List.flatMap_eq_nil_iff.mp (List.flatMap_eq_nil_iff.mp silent scene inScript)
  have noText : Utf8.encode text = [] := noPiece _ inScene
  have short := Utf8.length_le_length_ofChars text.toList
  rw [← Utf8.encode_ofList, String.ofList_toList, noText] at short
  exact notEmpty (List.eq_nil_of_length_eq_zero (Nat.le_zero.mp short))

namespace Cursor

theorem dumpHere_speaks {cursor : Cursor} {method : MethodTrace}
    (here : cursor.currentMethod? = some method) (settings : RenderSettings) :
    (cursor.dumpHere settings).Speaks := by
  rw [dumpHere, here]
  dsimp only
  split <;>
    exact ⟨_, List.mem_cons_self, _, List.mem_cons_of_mem _ List.mem_cons_self, by simp⟩

/-- Whatever is not refused has something to print. -/
theorem script_speaks {cursor : Cursor} {settings : RenderSettings} {showing : Showing}
    {script : Script} (shows : cursor.script settings showing = .ok script) : script.Speaks := by
  cases showing with
  | view =>
      cases shows
      refine ⟨_, List.mem_singleton_self _, ?_⟩
      change ∃ text, Piece.plain text ∈ cursor.view settings ∧ text.toList ≠ []
      rw [view]
      split
      next => exact ⟨_, List.mem_singleton_self _, by decide⟩
      next => exact ⟨cursor.standing, by simp, toList_append_ne_nil (by decide)⟩
  | line =>
      cases shows
      exact ⟨_, List.mem_singleton_self _, _,
        List.mem_append_right _ (List.mem_singleton_self _), by simp⟩
  | summary path =>
      cases shows
      exact ⟨_, List.mem_singleton_self _, _,
        List.mem_append_left _ (List.mem_cons_of_mem _ List.mem_cons_self), by simp⟩
  | error message =>
      cases shows
      exact ⟨_, List.mem_singleton_self _, _, List.mem_cons_of_mem _ List.mem_cons_self, by simp⟩
  | dump m =>
      rw [Cursor.script, dump, jumpToMethod] at shows
      split at shows
      next target found =>
          cases shows
          have here : (Cursor.mk cursor.trace m ((firstStep target.blocks 0).getD .start)
              []).currentMethod? = some target := found
          exact dumpHere_speaks here settings
      next => cases shows

/-- What is refused is a matter of the trace alone. -/
theorem script_isOk_of_trace_eq {first second : Cursor} (same : first.trace = second.trace)
    (settings : RenderSettings) (showing : Showing) :
    (first.script settings showing).isOk = (second.script settings showing).isOk := by
  cases showing with
  | dump m =>
      rw [script, script, dump, dump, jumpToMethod, jumpToMethod, same]
  | _ => rfl

end Cursor

end TraceReplay
