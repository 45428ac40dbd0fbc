import TraceReplay.Load
import TraceReplay.Proofs.Interchange.Document
import TraceReplay.Proofs.Interchange.Record

/-!
A trace that is written loads again as itself, in either layout, or with the violation it has. A trace
that was loaded has none.
-/
namespace TraceReplay.Trace

open Interchange

theorem decode_encode (trace : Trace) (layout : Layout) :
    decode (Utf8.encode (trace.encode layout)) = .ok trace.toDatum :=
  decode_write layout trace.roundTrips.fits

theorem load_encode_eq_checked (trace : Trace) (layout : Layout) :
    load (Utf8.encode (trace.encode layout)) = trace.checked := by
  rw [load, decode_encode]
  simp only [trace.roundTrips.back]

theorem checked_eq_ok_iff {trace loaded : Trace} :
    trace.checked = .ok loaded ↔ trace = loaded ∧ trace.misfit? = none := by
  rw [checked]
  cases trace.misfit? with
  | none => simp
  | some misfit => simp

theorem misfit?_of_load {document : Bytes} {trace : Trace} (loaded : load document = .ok trace) :
    trace.misfit? = none := by
  rw [load] at loaded
  cases decoded : decode document with
  | error fault =>
      rw [decoded] at loaded
      cases loaded
  | ok datum =>
      rw [decoded] at loaded
      obtain ⟨same, valid⟩ := checked_eq_ok_iff.mp loaded
      rwa [same] at valid

theorem misfit?_of_loadPieces {pieces : List (Except String Bytes)} {trace : Trace}
    (loaded : loadPieces pieces = .ok trace) : trace.misfit? = none := by
  rw [loadPieces] at loaded
  cases joined : pieces.mapM id with
  | error reason =>
      rw [joined] at loaded
      cases loaded
  | ok pieces =>
      rw [joined] at loaded
      exact misfit?_of_load loaded

/-- Writing a trace and loading it again gives the trace, or the violation that keeps it from being valid.
What the loader gave, from one piece or from many, is given again. -/
theorem load_encode (trace : Trace) (layout : Layout) :
    (decode (Utf8.encode (trace.encode layout))).map ofDatum = .ok trace ∧
      (trace.misfit? = none → load (Utf8.encode (trace.encode layout)) = .ok trace) ∧
      (∀ misfit, trace.misfit? = some misfit →
        load (Utf8.encode (trace.encode layout)) = .error (.invalid misfit)) ∧
      (∀ document, load document = .ok trace →
        load (Utf8.encode (trace.encode layout)) = .ok trace) ∧
      ∀ pieces, loadPieces pieces = .ok trace →
        load (Utf8.encode (trace.encode layout)) = .ok trace := by
  have valid : trace.misfit? = none → load (Utf8.encode (trace.encode layout)) = .ok trace := by
    intro none
    rw [load_encode_eq_checked]
    exact checked_eq_ok_iff.mpr ⟨rfl, none⟩
  refine ⟨?_, valid, ?_, fun document loaded => valid (misfit?_of_load loaded),
    fun pieces loaded => valid (misfit?_of_loadPieces loaded)⟩
  · rw [decode_encode]
    exact congrArg Except.ok trace.roundTrips.back
  · intro misfit found
    rw [load_encode_eq_checked, checked, found]

/-- A recording of one method with the largest numbers, text that needs escapes, and lists that are
absent, empty and nested. -/
def extremeTrace (catchEnd : Offset) : Trace :=
  let evaluation (nested : Option (List BlockEvaluation)) : InstructionEvaluation :=
    ⟨true, false, some 0xFFFFFFFF, "\"\\\x01\n𝄞", 0xFFFFFFFFFFFFFFFF, some [], ["é"], [], nested⟩
  let block (evaluations : List InstructionEvaluation) : BlockEvaluation :=
    ⟨0, [], [""], some ⟨7, catchEnd, 0, none⟩, [⟨1, [], ["\t"]⟩], evaluations⟩
  ⟨[⟨"a/B", "<init>", [⟨0, "nop"⟩, ⟨1, "ret"⟩], [], some ⟨1, "\x1f"⟩,
    [block [evaluation none, evaluation (some []), evaluation (some [block [evaluation none]])]]⟩]⟩

/-- Both ways a load can end, and reloads of what was loaded, at once and from pieces. -/
theorem load_encode_extreme :
    let compact := Utf8.encode ((extremeTrace 7).encode .compact)
    load compact = .ok (extremeTrace 7) ∧
      load (Utf8.encode ((extremeTrace 7).encode .pretty)) = .ok (extremeTrace 7) ∧
      loadPieces [.ok compact] = .ok (extremeTrace 7) ∧
      load (Utf8.encode ((extremeTrace 6).encode .compact)) = .error (.invalid
        ⟨[.field "codeAttributes", .index 0, .field "blockEvaluations", .index 0,
          .field "exceptionHandlerInfo"], .handlerRange 6 7⟩) := by
  intro compact
  obtain ⟨_, valid, _, reload, reloadPieces⟩ := load_encode (extremeTrace 7) .compact
  have loaded : load compact = .ok (extremeTrace 7) := valid rfl
  have piece : loadPieces [.ok compact] = load compact := by
    change load [compact].flatten = load compact
    rw [List.flatten_singleton]
  refine ⟨reload compact loaded, (load_encode (extremeTrace 7) .pretty).2.2.2.1 compact loaded,
    ?_, (load_encode (extremeTrace 6) .compact).2.2.1 _ rfl⟩
  rw [piece]
  exact reloadPieces [.ok compact] (piece.trans loaded)

end TraceReplay.Trace
