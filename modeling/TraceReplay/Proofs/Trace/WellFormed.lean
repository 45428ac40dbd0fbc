import TraceReplay.Proofs.Load
import TraceReplay.Proofs.Trace.Level

/-!
The traces that pass the check are the well-formed ones. Comparing neighbours puts all instructions of a
method in order, and the stack of lists comes to every block of a method, however deep it stands.
-/
namespace TraceReplay

/-- A block of a list or, at any depth, of a sub-trace in it. -/
inductive Occurs (block : BlockEvaluation) : List BlockEvaluation → Prop
  | here {blocks : List BlockEvaluation} : block ∈ blocks → Occurs block blocks
  | inside {blocks inner : List BlockEvaluation} {outer : BlockEvaluation}
      {evaluation : InstructionEvaluation} :
      outer ∈ blocks → evaluation ∈ outer.evaluations → evaluation.nestedBlocks = some inner →
      Occurs block inner → Occurs block blocks

/-- The instructions of a method stand in the order of their offsets, and no handler at any depth has a
range that ends before it starts. -/
structure MethodTrace.WellFormed (method : MethodTrace) : Prop where
  ordered : method.instructions.Pairwise (·.offset < ·.offset)
  ranges : ∀ block handler, Occurs block method.blocks → block.exceptionHandler = some handler →
    handler.catchStart ≤ handler.catchEnd

def Trace.WellFormed (trace : Trace) : Prop := ∀ method ∈ trace.methods, method.WellFormed

/-- A search through numbered items comes up empty just if it would for each item. -/
theorem findSome?_zipIdx_eq_none_iff {α β : Type} {items : List α} {find : α × Nat → Option β}
    {silent : α → Prop} (each : ∀ x i, find (x, i) = none ↔ silent x) :
    items.zipIdx.findSome? find = none ↔ ∀ x ∈ items, silent x := by
  rw [List.findSome?_eq_none_iff]
  constructor
  · intro empty x mem
    obtain ⟨i, at_item⟩ := List.mem_iff_getElem?.mp mem
    exact (each x i).mp (empty (x, i) (List.mem_zipIdx_iff_getElem?.mpr at_item))
  · intro all ⟨x, i⟩ mem
    have at_item := List.mem_zipIdx_iff_getElem?.mp mem
    exact (each x i).mpr (all x (List.mem_of_getElem? at_item))

section Instructions

theorem Instruction.firstUnordered_eq_none_iff_isChain {instructions : List Instruction} {k : Nat} :
    firstUnordered k instructions = none ↔ instructions.IsChain (·.offset < ·.offset) := by
  induction instructions generalizing k with
  | nil => simp [firstUnordered]
  | cons first rest ih =>
      cases rest with
      | nil => simp [firstUnordered]
      | cons next rest =>
          rw [firstUnordered, List.isChain_cons_cons, ← UInt64.not_le]
          split
          case isTrue disordered => simp [disordered]
          case isFalse ordered => simp only [ordered, not_false_eq_true, true_and, ih]

/-- To compare neighbours is enough, as the order is transitive. -/
theorem Instruction.firstUnordered_eq_none_iff {instructions : List Instruction} {k : Nat} :
    firstUnordered k instructions = none ↔ instructions.Pairwise (·.offset < ·.offset) := by
  rw [firstUnordered_eq_none_iff_isChain]
  have transitive : IsTrans Instruction (·.offset < ·.offset) :=
    ⟨fun _ _ _ first second => UInt64.lt_trans first second⟩
  exact List.isChain_iff_pairwise

end Instructions

section Handlers

theorem ExceptionHandler.violation?_eq_none_iff {handler : ExceptionHandler} :
    handler.violation? = none ↔ handler.catchStart ≤ handler.catchEnd := by
  rw [violation?, ← UInt64.not_lt]
  split <;> simp [*]

theorem exists_evaluation?_iff {blocks : List BlockEvaluation} {evaluation : InstructionEvaluation} :
    (∃ frame : Frame, frame.evaluation? blocks = some evaluation) ↔
      ∃ block ∈ blocks, evaluation ∈ block.evaluations := by
  constructor
  · intro ⟨frame, named⟩
    obtain ⟨block, at_block, at_eval⟩ := Option.bind_eq_some_iff.mp named
    exact ⟨block, List.mem_of_getElem? at_block, List.mem_of_getElem? at_eval⟩
  · intro ⟨block, mem, mem'⟩
    obtain ⟨b, at_block⟩ := List.mem_iff_getElem?.mp mem
    obtain ⟨e, at_eval⟩ := List.mem_iff_getElem?.mp mem'
    exact ⟨⟨b, e⟩, Option.bind_eq_some_iff.mpr ⟨block, at_block, at_eval⟩⟩

namespace Level

theorem misfit?_eq_none_iff {level : Level} :
    level.misfit? = none ↔ ∀ block ∈ level.blocks, ∀ handler,
      block.exceptionHandler = some handler → handler.catchStart ≤ handler.catchEnd := by
  refine findSome?_zipIdx_eq_none_iff fun block b => ?_
  cases here : block.exceptionHandler with
  | none => simp [here]
  | some handler =>
      simp only [Option.some_inj, forall_eq', ← ExceptionHandler.violation?_eq_none_iff]
      cases broken : handler.violation? <;> simp [here, broken]

theorem occurs_of_mem_below {block : BlockEvaluation} {level lower : Level}
    (mem : lower ∈ level.below) (here : block ∈ lower.blocks) : Occurs block level.blocks := by
  induction level using subTraces_induction with
  | step level ih =>
      obtain rfl | ⟨sub, owned, mem⟩ := mem_below_iff.mp mem
      · exact .here here
      · obtain ⟨frame, evaluation, named, nested, _⟩ := mem_subTraces.mp owned
        obtain ⟨outer, outside, holds⟩ := exists_evaluation?_iff.mp ⟨frame, named⟩
        exact .inside outside holds nested (ih sub owned mem)

theorem exists_mem_below_of_occurs {block : BlockEvaluation} {blocks : List BlockEvaluation}
    (occurs : Occurs block blocks) (owners : List Frame) :
    ∃ lower ∈ below ⟨owners, blocks⟩, block ∈ lower.blocks := by
  induction occurs generalizing owners with
  | here mem => exact ⟨_, mem_below_iff.mpr (.inl rfl), mem⟩
  | inside outside holds nested _ ih =>
      obtain ⟨frame, named⟩ := exists_evaluation?_iff.mpr ⟨_, outside, holds⟩
      obtain ⟨lower, mem, here⟩ := ih (frame :: owners)
      have owned : ⟨frame :: owners, _⟩ ∈ subTraces ⟨owners, _⟩ :=
        mem_subTraces.mpr ⟨frame, _, named, nested, rfl⟩
      exact ⟨lower, mem_below_iff.mpr (.inr ⟨_, owned, mem⟩), here⟩

/-- The blocks of all lists that come off the stack are all there are. -/
theorem exists_mem_all_iff {block : BlockEvaluation} {blocks : List BlockEvaluation} :
    (∃ level ∈ all blocks, block ∈ level.blocks) ↔ Occurs block blocks := by
  rw [all_eq_below]
  constructor
  · intro ⟨lower, mem, here⟩
    exact occurs_of_mem_below mem here
  · intro occurs
    exact exists_mem_below_of_occurs occurs []

end Level

end Handlers

theorem MethodTrace.misfit?_eq_none_iff {method : MethodTrace} :
    method.misfit? = none ↔ method.WellFormed := by
  have ranges : (Level.all method.blocks).findSome? Level.misfit? = none ↔
      ∀ block handler, Occurs block method.blocks → block.exceptionHandler = some handler →
        handler.catchStart ≤ handler.catchEnd := by
    rw [List.findSome?_eq_none_iff]
    constructor
    · intro silent block handler occurs here
      obtain ⟨level, mem, inLevel⟩ := Level.exists_mem_all_iff.mpr occurs
      exact Level.misfit?_eq_none_iff.mp (silent level mem) block inLevel handler here
    · intro ranges level mem
      exact Level.misfit?_eq_none_iff.mpr fun block inLevel handler =>
        ranges block handler (Level.exists_mem_all_iff.mp ⟨level, mem, inLevel⟩)
  rw [misfit?]
  cases order : Instruction.firstUnordered 0 method.instructions with
  | some first =>
      refine iff_of_false (Option.some_ne_none _) fun wellFormed => ?_
      rw [Instruction.firstUnordered_eq_none_iff.mpr wellFormed.ordered] at order
      cases order
  | none =>
      have ordered := Instruction.firstUnordered_eq_none_iff.mp order
      exact ranges.trans ⟨fun ranges => ⟨ordered, ranges⟩, fun wellFormed => wellFormed.ranges⟩

namespace Trace

theorem misfit?_eq_none_iff {trace : Trace} : trace.misfit? = none ↔ trace.WellFormed :=
  findSome?_zipIdx_eq_none_iff fun _ _ =>
    Option.map_eq_none_iff.trans MethodTrace.misfit?_eq_none_iff

theorem WellFormed.nodup_offsets {trace : Trace} (wellFormed : trace.WellFormed)
    {method : MethodTrace} (mem : method ∈ trace.methods) :
    (method.instructions.map Instruction.offset).Nodup :=
  List.pairwise_map.mpr ((wellFormed method mem).ordered.imp UInt64.ne_of_lt)

/-- A trace passes the check just if it is well-formed; so a load fails or gives a well-formed trace. -/
theorem checked_iff_wellFormed :
    (∀ trace : Trace, trace.misfit? = none ↔ trace.WellFormed) ∧
      (∀ trace : Trace, trace.checked = .ok trace ↔ trace.WellFormed) ∧
      (∀ trace : Trace, trace.WellFormed → ∀ method ∈ trace.methods,
        (method.instructions.map Instruction.offset).Nodup) ∧
      ∀ document, (∃ error, load document = .error error) ∨
        ∃ trace, load document = .ok trace ∧ trace.WellFormed := by
  refine ⟨fun trace => misfit?_eq_none_iff, fun trace => ?_, fun trace wellFormed method mem =>
    wellFormed.nodup_offsets mem, fun document => ?_⟩
  · rw [checked_eq_ok_iff, misfit?_eq_none_iff]
    exact and_iff_right rfl
  · cases loaded : load document with
    | error error => exact .inl ⟨error, rfl⟩
    | ok trace => exact .inr ⟨trace, rfl, misfit?_eq_none_iff.mp (misfit?_of_load loaded)⟩

def handlerTrace (catchEnd : Offset) : Trace :=
  let call (nested : List BlockEvaluation) : InstructionEvaluation :=
    ⟨false, false, none, "jsr 8", 0, none, [], [], some nested⟩
  let block (evaluations : List InstructionEvaluation) : BlockEvaluation :=
    ⟨0, [], [], none, [], evaluations⟩
  let handler : BlockEvaluation := { block [] with exceptionHandler := some ⟨6, catchEnd, 9, none⟩ }
  ⟨[⟨"A", "m()V", [⟨0, "jsr 8"⟩, ⟨8, "ret"⟩], [], none,
    [block [], block [call [], call [block [call [block [], handler]]]]]⟩]⟩

/-- The check comes down to the handler. -/
theorem checked_iff_wellFormed_handler :
    (handlerTrace 6).WellFormed ∧ ¬ (handlerTrace 5).WellFormed ∧
      ∀ method ∈ (handlerTrace 6).methods,
        (method.instructions.map Instruction.offset).Nodup := by
  obtain ⟨valid, _, distinct, _⟩ := checked_iff_wellFormed
  have wellFormed : (handlerTrace 6).WellFormed := (valid _).mp rfl
  refine ⟨wellFormed, fun inverted => ?_, distinct _ wellFormed⟩
  cases (valid (handlerTrace 5)).mpr inverted

end Trace

end TraceReplay
