import TraceReplay.Proofs.Interchange.Location
import TraceReplay.Proofs.Trace.WellFormed

/-!
Which violation of a trace is reported. A recursion over the blocks of a method lists its handlers in the order in
which the stack comes to them, each at its place, and the place that is reported can be followed from the top of
the trace to what is at fault.
-/
namespace TraceReplay

open Interchange

/-- A handler at its place: the block that has it and the evaluations that own the list with the block,
innermost first. -/
structure PlacedHandler where
  owners : List Frame
  block : Nat
  handler : ExceptionHandler

namespace PlacedHandler

def Inverted (placed : PlacedHandler) : Prop := placed.handler.catchEnd < placed.handler.catchStart

def listPath : (owners : List Frame) → Path
  | [] => [.field "blockEvaluations"]
  | owner :: owners =>
    listPath owners ++
      [.index owner.block, .field "evaluations", .index owner.eval, .field "jsrBlockEvaluations"]

def path (placed : PlacedHandler) : Path :=
  listPath placed.owners ++ [.index placed.block, .field "exceptionHandlerInfo"]

def misfit (placed : PlacedHandler) : Misfit :=
  ⟨placed.path, .handlerRange placed.handler.catchEnd placed.handler.catchStart⟩

end PlacedHandler

def handlersOf (owners : List Frame) (blocks : List BlockEvaluation) : List PlacedHandler :=
  blocks.zipIdx.filterMap fun (block, b) => block.exceptionHandler.map (⟨owners, b, ·⟩)

mutual

/-- The handlers in the sub-traces of a list, from its block `b` on, with everything below them. The last
sub-trace comes first. -/
def handlersBelow (owners : List Frame) (b : Nat) : List BlockEvaluation → List PlacedHandler
  | [] => []
  | block :: blocks => handlersBelow owners (b + 1) blocks ++ block.handlersBelow owners b

def BlockEvaluation.handlersBelow (owners : List Frame) (b : Nat) : BlockEvaluation → List PlacedHandler
  | ⟨_, _, _, _, _, evaluations⟩ => handlersBelowEvaluations owners b 0 evaluations

def handlersBelowEvaluations (owners : List Frame) (b e : Nat) :
    List InstructionEvaluation → List PlacedHandler
  | [] => []
  | evaluation :: evaluations =>
    handlersBelowEvaluations owners b (e + 1) evaluations ++ evaluation.handlersBelow owners ⟨b, e⟩

def InstructionEvaluation.handlersBelow (owners : List Frame) (frame : Frame) :
    InstructionEvaluation → List PlacedHandler
  | ⟨_, _, _, _, _, _, _, _, none⟩ => []
  | ⟨_, _, _, _, _, _, _, _, some blocks⟩ =>
    handlersOf (frame :: owners) blocks ++ TraceReplay.handlersBelow (frame :: owners) 0 blocks

end

/-- All handlers of a list and below it: those of its blocks in order, then those of its sub-traces from the last
to the first, each with everything below it. -/
def handlersFrom (owners : List Frame) (blocks : List BlockEvaluation) : List PlacedHandler :=
  handlersOf owners blocks ++ handlersBelow owners 0 blocks

section Order

theorem InstructionEvaluation.handlersBelow_eq (owners : List Frame) (frame : Frame)
    (evaluation : InstructionEvaluation) :
    evaluation.handlersBelow owners frame =
      (evaluation.nestedBlocks.map (handlersFrom (frame :: owners))).getD [] := by
  obtain ⟨_, _, _, _, _, _, _, _, nested⟩ := evaluation
  cases nested with
  | none => rfl
  | some blocks => rfl

theorem handlersBelowEvaluations_eq_flatMap (owners : List Frame) (b e : Nat)
    (evaluations : List InstructionEvaluation) :
    handlersBelowEvaluations owners b e evaluations =
      (evaluations.zipIdx e).reverse.flatMap fun (evaluation, e) =>
        evaluation.handlersBelow owners ⟨b, e⟩ := by
  induction evaluations generalizing e with
  | nil => rfl
  | cons evaluation evaluations ih =>
      rw [handlersBelowEvaluations, ih, List.zipIdx_cons, List.reverse_cons, List.flatMap_append,
        List.flatMap_singleton]

theorem handlersBelow_eq_flatMap (owners : List Frame) (b : Nat) (blocks : List BlockEvaluation) :
    handlersBelow owners b blocks =
      (blocks.zipIdx b).reverse.flatMap fun (block, b) => block.handlersBelow owners b := by
  induction blocks generalizing b with
  | nil => rfl
  | cons block blocks ih =>
      rw [handlersBelow, ih, List.zipIdx_cons, List.reverse_cons, List.flatMap_append,
        List.flatMap_singleton]

theorem BlockEvaluation.handlersBelow_eq (owners : List Frame) (b : Nat) (block : BlockEvaluation) :
    block.handlersBelow owners b = block.evaluations.zipIdx.reverse.flatMap fun (evaluation, e) =>
      (evaluation.nestedBlocks.map (handlersFrom (⟨b, e⟩ :: owners))).getD [] := by
  cases block
  simp only [BlockEvaluation.handlersBelow, handlersBelowEvaluations_eq_flatMap,
    InstructionEvaluation.handlersBelow_eq]

/-- The recursion comes to the sub-traces of a list in the order in which they leave the stack. -/
theorem handlersBelow_eq_subTraces (level : Level) :
    handlersBelow level.owners 0 level.blocks =
      level.subTraces.reverse.flatMap fun sub => handlersFrom sub.owners sub.blocks := by
  rw [handlersBelow_eq_flatMap, Level.subTraces, List.reverse_flatMap, List.flatMap_assoc]
  refine congrArg (List.flatMap · _) (funext fun (block, b) => ?_)
  dsimp only [Function.comp_apply]
  rw [BlockEvaluation.handlersBelow_eq, ← List.filterMap_reverse, List.filterMap_eq_flatMap_toList,
    List.flatMap_assoc]
  refine congrArg (List.flatMap · _) (funext fun (evaluation, e) => ?_)
  dsimp only
  cases evaluation.nestedBlocks with
  | none => rfl
  | some blocks => simp

theorem handlersFrom_eq_below (level : Level) :
    handlersFrom level.owners level.blocks =
      level.below.flatMap fun lower => handlersOf lower.owners lower.blocks := by
  induction level using Level.subTraces_induction with
  | step level ih =>
      rw [handlersFrom, handlersBelow_eq_subTraces, Level.below_eq, List.flatMap_cons, List.flatMap_assoc]
      exact congrArg _ (List.flatMap_congr fun sub mem => ih sub (List.mem_reverse.mp mem))

end Order

section First

instance : DecidablePred PlacedHandler.Inverted := fun placed =>
  inferInstanceAs (Decidable (placed.handler.catchEnd < placed.handler.catchStart))

theorem Level.path_eq_listPath (level : Level) : level.path = PlacedHandler.listPath level.owners := by
  obtain ⟨owners, blocks⟩ := level
  induction owners with
  | nil => rfl
  | cons owner owners ih =>
      rw [PlacedHandler.listPath, ← ih]
      simp [Level.path]

/-- The first block of a list that has an inverted handler gives the first inverted handler of the list. -/
theorem Level.misfit?_eq_find? (level : Level) :
    level.misfit? = ((handlersOf level.owners level.blocks).find? (·.Inverted)).map
      PlacedHandler.misfit := by
  rw [handlersOf, List.filterMap_eq_flatMap_toList, List.find?_flatMap, List.map_findSome?, misfit?]
  refine congrArg (List.findSome? · _) (funext fun (block, b) => ?_)
  dsimp only [Function.comp_apply]
  cases block.exceptionHandler with
  | none => rfl
  | some handler =>
      by_cases inverted : handler.catchEnd < handler.catchStart
      · simp [ExceptionHandler.violation?, PlacedHandler.Inverted, PlacedHandler.misfit, PlacedHandler.path,
          path_eq_listPath, inverted]
      · simp [ExceptionHandler.violation?, PlacedHandler.Inverted, inverted]

theorem MethodTrace.misfit?_of_ordered {method : MethodTrace}
    (ordered : Instruction.firstUnordered 0 method.instructions = none) :
    method.misfit? = ((handlersFrom [] method.blocks).find? (·.Inverted)).map PlacedHandler.misfit := by
  rw [misfit?, ordered]
  have order : handlersFrom [] method.blocks = _ := handlersFrom_eq_below (.top method.blocks)
  rw [order, List.find?_flatMap, List.map_findSome?]
  exact congrArg (List.findSome? · _) (funext Level.misfit?_eq_find?)

end First

section Instructions

/-- The instruction after the one with index `k` has an offset that is not greater. -/
structure Instruction.Disordered (instructions : List Instruction) (k : Nat) (previous next : Instruction) :
    Prop where
  before : instructions[k]? = some previous
  after : instructions[k + 1]? = some next
  disordered : next.offset ≤ previous.offset

theorem Instruction.disordered_cons_succ {first previous next : Instruction} {rest : List Instruction} {k : Nat} :
    Disordered (first :: rest) (k + 1) previous next ↔ Disordered rest k previous next :=
  ⟨fun ⟨before, after, disordered⟩ => ⟨before, after, disordered⟩,
    fun ⟨before, after, disordered⟩ => ⟨before, after, disordered⟩⟩

theorem Instruction.not_disordered_of_pairwise {instructions : List Instruction} {k : Nat}
    {previous next : Instruction} (ordered : instructions.Pairwise (·.offset < ·.offset)) :
    ¬ Disordered instructions k previous next := by
  rintro ⟨before, after, disordered⟩
  obtain ⟨_, rfl⟩ := List.getElem?_eq_some_iff.mp before
  obtain ⟨_, rfl⟩ := List.getElem?_eq_some_iff.mp after
  exact UInt64.not_le.mpr (List.pairwise_iff_getElem.mp ordered k (k + 1) _ _ (Nat.lt_succ_self k)) disordered

/-- What is reported of instructions is the first one that is out of order. -/
theorem Instruction.disordered_of_firstUnordered {instructions : List Instruction} {index place : Nat}
    {violation : Violation} (found : firstUnordered index instructions = some (place, violation)) :
    ∃ k previous next, place = index + k + 1 ∧ violation = .offsetOrder next.offset previous.offset ∧
      Disordered instructions k previous next ∧
      ∀ j < k, ∀ earlier later, ¬ Disordered instructions j earlier later := by
  induction instructions generalizing index with
  | nil => cases found
  | cons previous rest ih =>
      cases rest with
      | nil => cases found
      | cons next rest =>
          rw [firstUnordered] at found
          split at found
          case isTrue disordered =>
              cases found
              exact ⟨0, previous, next, rfl, rfl, ⟨rfl, rfl, disordered⟩, fun j before => by omega⟩
          case isFalse ordered =>
              obtain ⟨k, earlier, later, rfl, rfl, here, least⟩ := ih found
              refine ⟨k + 1, earlier, later, by omega, rfl, disordered_cons_succ.mpr here, ?_⟩
              intro j before earlier later
              cases j with
              | zero =>
                  rintro ⟨first, second, disordered⟩
                  cases first
                  cases second
                  exact ordered disordered
              | succ j => exact fun there => least j (by omega) _ _ (disordered_cons_succ.mp there)

end Instructions

section Places

theorem BlockEvaluation.step?_evaluations (block : BlockEvaluation) :
    block.toDatum.step? (.field "evaluations") = some (.list (evaluationsToData block.evaluations)) := by
  cases block
  rw [BlockEvaluation.toDatum]
  rfl

theorem BlockEvaluation.step?_exceptionHandler (block : BlockEvaluation) :
    block.toDatum.step? (.field "exceptionHandlerInfo") =
      some (.ofOption ExceptionHandler.toDatum block.exceptionHandler) := by
  cases block
  rw [BlockEvaluation.toDatum]
  rfl

theorem InstructionEvaluation.step?_nestedBlocks (evaluation : InstructionEvaluation) :
    evaluation.toDatum.step? (.field "jsrBlockEvaluations") =
      some (nestedBlocksToDatum evaluation.nestedBlocks) := by
  cases evaluation
  rw [InstructionEvaluation.toDatum]
  rfl

theorem at?_index_blocks {blocks : List BlockEvaluation} {b : Nat} {block : BlockEvaluation} {path : Path}
    (here : blocks[b]? = some block) :
    (Datum.list (blocksToData blocks)).at? (.index b :: path) = block.toDatum.at? path :=
  Datum.at?_cons (by simp [Datum.step?, blocksToData_eq_map, here])

/-- The steps from a list of blocks to the sub-trace of one of its evaluations. -/
theorem at?_owner {blocks inner : List BlockEvaluation} {owner : Frame} {evaluation : InstructionEvaluation}
    (named : owner.evaluation? blocks = some evaluation) (nested : evaluation.nestedBlocks = some inner) :
    (Datum.list (blocksToData blocks)).at?
      [.index owner.block, .field "evaluations", .index owner.eval, .field "jsrBlockEvaluations"] =
        some (.list (blocksToData inner)) := by
  obtain ⟨block, at_block, at_eval⟩ := Option.bind_eq_some_iff.mp named
  have step : (Datum.list (evaluationsToData block.evaluations)).step? (.index owner.eval) =
      some evaluation.toDatum := by
    simp [Datum.step?, evaluationsToData_eq_map, at_eval]
  rw [at?_index_blocks at_block, Datum.at?_cons block.step?_evaluations, Datum.at?_cons step,
    Datum.at?_cons evaluation.step?_nestedBlocks, nested]
  rfl

theorem MethodTrace.at?_listPath {method : MethodTrace} {lower : Level}
    (mem : lower ∈ (Level.top method.blocks).below) :
    method.toDatum.at? (PlacedHandler.listPath lower.owners) =
      some (.list (blocksToData lower.blocks)) := by
  refine Level.below_induction (motive := fun level => method.toDatum.at?
    (PlacedHandler.listPath level.owners) = some (.list (blocksToData level.blocks))) mem rfl ?_
  intro upper sub standing owned
  obtain ⟨frame, evaluation, named, nested, address⟩ := Level.mem_subTraces.mp owned
  rw [address, PlacedHandler.listPath, Datum.at?_append, standing, Option.bind_some]
  exact at?_owner named nested

/-- A handler stands at the place it is listed with. -/
theorem MethodTrace.at?_path {method : MethodTrace} {placed : PlacedHandler}
    (mem : placed ∈ handlersFrom [] method.blocks) :
    method.toDatum.at? placed.path = some placed.handler.toDatum := by
  have order : handlersFrom [] method.blocks = _ := handlersFrom_eq_below (.top method.blocks)
  rw [order] at mem
  obtain ⟨lower, below, mem⟩ := List.mem_flatMap.mp mem
  obtain ⟨⟨block, b⟩, at_block, made⟩ := List.mem_filterMap.mp mem
  obtain ⟨handler, here, rfl⟩ := Option.map_eq_some_iff.mp made
  rw [PlacedHandler.path, Datum.at?_append, at?_listPath below, Option.bind_some,
    at?_index_blocks (List.mem_zipIdx_iff_getElem?.mp at_block), Datum.at?_cons block.step?_exceptionHandler,
    here]
  rfl

theorem MethodTrace.at?_offset {method : MethodTrace} {k : Nat} {instruction : Instruction}
    (here : method.instructions[k]? = some instruction) :
    method.toDatum.at? [.field "instructions", .index k, .field "offset"] =
      some (.number instruction.offset.toNat) := by
  have inside : method.toDatum.step? (.field "instructions") =
      some (.list (method.instructions.map Instruction.toDatum)) := rfl
  have step : (Datum.list (method.instructions.map Instruction.toDatum)).step? (.index k) =
      some instruction.toDatum := by
    simp [Datum.step?, here]
  rw [Datum.at?_cons inside, Datum.at?_cons step]
  rfl

theorem Trace.at?_method {trace : Trace} {m : Nat} {method : MethodTrace} (path : Path)
    (here : trace.methods[m]? = some method) :
    trace.toDatum.at? (.field "codeAttributes" :: .index m :: path) = method.toDatum.at? path := by
  have inside : trace.toDatum.step? (.field "codeAttributes") =
      some (.list (trace.methods.map MethodTrace.toDatum)) := rfl
  have step : (Datum.list (trace.methods.map MethodTrace.toDatum)).step? (.index m) =
      some method.toDatum := by
    simp [Datum.step?, here]
  rw [Datum.at?_cons inside, Datum.at?_cons step]

end Places

/-- What is reported of a method, where below it, and the datum at fault: the first instruction that does not come
after its predecessor, and where all do, the first inverted handler. -/
inductive MethodTrace.Reports (method : MethodTrace) : Path → (message : String) → Datum → Prop
  | instruction {k : Nat} {previous next : Instruction} :
      Instruction.Disordered method.instructions k previous next →
      (∀ j < k, ∀ earlier later, ¬ Instruction.Disordered method.instructions j earlier later) →
      Reports method [.field "instructions", .index (k + 1), .field "offset"]
        ("instruction offset " ++ toString next.offset.toNat ++ " does not follow previous offset " ++
          toString previous.offset.toNat)
        (.number next.offset.toNat)
  | handler {before after : List PlacedHandler} {placed : PlacedHandler} :
      (∀ k previous next, ¬ Instruction.Disordered method.instructions k previous next) →
      handlersFrom [] method.blocks = before ++ placed :: after →
      placed.Inverted → (∀ other ∈ before, ¬ other.Inverted) →
      Reports method placed.path
        ("catch range ends at " ++ toString placed.handler.catchEnd.toNat ++ " before it starts at " ++
          toString placed.handler.catchStart.toNat)
        placed.handler.toDatum

theorem MethodTrace.Reports.at? {method : MethodTrace} {path : Path} {message : String} {element : Datum}
    (reports : method.Reports path message element) : method.toDatum.at? path = some element := by
  cases reports with
  | instruction disordered _ => exact method.at?_offset disordered.after
  | handler _ listed => exact method.at?_path (listed ▸ List.mem_append_right _ List.mem_cons_self)

theorem MethodTrace.exists_reports {method : MethodTrace} {misfit : Misfit}
    (found : method.misfit? = some misfit) :
    ∃ element, method.Reports misfit.path misfit.violation.message element := by
  cases order : Instruction.firstUnordered 0 method.instructions with
  | some first =>
      obtain ⟨place, violation⟩ := first
      obtain ⟨k, previous, next, rfl, rfl, disordered, least⟩ := Instruction.disordered_of_firstUnordered order
      rw [misfit?, order] at found
      cases found
      refine ⟨.number next.offset.toNat, ?_⟩
      rw [Nat.zero_add]
      exact .instruction disordered least
  | none =>
      have ordered := Instruction.firstUnordered_eq_none_iff.mp order
      rw [misfit?_of_ordered order] at found
      obtain ⟨placed, first, rfl⟩ := Option.map_eq_some_iff.mp found
      obtain ⟨inverted, before, after, listed, least⟩ := List.find?_eq_some_iff_append.mp first
      refine ⟨_, .handler (fun _ _ _ => Instruction.not_disordered_of_pairwise ordered) listed
        (of_decide_eq_true inverted) fun other mem => ?_⟩
      simpa using least other mem

namespace Trace

/-- A search through numbered items that finds something finds it at the first item that has it. -/
theorem exists_first_of_findSome?_zipIdx {α β : Type} {items : List α} {find : α × Nat → Option β} {found : β}
    (search : items.zipIdx.findSome? find = some found) :
    ∃ i x, items[i]? = some x ∧ find (x, i) = some found ∧
      ∀ j < i, ∀ y, items[j]? = some y → find (y, j) = none := by
  obtain ⟨before, ⟨x, i⟩, after, split, here, silent⟩ := List.findSome?_eq_some_iff.mp search
  have length : before.length = i := by
    have at_end : items.zipIdx[before.length]? = some (x, i) := by rw [split]; simp
    rw [List.getElem?_zipIdx] at at_end
    obtain ⟨_, _, same⟩ := Option.map_eq_some_iff.mp at_end
    simpa using (Prod.mk.inj same).2
  refine ⟨i, x, ?_, here, fun j early y there => silent _ ?_⟩
  · exact List.mem_zipIdx_iff_getElem?.mp (split ▸ List.mem_append_right _ List.mem_cons_self)
  · have numbered : items.zipIdx[j]? = some (y, j) := by simp [List.getElem?_zipIdx, there]
    rw [split, List.getElem?_append_left (length ▸ early)] at numbered
    exact List.mem_of_getElem? numbered

/-- The report on a trace that does not pass the check is about the first method that is not well formed, and about
the first thing in it: an instruction out of order, or an inverted handler where there is none. Every path of field
names and indices that reads like the reported one leads to what is at fault. -/
theorem reports_first_violation {trace : Trace} {error : LoadError} (rejected : trace.checked = .error error) :
    ∃ m method place message element,
      trace.methods[m]? = some method ∧ ¬ method.WellFormed ∧
      (∀ j < m, ∀ earlier, trace.methods[j]? = some earlier → earlier.WellFormed) ∧
      method.Reports place message element ∧
      ∃ reported, error.path? = some reported ∧
        reported = Path.text (.field "codeAttributes" :: .index m :: place) ∧
        error.message = "invalid trace at `" ++ reported ++ "`: " ++ message ∧
        ∀ path : Path, path.Named → path.text = reported → trace.toDatum.at? path = some element := by
  rw [checked] at rejected
  cases found : trace.misfit? with
  | none => rw [found] at rejected; cases rejected
  | some misfit =>
      rw [found] at rejected
      cases rejected
      obtain ⟨m, method, here, broken, silent⟩ := exists_first_of_findSome?_zipIdx found
      obtain ⟨inner, fails, rfl⟩ := Option.map_eq_some_iff.mp broken
      obtain ⟨element, reports⟩ := method.exists_reports fails
      have leads : trace.toDatum.at? (.field "codeAttributes" :: .index m :: inner.path) = some element :=
        (at?_method _ here).trans reports.at?
      refine ⟨m, method, inner.path, inner.violation.message, element, here, ?_, ?_, reports, _, ?_, rfl, rfl, ?_⟩
      · intro wellFormed
        rw [MethodTrace.misfit?_eq_none_iff.mpr wellFormed] at fails
        cases fails
      · intro j before earlier there
        exact MethodTrace.misfit?_eq_none_iff.mp (Option.map_eq_none_iff.mp (silent j before earlier there))
      · exact Path.shown?_of_named (Path.named_of_at? leads) (List.cons_ne_nil _ _)
      · intro path named same
        rw [Path.text_injective named (Path.named_of_at? leads) same, leads]

/-- A recording of a block with two calls of subroutines, in both of which a handler has an inverted range. -/
def siblingTrace : Trace :=
  let call (nested : List BlockEvaluation) : InstructionEvaluation :=
    ⟨false, false, none, "jsr 8", 0, none, [], [], some nested⟩
  let block (handler : Option ExceptionHandler) (evaluations : List InstructionEvaluation) :
    BlockEvaluation := ⟨0, [], [], handler, [], evaluations⟩
  ⟨[⟨"A", "m()V", [⟨0, "jsr 8"⟩, ⟨8, "ret"⟩], [], none,
    [block none [call [block (some ⟨6, 5, 9, none⟩) []], call [block (some ⟨4, 3, 9, none⟩) []]]]⟩]⟩

def siblingPath : Path :=
  [.field "codeAttributes", .index 0, .field "blockEvaluations", .index 0, .field "evaluations", .index 1,
    .field "jsrBlockEvaluations", .index 0, .field "exceptionHandlerInfo"]

/-- The handler in the later of the two calls is reported. -/
theorem reports_first_violation_sibling :
    siblingTrace.checked = .error (.invalid ⟨siblingPath, .handlerRange 3 4⟩) ∧
      ∃ (m : Nat) (method : MethodTrace) (place : Path) (message : String),
        siblingTrace.methods[m]? = some method ∧
        method.Reports place message (ExceptionHandler.toDatum ⟨4, 3, 9, none⟩) := by
  have rejected : siblingTrace.checked = .error (.invalid ⟨siblingPath, .handlerRange 3 4⟩) := rfl
  have inside : siblingTrace.toDatum.at? siblingPath = some (ExceptionHandler.toDatum ⟨4, 3, 9, none⟩) := rfl
  have named := Path.named_of_at? inside
  obtain ⟨m, method, place, message, element, here, _, _, reports, reported, shown, _, _, leads⟩ :=
    reports_first_violation rejected
  have shows : some siblingPath.text = some reported :=
    (Path.shown?_of_named named (List.cons_ne_nil _ _)).symm.trans shown
  have same : some _ = some element := inside.symm.trans (leads siblingPath named (Option.some.inj shows))
  cases same
  exact ⟨rejected, m, method, place, message, here, reports⟩

end Trace

end TraceReplay
