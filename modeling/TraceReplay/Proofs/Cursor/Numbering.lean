import Mathlib.Data.Set.Function
import TraceReplay.Proofs.Cursor.Stepping

/-!
The numbers of the top-level steps. A step has as its number the steps that lie before it, in the methods
and blocks before its own and in its block. These numbers go up in the order of the positions and leave none
out below the total, so a jump to a number and the number of a step undo each other.
-/
namespace TraceReplay

section Counts

variable {α : Type} {items : List α} {count : α → Nat} {x : α} {i j r : Nat}

theorem total_cons (n : Nat) (counts : List Nat) : total (n :: counts) = n + total counts := rfl

/-- What is counted within an item lies before all that is counted in later ones. -/
theorem total_take_lt (found : items[i]? = some x) (inside : r < count x) (before : i < j) :
    total ((items.take i).map count) + r < total ((items.take j).map count) := by
  induction items generalizing i j with
  | nil => cases found
  | cons y items ih =>
      obtain ⟨j, rfl⟩ := Nat.exists_eq_add_one.mpr (Nat.zero_lt_of_lt before)
      rw [List.take_succ_cons, List.map_cons, total_cons]
      cases i with
      | zero =>
          cases found
          rw [List.take_zero, List.map_nil, total, List.foldr_nil, Nat.zero_add]
          exact Nat.lt_add_right _ inside
      | succ i =>
          have later := ih found (Nat.lt_of_succ_lt_succ before)
          rw [List.take_succ_cons, List.map_cons, total_cons, Nat.add_assoc]
          exact Nat.add_lt_add_left later _

theorem total_take_lt_total (found : items[i]? = some x) (inside : r < count x) :
    total ((items.take i).map count) + r < total (items.map count) := by
  have below := total_take_lt found inside (List.getElem?_eq_some_iff.mp found).1
  rwa [List.take_length] at below

end Counts

/-- The number of a frame in a list of blocks: how many evaluations of the list lie before it. -/
def Frame.number (blocks : List BlockEvaluation) (frame : Frame) : Nat :=
  total ((blocks.take frame.block).map BlockEvaluation.evaluationCount) + frame.eval

def Trace.stepNumber (trace : Trace) (position : Position) : Nat :=
  total ((trace.methods.take position.method).map MethodTrace.evaluationCount) +
    position.frame.number ((trace.methods[position.method]?.map MethodTrace.blocks).getD [])

section Blocks

variable {blocks : List BlockEvaluation} {frame other : Frame}

theorem Frame.number_lt_number (named : frame ∈ addressable blocks) (before : frame < other) :
    frame.number blocks < other.number blocks := by
  obtain ⟨block, found, inside⟩ := mem_addressable_iff_block.mp named
  rw [number, number]
  rcases Frame.lt_iff.mp before with earlier | ⟨same, earlier⟩
  · exact Nat.lt_add_right _ (total_take_lt found inside earlier)
  · rw [same]
    exact Nat.add_lt_add_left earlier _

theorem Frame.number_lt_total (named : frame ∈ addressable blocks) :
    frame.number blocks < total (blocks.map BlockEvaluation.evaluationCount) := by
  obtain ⟨block, found, inside⟩ := mem_addressable_iff_block.mp named
  exact total_take_lt_total found inside

theorem Frame.number_cons_succ (block : BlockEvaluation) (blocks : List BlockEvaluation) (b e : Nat) :
    Frame.number (block :: blocks) ⟨b + 1, e⟩ =
      block.evaluationCount + Frame.number blocks ⟨b, e⟩ := by
  rw [number, number, List.take_succ_cons, List.map_cons, total_cons, Nat.add_assoc]

/-- A search that ends within the blocks took off what they count before the frame. -/
theorem number_of_stepInBlocks {b n : Nat} (h : stepInBlocks b blocks n = .ok frame) :
    n = Frame.number blocks ⟨frame.block - b, frame.eval⟩ := by
  induction blocks generalizing b n with
  | nil => cases h
  | cons block blocks ih =>
      rw [stepInBlocks] at h
      split at h
      case isTrue =>
          cases h
          simp [Frame.number, total]
      case isFalse outside =>
          have late := (stepInBlocks_addressable h).1
          have rest := ih h
          rw [show frame.block - b = frame.block - (b + 1) + 1 by omega, Frame.number_cons_succ]
          omega

/-- A search that goes past the blocks took off all that they count. -/
theorem total_of_stepInBlocks {b n missing : Nat} (h : stepInBlocks b blocks n = .error missing) :
    n = total (blocks.map BlockEvaluation.evaluationCount) + missing := by
  induction blocks generalizing b n with
  | nil =>
      cases h
      exact (Nat.zero_add _).symm
  | cons block blocks ih =>
      rw [stepInBlocks] at h
      split at h
      case isTrue => cases h
      case isFalse outside =>
          have rest := ih h
          rw [List.map_cons, total_cons]
          omega

end Blocks

section Methods

variable {methods : List MethodTrace} {m m' n : Nat} {frame : Frame}

theorem Trace.stepNumber_of_getElem? {trace : Trace} {position : Position} {method : MethodTrace}
    (found : trace.methods[position.method]? = some method) :
    trace.stepNumber position =
      total ((trace.methods.take position.method).map MethodTrace.evaluationCount) +
        position.frame.number method.blocks := by
  rw [stepNumber, found]
  rfl

theorem Trace.stepNumber_cons_succ (method : MethodTrace) (methods : List MethodTrace)
    (m : Nat) (frame : Frame) :
    (Trace.mk (method :: methods)).stepNumber (.ofFrame (m + 1) frame) =
      method.evaluationCount + (Trace.mk methods).stepNumber (.ofFrame m frame) := by
  simp only [stepNumber, Position.ofFrame_method, Position.ofFrame_frame, List.take_succ_cons,
    List.map_cons, total_cons, List.getElem?_cons_succ, Nat.add_assoc]

/-- The search for a step takes off the number what it passes, so the number it began with is that of the
place it comes to. -/
theorem stepNumber_of_stepInMethods (h : stepInMethods m methods n = some (m', frame)) :
    n = (Trace.mk methods).stepNumber (.ofFrame (m' - m) frame) := by
  induction methods generalizing m n with
  | nil => cases h
  | cons method methods ih =>
      rw [stepInMethods] at h
      split at h
      case h_1 found =>
          cases h
          have within := number_of_stepInBlocks found
          rw [Nat.sub_self]
          simpa [Trace.stepNumber, total] using within
      case h_2 missing past =>
          have late := (stepInMethods_addressable h).1
          have rest := ih h
          have within := total_of_stepInBlocks past
          rw [show m' - m = m' - (m + 1) + 1 by omega, Trace.stepNumber_cons_succ, ← rest]
          exact within

theorem total_le_of_stepInMethods (h : stepInMethods m methods n = none) :
    total (methods.map MethodTrace.evaluationCount) ≤ n := by
  induction methods generalizing m n with
  | nil => exact Nat.zero_le n
  | cons method methods ih =>
      rw [stepInMethods] at h
      split at h
      case h_1 => cases h
      case h_2 missing past =>
          have rest := ih h
          have within := total_of_stepInBlocks past
          rw [List.map_cons, total_cons, within]
          exact Nat.add_le_add_left rest _

end Methods

namespace Trace

variable (trace : Trace)

theorem stepNumber_strictMonoOn : StrictMonoOn trace.stepNumber trace.addressable := by
  intro position ⟨method, found, named⟩ other ⟨method', found', named'⟩ before
  rw [stepNumber_of_getElem? found, stepNumber_of_getElem? found']
  rcases Position.lt_iff.mp before with earlier | ⟨same, earlier⟩
  · exact Nat.lt_add_right _ (total_take_lt found (Frame.number_lt_total named) earlier)
  · rw [same] at found ⊢
    cases found.symm.trans found'
    exact Nat.add_lt_add_left (Frame.number_lt_number named earlier) _

/-- The steps of a trace have the numbers below their total, each number once. -/
theorem stepNumber_bijOn :
    Set.BijOn trace.stepNumber trace.addressable (Set.Iio trace.totalEvaluationCount) := by
  refine ⟨?_, trace.stepNumber_strictMonoOn.injOn, ?_⟩
  · intro position ⟨method, found, named⟩
    rw [Set.mem_Iio, stepNumber_of_getElem? found]
    exact total_take_lt_total found (Frame.number_lt_total named)
  · intro n inRange
    cases search : stepInMethods 0 trace.methods n with
    | none => exact absurd inRange (Nat.not_lt.mpr (total_le_of_stepInMethods search))
    | some target =>
        obtain ⟨m, frame⟩ := target
        obtain ⟨_, method, found, named⟩ := stepInMethods_addressable search
        exact ⟨.ofFrame m frame, ⟨method, found, named⟩, (stepNumber_of_stepInMethods search).symm⟩

end Trace

namespace Cursor

def atTop (trace : Trace) (position : Position) : Cursor :=
  ⟨trace, position.method, position.frame, []⟩

section AtTop

variable {trace : Trace} {cursor : Cursor} {position : Position}

theorem atTop_position (top : cursor.owners = []) : atTop cursor.trace cursor.position = cursor := by
  rw [atTop, position_of_top top, Position.ofFrame_frame, Position.ofFrame_method, ← top]

theorem isOnStep_atTop (named : position ∈ trace.addressable) :
    (atTop trace position).isOnStep = true := by
  obtain ⟨method, found, named⟩ := named
  rw [isOnStep_iff, currentBlocks_of_top rfl found]
  exact named

theorem stepIndex?_of_top (top : cursor.owners = []) (onStep : cursor.isOnStep = true) :
    cursor.stepIndex? = some (cursor.trace.stepNumber cursor.position) := by
  obtain ⟨method, found, _⟩ := position_mem_addressable top onStep
  have current : cursor.currentMethod? = some method := found
  rw [Trace.stepNumber_of_getElem? found, position_of_top top]
  simp [stepIndex?, top, onStep, current, Frame.number, Position.ofFrame, Position.frame,
    Nat.add_assoc]

theorem stepIndex?_eq_some_iff {n : Nat} :
    cursor.stepIndex? = some n ↔
      cursor.owners = [] ∧ cursor.isOnStep = true ∧ cursor.trace.stepNumber cursor.position = n := by
  constructor
  · intro numbered
    have standing : cursor.owners = [] ∧ cursor.isOnStep = true := by
      by_contra off
      simp [stepIndex?, List.isEmpty_iff, off] at numbered
    obtain ⟨top, onStep⟩ := standing
    rw [stepIndex?_of_top top onStep, Option.some_inj] at numbered
    exact ⟨top, onStep, numbered⟩
  · intro ⟨top, onStep, number⟩
    rw [stepIndex?_of_top top onStep, number]

/-- Neither a place in a sub-trace nor an inert one has a number. -/
theorem stepIndex?_eq_none_iff :
    cursor.stepIndex? = none ↔ cursor.owners ≠ [] ∨ cursor.isOnStep = false := by
  rw [← Bool.not_eq_true, ← not_and_or]
  constructor
  · intro unnumbered ⟨top, onStep⟩
    rw [stepIndex?_of_top top onStep] at unnumbered
    cases unnumbered
  · intro off
    refine Option.eq_none_iff_forall_ne_some.mpr fun n numbered => off ?_
    obtain ⟨top, onStep, _⟩ := stepIndex?_eq_some_iff.mp numbered
    exact ⟨top, onStep⟩

theorem canStepForward_iff_of_top (top : cursor.owners = []) :
    cursor.canStepForward = true ↔
      (cursor.trace.addressable ∩ Set.Ioi cursor.position).Nonempty := by
  obtain ⟨target, finds, onward⟩ := next?_of_top top
  rw [canStepForward, onward, Option.isSome_map]
  exact finds.isSome_iff fun _ best => best.1

theorem canStepBackward_iff_of_top (top : cursor.owners = [])
    (within : cursor.frame.eval ≤ cursor.frame.evaluationCount cursor.currentBlocks) :
    cursor.canStepBackward = true ↔
      (cursor.trace.addressable ∩ Set.Iio cursor.position).Nonempty := by
  obtain ⟨target, finds, back⟩ := previous?_of_top top within
  rw [canStepBackward, back, Option.isSome_map]
  exact finds.isSome_iff fun _ best => best.1

end AtTop

section Jump

variable {trace : Trace} {cursor moved : Cursor} {position : Position} {n : Nat}

/-- A jump to a number leads to the step that has it. -/
theorem jumpToStep_eq_ok_iff :
    cursor.jumpToStep n = .ok moved ↔
      ∃ position ∈ cursor.trace.addressable, cursor.trace.stepNumber position = n ∧
        moved = atTop cursor.trace position := by
  rw [jumpToStep]
  constructor
  · intro jump
    split at jump
    case h_1 m frame search =>
        cases jump
        obtain ⟨_, method, found, named⟩ := stepInMethods_addressable search
        exact ⟨.ofFrame m frame, ⟨method, found, named⟩, (stepNumber_of_stepInMethods search).symm,
          rfl⟩
    case h_2 => cases jump
  · intro ⟨position, named, number, same⟩
    cases search : stepInMethods 0 cursor.trace.methods n with
    | none =>
        have inRange : n < cursor.trace.totalEvaluationCount :=
          number ▸ cursor.trace.stepNumber_bijOn.mapsTo named
        exact absurd inRange (Nat.not_lt.mpr (total_le_of_stepInMethods search))
    | some target =>
        obtain ⟨m, frame⟩ := target
        obtain ⟨_, method, found, named'⟩ := stepInMethods_addressable search
        -- two steps with one number are one step
        have named' : Position.ofFrame m frame ∈ cursor.trace.addressable := ⟨method, found, named'⟩
        have one := cursor.trace.stepNumber_bijOn.injOn named' named
          ((stepNumber_of_stepInMethods search).symm.trans number.symm)
        rw [same, ← one]
        rfl

theorem jumpToStep_stepNumber (named : position ∈ cursor.trace.addressable) :
    cursor.jumpToStep (cursor.trace.stepNumber position) = .ok (atTop cursor.trace position) :=
  jumpToStep_eq_ok_iff.mpr ⟨position, named, rfl, rfl⟩

theorem exists_jumpToStep_iff :
    (∃ moved, cursor.jumpToStep n = .ok moved) ↔ n < cursor.trace.totalEvaluationCount := by
  have all := cursor.trace.stepNumber_bijOn
  constructor
  · intro ⟨moved, jump⟩
    obtain ⟨position, named, number, _⟩ := jumpToStep_eq_ok_iff.mp jump
    exact number ▸ all.mapsTo named
  · intro inRange
    obtain ⟨position, named, rfl⟩ := all.surjOn inRange
    exact ⟨_, jumpToStep_stepNumber named⟩

theorem canStepForward_atTop (named : position ∈ trace.addressable) :
    (atTop trace position).canStepForward = true ↔
      trace.stepNumber position + 1 < trace.totalEvaluationCount := by
  have all := trace.stepNumber_bijOn
  have order := trace.stepNumber_strictMonoOn
  rw [canStepForward_iff_of_top rfl]
  constructor
  · intro ⟨later, named', after⟩
    exact Nat.lt_of_le_of_lt (order named named' after) (all.mapsTo named')
  · intro more
    obtain ⟨later, named', number⟩ := all.surjOn more
    exact ⟨later, named', (order.lt_iff_lt named named').mp (number ▸ Nat.lt_succ_self _)⟩

theorem canStepBackward_atTop (named : position ∈ trace.addressable) :
    (atTop trace position).canStepBackward = true ↔ 0 < trace.stepNumber position := by
  have all := trace.stepNumber_bijOn
  have order := trace.stepNumber_strictMonoOn
  obtain ⟨method, found, inBlock⟩ := named
  have within : position.frame.eval ≤ position.frame.evaluationCount method.blocks :=
    (mem_addressable.mp inBlock).le
  have named : position ∈ trace.addressable := ⟨method, found, inBlock⟩
  rw [canStepBackward_iff_of_top rfl (by rwa [currentBlocks_of_top rfl found])]
  constructor
  · intro ⟨earlier, named', before⟩
    exact Nat.zero_lt_of_lt (order named' named before)
  · intro some_before
    obtain ⟨earlier, named', number⟩ := all.surjOn (some_before.trans (all.mapsTo named))
    exact ⟨earlier, named', (order.lt_iff_lt named' named).mp (number ▸ some_before)⟩

/-- The cursor starts on the step without others before it. -/
theorem jumpToStep_zero (some_step : 0 < cursor.trace.totalEvaluationCount) :
    cursor.jumpToStep 0 = .ok (Cursor.start cursor.trace) := by
  obtain ⟨first, named, number⟩ := cursor.trace.stepNumber_bijOn.surjOn some_step
  have least : IsLeast cursor.trace.addressable first := by
    refine ⟨named, fun other named' => not_lt.mp fun before => ?_⟩
    have below := cursor.trace.stepNumber_strictMonoOn named' named before
    exact Nat.not_lt_zero _ (number ▸ below)
  have finds : Finds IsLeast cursor.trace.addressable _ :=
    (firstStepFrom_finds cursor.trace 0).congr (Set.inter_eq_left.mpr fun _ _ => Nat.zero_le _)
  have found := finds.unique least named fun _ _ => IsLeast.unique
  obtain ⟨⟨m, frame⟩, search, same⟩ := Option.map_eq_some_iff.mp found
  have start_eq : Cursor.start cursor.trace = atTop cursor.trace first := by
    rw [Cursor.start, search, ← same]
    rfl
  rw [start_eq, ← number]
  exact jumpToStep_stepNumber named

end Jump

/-- The numbers below the total and the top-level steps of a trace belong together, one to one and in order.
A jump to a number, from anywhere, leads to its step, and from a step a jump to its number leads nowhere
else; further steps follow and precede it as the numbers do. -/
theorem step_numbering {trace : Trace} {cursor : Cursor} (reachable : Reachable trace cursor) :
    (∀ n, (∃ moved, cursor.jumpToStep n = .ok moved) ↔ n < trace.totalEvaluationCount) ∧
      (∀ n moved, cursor.jumpToStep n = .ok moved →
        moved.depth = 0 ∧ moved.isOnStep = true ∧ moved.stepIndex? = some n ∧
          (moved.canStepForward = true ↔ n + 1 < trace.totalEvaluationCount) ∧
          (moved.canStepBackward = true ↔ 0 < n)) ∧
      (∀ n, cursor.stepIndex? = some n →
        n < trace.totalEvaluationCount ∧ cursor.jumpToStep n = .ok cursor) ∧
      (cursor.stepIndex? = none ↔ 0 < cursor.depth ∨ cursor.isOnStep = false) ∧
      (∀ other, Reachable trace other → ∀ n, other.jumpToStep n = cursor.jumpToStep n) ∧
      (∀ n n' moved moved', cursor.jumpToStep n = .ok moved → cursor.jumpToStep n' = .ok moved' →
        n < n' → moved.position < moved'.position) ∧
      (0 < trace.totalEvaluationCount →
        cursor.jumpToStep 0 = .ok (Cursor.start trace) ∧
          cursor.jumpToStep 0 = .ok cursor.reset) := by
  have same := reachable.wellPlaced.trace_eq
  subst same
  refine ⟨fun n => exists_jumpToStep_iff, ?_, ?_, ?_, ?_, ?_, ?_⟩
  · intro n moved jump
    obtain ⟨position, named, rfl, rfl⟩ := jumpToStep_eq_ok_iff.mp jump
    have onStep := isOnStep_atTop named
    exact ⟨rfl, onStep, stepIndex?_of_top rfl onStep, canStepForward_atTop named,
      canStepBackward_atTop named⟩
  · intro n numbered
    obtain ⟨top, onStep, rfl⟩ := stepIndex?_eq_some_iff.mp numbered
    have named := position_mem_addressable top onStep
    refine ⟨cursor.trace.stepNumber_bijOn.mapsTo named, ?_⟩
    rw [jumpToStep_stepNumber named, atTop_position top]
  · rw [stepIndex?_eq_none_iff, depth, List.length_pos_iff]
  · intro other reachable' n
    rw [jumpToStep, jumpToStep, reachable'.wellPlaced.trace_eq]
  · intro n n' moved moved' jump jump' before
    obtain ⟨position, named, rfl, rfl⟩ := jumpToStep_eq_ok_iff.mp jump
    obtain ⟨position', named', rfl, rfl⟩ := jumpToStep_eq_ok_iff.mp jump'
    exact (cursor.trace.stepNumber_strictMonoOn.lt_iff_lt named named').mp before
  · exact fun some_step => ⟨jumpToStep_zero some_step, jumpToStep_zero some_step⟩

/-- Numbers in a recording with empty methods and blocks, seen from a subroutine. -/
theorem step_numbering_calling :
    let cursor : Cursor := ⟨callingTrace, 1, ⟨1, 0⟩, [⟨1, 0⟩]⟩
    Reachable callingTrace cursor ∧ callingTrace.totalEvaluationCount = 3 ∧
      cursor.stepIndex? = none ∧
      (∃ moved, cursor.jumpToStep 2 = .ok moved ∧ moved.stepIndex? = some 2 ∧
        moved.canStepForward = false ∧ moved.canStepBackward = true) ∧
      cursor.jumpToStep 0 = .ok (Cursor.start callingTrace) := by
  intro cursor
  have reachable : Reachable callingTrace cursor :=
    .perform (.block 7) (.perform .enter .start)
  obtain ⟨jumps, numbers, _, unnumbered, _, _, first⟩ := step_numbering reachable
  obtain ⟨moved, jump⟩ := (jumps 2).mpr (by decide)
  obtain ⟨_, _, number, forward, backward⟩ := numbers 2 moved jump
  have last : moved.canStepForward = false := by
    rw [← Bool.not_eq_true, forward]
    decide
  exact ⟨reachable, rfl, unnumbered.mpr (.inl (Nat.zero_lt_succ 0)),
    ⟨moved, jump, number, last, backward.mpr (Nat.zero_lt_succ 1)⟩, (first (by decide)).1⟩

end Cursor

end TraceReplay
