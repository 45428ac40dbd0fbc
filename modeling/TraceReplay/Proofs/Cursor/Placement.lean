import TraceReplay.Cursor.Move
import TraceReplay.Proofs.Cursor.Neighbour

/-!
Where a cursor can stand. Its owners lead down from the blocks of a method of the trace through
sub-traces that are there, each with a step in it, and its frame either names an evaluation of the list
it stands in or rests before nothing but empty blocks. Every move keeps a cursor so placed, and a fresh
cursor is.
-/
namespace TraceReplay

/-- The way from a list of blocks down to another: its frames, innermost first, name the evaluations
that own the sub-traces entered, and each sub-trace has an evaluation in it. -/
inductive Descends (blocks : List BlockEvaluation) : List Frame → List BlockEvaluation → Prop
  | top : Descends blocks [] blocks
  | into {owners : List Frame} {owner : Frame} {outer inner : List BlockEvaluation}
      {evaluation : InstructionEvaluation} :
      Descends blocks owners outer → owner.evaluation? outer = some evaluation →
      evaluation.nestedBlocks = some inner → (addressable inner).Nonempty →
      Descends blocks (owner :: owners) inner

/-- A frame rests in a list on one of its evaluations, or inert at the start of a block from which on
all blocks are empty. The block is one of the list unless that has none. -/
inductive Frame.Rests (frame : Frame) (blocks : List BlockEvaluation) : Prop
  | onStep (named : frame ∈ addressable blocks)
  | inert (atStart : frame.eval = 0)
      (emptyFrom : ∀ b block, frame.block ≤ b → blocks[b]? = some block → block.isEmpty = true)
      (inRange : frame.block < blocks.length ∨ blocks = [] ∧ frame.block = 0)

/-- A cursor on a trace without methods is at its start. -/
inductive Cursor.WellPlaced (trace : Trace) : Cursor → Prop
  | noMethods : trace.methods = [] → WellPlaced trace ⟨trace, 0, .start, []⟩
  | inMethod {m : Nat} {method : MethodTrace} {frame : Frame} {owners : List Frame}
      {blocks : List BlockEvaluation} :
      trace.methods[m]? = some method → Descends method.blocks owners blocks → frame.Rests blocks →
      WellPlaced trace ⟨trace, m, frame, owners⟩

/-- The innermost list of blocks that a cursor stands in. Without methods there are no blocks. -/
inductive Cursor.StandsIn (trace : Trace) (cursor : Cursor) : List BlockEvaluation → Prop
  | noMethods : trace.methods = [] → StandsIn trace cursor []
  | inMethod {method : MethodTrace} {blocks : List BlockEvaluation} :
      trace.methods[cursor.method]? = some method → Descends method.blocks cursor.owners blocks →
      StandsIn trace cursor blocks

/-- A way down leads to the list that is looked up through its frames. -/
theorem Descends.blocksBelow {blocks inner : List BlockEvaluation} {owners : List Frame}
    (way : Descends blocks owners inner) : blocksBelow blocks owners = inner := by
  induction way with
  | top => rfl
  | into _ named owned _ ih => simp [TraceReplay.blocksBelow, ih, named, owned]

theorem Descends.nonempty {blocks inner : List BlockEvaluation} {owners : List Frame}
    (way : Descends blocks owners inner) (nested : owners ≠ []) : (addressable inner).Nonempty := by
  cases way with
  | top => contradiction
  | into _ _ _ nonempty => exact nonempty

section Rests

variable {frame : Frame} {blocks : List BlockEvaluation}

theorem addressable_nil : addressable [] = ∅ := by
  refine Set.eq_empty_iff_forall_notMem.mpr fun frame named => ?_
  simpa using block_lt_of_addressable named

theorem Frame.Rests.eval_le (rests : frame.Rests blocks) :
    frame.eval ≤ frame.evaluationCount blocks := by
  cases rests with
  | onStep named => exact (mem_addressable.mp named).le
  | inert atStart => exact atStart ▸ Nat.zero_le _

theorem Frame.Rests.block_le (rests : frame.Rests blocks) : frame.block ≤ blocks.length := by
  cases rests with
  | onStep named => exact (block_lt_of_addressable named).le
  | inert _ _ inRange =>
      rcases inRange with inside | ⟨_, first⟩
      · exact inside.le
      · omega

/-- Where the search for a first step leaves a cursor, whether it finds one or not. -/
theorem firstStep_rests {b : Nat} (inRange : b < blocks.length ∨ blocks = [] ∧ b = 0) :
    ((firstStep blocks b).getD ⟨b, 0⟩).Rests blocks := by
  have finds := firstStep_finds blocks b
  cases step : firstStep blocks b with
  | some frame =>
      rw [step] at finds
      exact .onStep finds.1.1
  | none =>
      rw [step] at finds
      refine .inert rfl (fun i block later found => ?_) inRange
      by_contra nonempty
      have inside := BlockEvaluation.isEmpty_eq_false_iff.mp (Bool.eq_false_of_not_eq_true nonempty)
      exact Set.eq_empty_iff_forall_notMem.mp finds ⟨i, 0⟩
        ⟨mem_addressable_iff_block.mpr ⟨block, found, inside⟩, later⟩

theorem firstStep_zero_rests (blocks : List BlockEvaluation) :
    ((firstStep blocks 0).getD .start).Rests blocks := by
  cases blocks with
  | nil => exact firstStep_rests (.inr ⟨rfl, rfl⟩)
  | cons block blocks => exact firstStep_rests (.inl (Nat.zero_lt_succ _))

end Rests

/-- The numbered step that a search through blocks stops at is one of them. -/
theorem stepInBlocks_addressable {blocks : List BlockEvaluation} {b n : Nat} {frame : Frame}
    (h : stepInBlocks b blocks n = .ok frame) :
    b ≤ frame.block ∧ ⟨frame.block - b, frame.eval⟩ ∈ addressable blocks := by
  induction blocks generalizing b n with
  | nil => cases h
  | cons block blocks ih =>
      rw [stepInBlocks] at h
      split at h
      case isTrue inside =>
          cases h
          refine ⟨le_rfl, mem_addressable_iff_block.mpr ⟨block, ?_, inside⟩⟩
          simp
      case isFalse =>
          obtain ⟨late, named⟩ := ih h
          obtain ⟨found, at_block, inside⟩ := mem_addressable_iff_block.mp named
          refine ⟨by omega, mem_addressable_iff_block.mpr ⟨found, ?_, inside⟩⟩
          rw [← at_block, show frame.block - b = frame.block - (b + 1) + 1 by omega]
          rfl

theorem stepInMethods_addressable {methods : List MethodTrace} {m n m' : Nat} {frame : Frame}
    (h : stepInMethods m methods n = some (m', frame)) :
    m ≤ m' ∧ ∃ method, methods[m' - m]? = some method ∧ frame ∈ addressable method.blocks := by
  induction methods generalizing m n with
  | nil => cases h
  | cons method methods ih =>
      rw [stepInMethods] at h
      split at h
      case h_1 found =>
          cases h
          exact ⟨le_rfl, method, by simp, by simpa using (stepInBlocks_addressable found).2⟩
      case h_2 =>
          obtain ⟨late, target, found, named⟩ := ih h
          refine ⟨by omega, target, ?_, named⟩
          rw [← found, show m' - m = m' - (m + 1) + 1 by omega]
          rfl

namespace Cursor.WellPlaced

variable {trace : Trace} {cursor moved : Cursor}

theorem trace_eq (placed : WellPlaced trace cursor) : cursor.trace = trace := by
  cases placed <;> rfl

theorem currentBlocks_eq {m : Nat} {method : MethodTrace} {frame : Frame} {owners : List Frame}
    {blocks : List BlockEvaluation} (found : trace.methods[m]? = some method)
    (way : Descends method.blocks owners blocks) :
    (Cursor.mk trace m frame owners).currentBlocks = blocks := by
  simp [currentBlocks, currentMethod?, found, way.blocksBelow]

theorem rests (placed : WellPlaced trace cursor) : cursor.frame.Rests cursor.currentBlocks := by
  cases placed with
  | noMethods empty =>
      refine .inert rfl (fun b block _ found => ?_) (.inr ⟨?_, rfl⟩)
      · simp [currentBlocks, currentMethod?, empty] at found
      · simp [currentBlocks, currentMethod?, empty]
  | inMethod found way rests => rwa [currentBlocks_eq found way]

theorem standsIn (placed : WellPlaced trace cursor) : cursor.StandsIn trace cursor.currentBlocks := by
  cases placed with
  | noMethods empty =>
      rw [currentBlocks, currentMethod?, empty]
      exact .noMethods empty
  | inMethod found way _ =>
      rw [currentBlocks_eq found way]
      exact .inMethod found way

/-- A cursor that is moved within its list keeps the way that led there. -/
theorem moveWithin (placed : WellPlaced trace cursor) {frame : Frame}
    (rests : frame.Rests cursor.currentBlocks) (named : cursor.currentBlocks ≠ []) :
    WellPlaced trace (cursor.moveWithin frame) := by
  cases placed with
  | noMethods empty => simp [currentBlocks, currentMethod?, empty] at named
  | inMethod found way _ =>
      rw [currentBlocks_eq found way] at rests
      exact .inMethod found way rests

theorem moveTo (placed : WellPlaced trace cursor) (top : cursor.owners = []) {position : Position}
    (named : position ∈ cursor.trace.addressable) : WellPlaced trace (cursor.moveTo position) := by
  rw [placed.trace_eq] at named
  obtain ⟨method, found, named⟩ := named
  obtain ⟨_, _, _, _⟩ := cursor
  cases placed.trace_eq
  cases top
  exact .inMethod found .top (.onStep named)

theorem ne_nil_of_addressable {frame : Frame} {blocks : List BlockEvaluation}
    (named : frame ∈ addressable blocks) : blocks ≠ [] := by
  intro empty
  simp [empty, addressable_nil] at named

theorem start (trace : Trace) : WellPlaced trace (Cursor.start trace) := by
  have finds := firstStepFrom_finds trace 0
  unfold Cursor.start
  split
  case h_1 m frame step =>
      rw [step] at finds
      obtain ⟨method, found, named⟩ := finds.1.1
      exact .inMethod found .top (.onStep named)
  case h_2 step =>
      rw [step] at finds
      cases methods : trace.methods with
      | nil => exact .noMethods methods
      | cons method rest =>
          have found : trace.methods[0]? = some method := by simp [methods]
          have none_first : firstStep method.blocks 0 = none := by
            by_contra stops
            obtain ⟨frame, step⟩ := Option.ne_none_iff_exists'.mp stops
            have best := firstStep_finds method.blocks 0
            rw [step] at best
            exact Set.eq_empty_iff_forall_notMem.mp finds (Position.ofFrame 0 frame)
              ⟨⟨method, found, best.1.1⟩, Nat.zero_le _⟩
          have rests := firstStep_zero_rests method.blocks
          rw [none_first] at rests
          exact .inMethod found .top rests

theorem next? (placed : WellPlaced trace cursor) (step : cursor.next? = some moved) :
    WellPlaced trace moved := by
  by_cases top : cursor.owners = []
  · obtain ⟨target, finds, onward⟩ := next?_of_top top
    obtain ⟨position, rfl, rfl⟩ := Option.map_eq_some_iff.mp (onward.symm.trans step)
    exact placed.moveTo top finds.1.1
  · have finds := nextStep_finds cursor.currentBlocks cursor.frame
    rw [next?_of_nested top] at step
    obtain ⟨frame, found, rfl⟩ := Option.map_eq_some_iff.mp step
    rw [found] at finds
    exact placed.moveWithin (.onStep finds.1.1) (ne_nil_of_addressable finds.1.1)

theorem previous? (placed : WellPlaced trace cursor) (step : cursor.previous? = some moved) :
    WellPlaced trace moved := by
  by_cases top : cursor.owners = []
  · obtain ⟨target, finds, back⟩ := previous?_of_top top placed.rests.eval_le
    obtain ⟨position, rfl, rfl⟩ := Option.map_eq_some_iff.mp (back.symm.trans step)
    exact placed.moveTo top finds.1.1
  · have finds := previousStep_finds cursor.currentBlocks placed.rests.eval_le
    rw [previous?_of_nested top] at step
    obtain ⟨frame, found, rfl⟩ := Option.map_eq_some_iff.mp step
    rw [found] at finds
    exact placed.moveWithin (.onStep finds.1.1) (ne_nil_of_addressable finds.1.1)

theorem jumpToMethod (placed : WellPlaced trace cursor) {m : Nat}
    (jump : cursor.jumpToMethod m = .ok moved) : WellPlaced trace moved := by
  unfold Cursor.jumpToMethod at jump
  split at jump
  case h_1 target found =>
      cases jump
      rw [placed.trace_eq] at found ⊢
      exact .inMethod found .top (firstStep_zero_rests target.blocks)
  case h_2 => cases jump

theorem jumpToBlock (placed : WellPlaced trace cursor) {b : Nat}
    (jump : cursor.jumpToBlock b = .ok moved) : WellPlaced trace moved := by
  unfold Cursor.jumpToBlock at jump
  split at jump
  case isTrue inside =>
      cases jump
      exact placed.moveWithin (firstStep_rests (.inl inside))
        (List.ne_nil_of_length_pos (Nat.zero_lt_of_lt inside))
  case isFalse => cases jump

theorem jumpToStep (placed : WellPlaced trace cursor) {n : Nat}
    (jump : cursor.jumpToStep n = .ok moved) : WellPlaced trace moved := by
  unfold Cursor.jumpToStep at jump
  split at jump
  case h_1 m frame step =>
      cases jump
      rw [placed.trace_eq] at step ⊢
      obtain ⟨_, method, found, named⟩ := stepInMethods_addressable step
      exact .inMethod found .top (.onStep named)
  case h_2 => cases jump

theorem enter (placed : WellPlaced trace cursor) (way : cursor.enter = .ok moved) :
    WellPlaced trace moved := by
  unfold Cursor.enter at way
  split at way
  case h_1 frame step =>
      cases way
      obtain ⟨evaluation, current, step⟩ := Option.bind_eq_some_iff.mp step
      obtain ⟨inner, owned, step⟩ := Option.bind_eq_some_iff.mp step
      have finds := firstStep_finds inner 0
      rw [step] at finds
      cases placed with
      | noMethods empty =>
          simp [currentEvaluation?, currentBlocks, currentMethod?, empty, Frame.evaluation?] at current
      | inMethod found outer _ =>
          rw [currentEvaluation?, currentBlocks_eq found outer] at current
          exact .inMethod found (outer.into current owned ⟨frame, finds.1.1⟩) (.onStep finds.1.1)
  case h_2 => cases way

theorem leave (placed : WellPlaced trace cursor) (way : cursor.leave = .ok moved) :
    WellPlaced trace moved := by
  cases placed with
  | noMethods => cases way
  | inMethod found inner _ =>
      cases inner with
      | top => cases way
      | into outer named _ _ =>
          cases way
          exact .inMethod found outer (.onStep ⟨_, named⟩)

theorem settle (placed : WellPlaced trace cursor) {result : Except NavigationError Cursor}
    (h : ∀ moved, result = .ok moved → WellPlaced trace moved) :
    WellPlaced trace (cursor.settle result).1 := by
  cases result with
  | error => exact placed
  | ok moved => exact h moved rfl

theorem stepTo (placed : WellPlaced trace cursor) {result : Option Cursor}
    (h : ∀ moved, result = some moved → WellPlaced trace moved) :
    WellPlaced trace (cursor.stepTo result).1 := by
  cases result with
  | none => exact placed
  | some moved => exact h moved rfl

/-- No move, whether it succeeds or not, leads to a cursor that is not well placed. -/
theorem perform (placed : WellPlaced trace cursor) (move : Move) :
    WellPlaced trace (cursor.perform move).1 := by
  cases move with
  | forward => exact placed.stepTo fun _ step => placed.next? step
  | backward => exact placed.stepTo fun _ step => placed.previous? step
  | reset =>
      change WellPlaced trace (Cursor.start cursor.trace)
      rw [placed.trace_eq]
      exact start trace
  | method m => exact placed.settle fun _ jump => placed.jumpToMethod jump
  | block b => exact placed.settle fun _ jump => placed.jumpToBlock jump
  | step n => exact placed.settle fun _ jump => placed.jumpToStep jump
  | enter => exact placed.settle fun _ way => placed.enter way
  | leave => exact placed.settle fun _ way => placed.leave way

end Cursor.WellPlaced

/-- Every cursor that can be reached is well placed: the start is, and each move keeps it. -/
theorem Reachable.wellPlaced {trace : Trace} {cursor : Cursor} (reachable : Reachable trace cursor) :
    cursor.WellPlaced trace := by
  induction reachable with
  | start => exact .start trace
  | perform move _ ih => exact ih.perform move

/-- Where a cursor stands after any moves, failed ones included. Without methods it is at its start;
otherwise its owners lead down to the list it stands in, which has steps if there are owners, and its
frame rests there. So all indices are in range, and the cursor never falls back to an empty list. -/
theorem reachable_placement {trace : Trace} {cursor : Cursor} (reachable : Reachable trace cursor) :
    cursor.trace = trace ∧
      (trace.methods = [] →
        cursor.position = ⟨0, 0, 0⟩ ∧ cursor.frame = .start ∧ cursor.owners = []) ∧
      (trace.methods ≠ [] → cursor.method < trace.methodCount ∧
        ∃ method, trace.methods[cursor.method]? = some method ∧
          Descends method.blocks cursor.owners cursor.currentBlocks ∧
          cursor.frame.Rests cursor.currentBlocks) ∧
      (cursor.owners ≠ [] → cursor.currentBlocks ≠ []) ∧
      cursor.method ≤ trace.methodCount ∧
      cursor.frame.block ≤ cursor.currentBlocks.length ∧
      cursor.frame.eval ≤ cursor.frame.evaluationCount cursor.currentBlocks := by
  have placed := reachable.wellPlaced
  have rests := placed.rests
  refine ⟨placed.trace_eq, ?_, ?_, ?_, ?_, rests.block_le, rests.eval_le⟩
  · intro empty
    cases placed with
    | noMethods => exact ⟨rfl, rfl, rfl⟩
    | inMethod found => simp [empty] at found
  · intro some_method
    cases placed with
    | noMethods empty => contradiction
    | inMethod found way _ =>
        refine ⟨(List.getElem?_eq_some_iff.mp found).1, _, found, ?_, rests⟩
        rwa [Cursor.WellPlaced.currentBlocks_eq found way]
  · intro nested
    cases placed with
    | noMethods => contradiction
    | inMethod found way _ =>
        obtain ⟨frame, named⟩ := way.nonempty nested
        rw [Cursor.WellPlaced.currentBlocks_eq found way]
        exact Cursor.WellPlaced.ne_nil_of_addressable named
  · cases placed with
    | noMethods => exact Nat.zero_le _
    | inMethod found => exact (List.getElem?_eq_some_iff.mp found).1.le

def InstructionEvaluation.bare (nestedBlocks : Option (List BlockEvaluation)) :
    InstructionEvaluation :=
  ⟨false, false, none, "", 0, none, [], [], nestedBlocks⟩

def BlockEvaluation.bare (evaluations : List InstructionEvaluation) : BlockEvaluation :=
  ⟨0, [], [], none, [], evaluations⟩

def MethodTrace.bare (blocks : List BlockEvaluation) : MethodTrace := ⟨"", "", [], [], none, blocks⟩

/-- A recording with an empty method, and one that calls a subroutine and has empty blocks. -/
def callingTrace : Trace :=
  let subroutine : List BlockEvaluation := [.bare [], .bare [.bare none, .bare (some [])]]
  ⟨[.bare [], .bare [.bare [], .bare [.bare (some subroutine), .bare none], .bare []],
    .bare [.bare [.bare none]]]⟩

/-- In a subroutine, after a jump that goes past the end of its blocks. -/
theorem reachable_placement_in_subroutine :
    let cursor : Cursor := ⟨callingTrace, 1, ⟨1, 0⟩, [⟨1, 0⟩]⟩
    Reachable callingTrace cursor ∧ callingTrace.methods ≠ [] ∧ cursor.owners ≠ [] ∧
      cursor.method < callingTrace.methodCount ∧ cursor.frame.Rests cursor.currentBlocks ∧
      cursor.currentBlocks ≠ [] := by
  intro cursor
  have reachable : Reachable callingTrace cursor :=
    .perform (.block 7) (.perform .enter .start)
  obtain ⟨_, _, placed, nonempty, _⟩ := reachable_placement reachable
  obtain ⟨inRange, _, _, _, rests⟩ := placed (List.cons_ne_nil _ _)
  exact ⟨reachable, List.cons_ne_nil _ _, List.cons_ne_nil _ _, inRange, rests,
    nonempty (List.cons_ne_nil _ _)⟩

end TraceReplay
