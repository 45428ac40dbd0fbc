import Mathlib.Algebra.BigOperators.Group.List.Basic
import Mathlib.Algebra.GroupWithZero.Nat
import TraceReplay.Trace.Level

/-!
The lists of blocks come off the stack depth first: each list before its sub-traces, and of those the last
one with all that is below it before the others. The number of lists is just enough for all of them.
-/
namespace TraceReplay

section ListCount

theorem listCount_eq_sum (blocks : List BlockEvaluation) :
    listCount blocks = 1 + (blocks.map BlockEvaluation.listCount).sum := by
  induction blocks with
  | nil => rfl
  | cons block blocks ih =>
      rw [listCount, ih, List.map_cons, List.sum_cons]
      omega

theorem evaluationsListCount_eq_sum (evaluations : List InstructionEvaluation) :
    evaluationsListCount evaluations = (evaluations.map InstructionEvaluation.listCount).sum := by
  induction evaluations with
  | nil => rfl
  | cons evaluation evaluations ih =>
      rw [evaluationsListCount, ih, List.map_cons, List.sum_cons]

theorem BlockEvaluation.listCount_eq (block : BlockEvaluation) :
    block.listCount = (block.evaluations.map InstructionEvaluation.listCount).sum := by
  cases block
  exact evaluationsListCount_eq_sum _

theorem InstructionEvaluation.listCount_eq (evaluation : InstructionEvaluation) :
    evaluation.listCount = (evaluation.nestedBlocks.map TraceReplay.listCount).getD 0 := by
  obtain ⟨_, _, _, _, _, _, _, _, nested⟩ := evaluation
  cases nested with
  | none => rfl
  | some blocks => rfl

end ListCount

section Sums

variable {α β M : Type} [AddMonoid M]

theorem sum_flatMap (f : α → List β) (g : β → M) (xs : List α) :
    ((xs.flatMap f).map g).sum = (xs.map fun x => ((f x).map g).sum).sum := by
  induction xs with
  | nil => rfl
  | cons x xs ih =>
      rw [List.flatMap_cons, List.map_append, List.sum_append, ih, List.map_cons, List.sum_cons]

/-- The indices of numbered items do not matter to a sum over the items. -/
theorem sum_flatMap_zipIdx {f : α × Nat → List β} {g : β → M} {h : α → M}
    (each : ∀ x k, ((f (x, k)).map g).sum = h x) (xs : List α) (k : Nat) :
    (((xs.zipIdx k).flatMap f).map g).sum = (xs.map h).sum := by
  induction xs generalizing k with
  | nil => rfl
  | cons x xs ih =>
      rw [List.zipIdx_cons, List.flatMap_cons, List.map_append, List.sum_append, each, ih,
        List.map_cons, List.sum_cons]

end Sums

namespace Level

/-- A count over the sub-traces of a list is one over its evaluations. -/
theorem sum_subTraces {M : Type} [AddMonoid M] (count : List BlockEvaluation → M) (level : Level) :
    (level.subTraces.map fun sub => count sub.blocks).sum =
      (level.blocks.map fun block => (block.evaluations.map fun evaluation =>
        (evaluation.nestedBlocks.map count).getD 0).sum).sum := by
  refine sum_flatMap_zipIdx (fun block b => ?_) level.blocks 0
  simp only [List.filterMap_eq_flatMap_toList]
  refine sum_flatMap_zipIdx (fun evaluation e => ?_) block.evaluations 0
  cases evaluation.nestedBlocks with
  | none => rfl
  | some blocks => simp

/-- The lists right below a list are the sub-traces of its evaluations. -/
theorem mem_subTraces {level sub : Level} :
    sub ∈ level.subTraces ↔ ∃ frame evaluation, frame.evaluation? level.blocks = some evaluation ∧
      evaluation.nestedBlocks = some sub.blocks ∧ sub.owners = frame :: level.owners := by
  constructor
  · intro mem
    obtain ⟨⟨block, b⟩, at_b, mem⟩ := List.mem_flatMap.mp mem
    obtain ⟨⟨evaluation, e⟩, at_e, made⟩ := List.mem_filterMap.mp mem
    obtain ⟨blocks, owned, rfl⟩ := Option.map_eq_some_iff.mp made
    exact ⟨⟨b, e⟩, evaluation, Option.bind_eq_some_iff.mpr ⟨block,
      List.mem_zipIdx_iff_getElem?.mp at_b, List.mem_zipIdx_iff_getElem?.mp at_e⟩, owned, rfl⟩
  · intro ⟨⟨b, e⟩, evaluation, named, owned, address⟩
    obtain ⟨block, at_b, at_e⟩ := Option.bind_eq_some_iff.mp named
    refine List.mem_flatMap.mpr ⟨⟨block, b⟩, List.mem_zipIdx_iff_getElem?.mpr at_b, ?_⟩
    refine List.mem_filterMap.mpr ⟨⟨evaluation, e⟩, List.mem_zipIdx_iff_getElem?.mpr at_e, ?_⟩
    refine Option.map_eq_some_iff.mpr ⟨sub.blocks, owned, ?_⟩
    rw [← address]

def pendingCount (pending : List Level) : Nat :=
  (pending.map fun level => listCount level.blocks).sum

theorem listCount_blocks (level : Level) :
    listCount level.blocks = 1 + pendingCount level.subTraces := by
  rw [pendingCount, sum_subTraces, listCount_eq_sum]
  simp only [funext BlockEvaluation.listCount_eq, funext InstructionEvaluation.listCount_eq]

theorem pendingCount_cons (level : Level) (pending : List Level) :
    pendingCount (level :: pending) = 1 + pendingCount level.subTraces + pendingCount pending := by
  rw [pendingCount, List.map_cons, List.sum_cons, listCount_blocks]
  rfl

theorem pendingCount_push (level : Level) (pending : List Level) :
    pendingCount (level.subTraces.reverse ++ pending) + 1 = pendingCount (level :: pending) := by
  rw [pendingCount_cons, pendingCount, List.map_append, List.sum_append, List.map_reverse,
    List.sum_reverse]
  change pendingCount _ + pendingCount _ + 1 = _
  omega

theorem listCount_lt_of_mem_subTraces {level sub : Level} (mem : sub ∈ level.subTraces) :
    listCount sub.blocks < listCount level.blocks := by
  obtain ⟨before, after, split⟩ := List.append_of_mem mem
  rw [listCount_blocks level, pendingCount, split, List.map_append, List.map_cons, List.sum_append,
    List.sum_cons]
  omega

/-- What holds of a list whenever it holds of its sub-traces holds of every list. -/
theorem subTraces_induction {motive : Level → Prop}
    (step : ∀ level, (∀ sub ∈ level.subTraces, motive sub) → motive level) (level : Level) :
    motive level := by
  induction size : listCount level.blocks using Nat.strongRecOn generalizing level with
  | ind n ih => exact step level fun sub mem => ih _ (size ▸ listCount_lt_of_mem_subTraces mem) sub rfl

/-- A sub-trace has fewer lists in it than the list around it. -/
theorem listCount_lt_of_nestedBlocks {blocks inner : List BlockEvaluation} {frame : Frame}
    {evaluation : InstructionEvaluation} (named : frame.evaluation? blocks = some evaluation)
    (owned : evaluation.nestedBlocks = some inner) : listCount inner < listCount blocks := by
  have mem : (⟨[frame], inner⟩ : Level) ∈ (top blocks).subTraces :=
    mem_subTraces.mpr ⟨frame, evaluation, named, owned, rfl⟩
  exact listCount_lt_of_mem_subTraces mem

theorem unstack_nil (limit : Nat) : unstack limit [] = [] := by
  cases limit with
  | zero => rfl
  | succ limit => rfl

/-- What lies deeper on the stack is left until all that was put on top of it is done. -/
theorem unstack_append (limit extra : Nat) (pending rest : List Level)
    (enough : pendingCount pending ≤ limit) :
    unstack (limit + extra) (pending ++ rest) =
      unstack limit pending ++ unstack (limit - pendingCount pending + extra) rest := by
  induction limit generalizing pending with
  | zero =>
      cases pending with
      | nil => rw [unstack_nil]; rfl
      | cons level pending =>
          rw [pendingCount_cons] at enough
          omega
  | succ limit ih =>
      cases pending with
      | nil => rw [unstack_nil]; rfl
      | cons level pending =>
          have pushed := pendingCount_push level pending
          have step := ih (level.subTraces.reverse ++ pending) (by omega)
          rw [List.append_assoc] at step
          rw [Nat.add_right_comm, List.cons_append, unstack, step, unstack, List.cons_append]
          congr 3
          omega

/-- The lists in and below a list, in the order in which they come off the stack. -/
def below (level : Level) : List Level := unstack (listCount level.blocks) [level]

theorem unstack_eq_flatMap (limit : Nat) (pending : List Level)
    (enough : pendingCount pending ≤ limit) : unstack limit pending = pending.flatMap below := by
  induction pending generalizing limit with
  | nil => exact unstack_nil limit
  | cons level pending ih =>
      have count : pendingCount [level] = listCount level.blocks := by simp [pendingCount]
      have split := pendingCount_cons level pending
      have size := listCount_blocks level
      have first := unstack_append (listCount level.blocks) (limit - listCount level.blocks) [level]
        pending (Nat.le_of_eq count)
      rw [count, Nat.sub_self, Nat.zero_add, ih _ (by omega), List.singleton_append,
        Nat.add_sub_of_le (by omega)] at first
      exact first

theorem below_eq (level : Level) :
    level.below = level :: level.subTraces.reverse.flatMap below := by
  have count : pendingCount level.subTraces.reverse = pendingCount level.subTraces := by
    rw [pendingCount, List.map_reverse, List.sum_reverse]
    rfl
  rw [below, listCount_blocks, Nat.add_comm, unstack, List.append_nil,
    unstack_eq_flatMap _ _ (Nat.le_of_eq count)]

theorem mem_below_iff {level lower : Level} :
    lower ∈ level.below ↔ lower = level ∨ ∃ sub ∈ level.subTraces, lower ∈ sub.below := by
  simp only [level.below_eq, List.mem_cons, List.mem_flatMap, List.mem_reverse]

/-- What holds of a list, and from a list on of its sub-traces, holds of all lists below. -/
theorem below_induction {motive : Level → Prop} {level lower : Level} (mem : lower ∈ level.below)
    (top : motive level) (inside : ∀ upper sub, motive upper → sub ∈ upper.subTraces → motive sub) :
    motive lower := by
  induction level using subTraces_induction with
  | step level ih =>
      obtain rfl | ⟨sub, owned, mem⟩ := mem_below_iff.mp mem
      · exact top
      · exact ih sub owned mem (inside level sub top owned)

theorem all_eq_below (blocks : List BlockEvaluation) : all blocks = (top blocks).below := rfl

end Level

end TraceReplay
