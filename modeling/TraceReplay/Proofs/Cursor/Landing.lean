import TraceReplay.Proofs.Cursor.Refusal

/-!
Where jumps land. A jump to a method or to a block goes to the first step at or after what was asked for, and
where there is none it comes to rest at the start of that. The frame it lands on depends on the list of blocks
alone, so two cursors that jump to the same place differ afterwards only in what the jump leaves as it was.
-/
namespace TraceReplay

/-- Where a jump to block `b` of a list lands: on the first evaluation from there on, or inert at the block
if there is no such evaluation. -/
inductive LandsFrom (blocks : List BlockEvaluation) (b : Nat) (frame : Frame) : Prop
  | onStep (first : IsLeast (addressable blocks ∩ {place | b ≤ place.block}) frame)
  | inert (none_after : addressable blocks ∩ {place | b ≤ place.block} = ∅) (atStart : frame = ⟨b, 0⟩)

section Landing

variable {blocks : List BlockEvaluation} {b : Nat} {frame other : Frame}

theorem landsFrom_firstStep (blocks : List BlockEvaluation) (b : Nat) :
    LandsFrom blocks b ((firstStep blocks b).getD ⟨b, 0⟩) := by
  have finds := firstStep_finds blocks b
  cases step : firstStep blocks b with
  | none =>
      rw [step] at finds
      exact .inert finds rfl
  | some frame =>
      rw [step] at finds
      exact .onStep finds

/-- There is only one place to land. -/
theorem LandsFrom.eq (lands : LandsFrom blocks b frame) (lands' : LandsFrom blocks b other) :
    frame = other := by
  cases lands with
  | onStep first =>
      cases lands' with
      | onStep first' => exact first.unique first'
      | inert none_after => exact absurd first.1 (none_after ▸ Set.notMem_empty frame)
  | inert none_after atStart =>
      cases lands' with
      | onStep first' => exact absurd first'.1 (none_after ▸ Set.notMem_empty other)
      | inert _ atStart' => rw [atStart, atStart']

theorem LandsFrom.eq_firstStep (lands : LandsFrom blocks b frame) :
    frame = (firstStep blocks b).getD ⟨b, 0⟩ :=
  lands.eq (landsFrom_firstStep blocks b)

/-- It is inert just where no evaluation is left to land on. -/
theorem LandsFrom.mem_addressable_iff (lands : LandsFrom blocks b frame) :
    frame ∈ addressable blocks ↔ ∃ place ∈ addressable blocks, b ≤ place.block := by
  cases lands with
  | onStep first => exact iff_of_true first.1.1 ⟨frame, first.1.1, first.1.2⟩
  | inert none_after atStart =>
      have silent := Set.eq_empty_iff_forall_notMem.mp none_after
      refine iff_of_false (fun named => ?_) fun ⟨place, named, later⟩ => silent place ⟨named, later⟩
      exact silent frame ⟨named, (congrArg Frame.block atStart).ge⟩

end Landing

namespace Cursor

variable {trace : Trace} {cursor moved : Cursor}

theorem settle_eq_done_iff {result : Except NavigationError Cursor} :
    cursor.settle result = (moved, .done) ↔ result = .ok moved := by
  cases result with
  | ok => simp [settle]
  | error => simp [settle]

theorem jumpToMethod_eq_ok_iff {m : Nat} :
    cursor.jumpToMethod m = .ok moved ↔ ∃ method, cursor.trace.methods[m]? = some method ∧
      ∃ frame, LandsFrom method.blocks 0 frame ∧ moved = ⟨cursor.trace, m, frame, []⟩ := by
  rw [jumpToMethod]
  cases found : cursor.trace.methods[m]? with
  | none => simp
  | some method =>
      constructor
      · intro jump
        cases jump
        exact ⟨method, rfl, _, landsFrom_firstStep method.blocks 0, rfl⟩
      · rintro ⟨_, same, frame, lands, rfl⟩
        cases same
        rw [lands.eq_firstStep]
        rfl

theorem jumpToBlock_eq_ok_iff {b : Nat} :
    cursor.jumpToBlock b = .ok moved ↔ b < cursor.currentBlocks.length ∧
      ∃ frame, LandsFrom cursor.currentBlocks b frame ∧ moved = cursor.moveWithin frame := by
  rw [jumpToBlock]
  split
  case isFalse outside => simp [outside]
  case isTrue inside =>
      constructor
      · intro jump
        cases jump
        exact ⟨inside, _, landsFrom_firstStep cursor.currentBlocks b, rfl⟩
      · rintro ⟨_, frame, lands, rfl⟩
        rw [lands.eq_firstStep]
        rfl

/-- A jump to a method lands from its first block on, wherever it is made. -/
theorem perform_method_iff (reachable : Reachable trace cursor) {m : Nat} :
    cursor.perform (.method m) = (moved, .done) ↔ ∃ method, trace.methods[m]? = some method ∧
      ∃ frame, LandsFrom method.blocks 0 frame ∧ moved = ⟨trace, m, frame, []⟩ := by
  rw [← reachable.wellPlaced.trace_eq]
  exact settle_eq_done_iff.trans jumpToMethod_eq_ok_iff

theorem perform_block_iff {b : Nat} :
    cursor.perform (.block b) = (moved, .done) ↔ b < cursor.currentBlocks.length ∧
      ∃ frame, LandsFrom cursor.currentBlocks b frame ∧ moved = cursor.moveWithin frame :=
  settle_eq_done_iff.trans jumpToBlock_eq_ok_iff

/-- A method with steps is entered on the first of them, and one without at its start. -/
theorem isOnStep_or_of_landsFrom {m : Nat} {method : MethodTrace} {frame : Frame}
    (lands : LandsFrom method.blocks 0 frame) (found : trace.methods[m]? = some method) :
    let landed : Cursor := ⟨trace, m, frame, []⟩
    IsLeast (addressable method.blocks) frame ∧ landed.isOnStep = true ∨
      addressable method.blocks = ∅ ∧ landed.position = ⟨m, 0, 0⟩ ∧ landed.isOnStep = false := by
  intro landed
  have blocks : landed.currentBlocks = method.blocks := currentBlocks_of_top rfl found
  have all : addressable method.blocks ∩ {place | 0 ≤ place.block} = addressable method.blocks :=
    Set.inter_eq_left.mpr fun _ _ => Nat.zero_le _
  cases lands with
  | onStep first =>
      rw [all] at first
      exact .inl ⟨first, isOnStep_iff.mpr (blocks ▸ first.1)⟩
  | inert none_after atStart =>
      rw [all] at none_after
      cases atStart
      refine .inr ⟨none_after, rfl, Bool.eq_false_of_not_eq_true fun onStep => ?_⟩
      have named := isOnStep_iff.mp onStep
      rw [blocks, none_after] at named
      exact named

/-- A jump to a method leaves all sub-traces and lands on the first evaluation of the method, or inert at its
start. A jump to a block lands on the first evaluation of the innermost list that is not before the block, or
inert at the block, and leaves all else as it is. So after the same jump to a method all cursors are equal,
and after the same jump to a block those that stood in the same list. -/
theorem jump_lands (reachable : Reachable trace cursor) :
    (∀ m moved, cursor.perform (.method m) = (moved, .done) ↔
      ∃ method, trace.methods[m]? = some method ∧ ∃ frame, LandsFrom method.blocks 0 frame ∧
        moved = ⟨trace, m, frame, []⟩) ∧
    (∀ m moved method, cursor.perform (.method m) = (moved, .done) →
      trace.methods[m]? = some method →
        IsLeast (addressable method.blocks) moved.frame ∧ moved.isOnStep = true ∨
          addressable method.blocks = ∅ ∧ moved.position = ⟨m, 0, 0⟩ ∧ moved.isOnStep = false) ∧
    cursor.StandsIn trace cursor.currentBlocks ∧
    (∀ b moved, cursor.perform (.block b) = (moved, .done) ↔ b < cursor.currentBlocks.length ∧
      ∃ frame, LandsFrom cursor.currentBlocks b frame ∧ moved = { cursor with frame }) ∧
    (∀ b moved, cursor.perform (.block b) = (moved, .done) →
      (moved.isOnStep = true ↔ ∃ place ∈ addressable cursor.currentBlocks, b ≤ place.block)) ∧
    ∀ other, Reachable trace other →
      (∀ m moved moved', cursor.perform (.method m) = (moved, .done) →
        other.perform (.method m) = (moved', .done) → moved = moved') ∧
      (cursor.method = other.method → cursor.owners = other.owners → ∀ b moved moved',
        cursor.perform (.block b) = (moved, .done) → other.perform (.block b) = (moved', .done) →
          moved = moved') := by
  have sameTrace := reachable.wellPlaced.trace_eq
  refine ⟨fun m moved => perform_method_iff reachable, fun m moved method jump found => ?_,
    reachable.wellPlaced.standsIn, fun b moved => perform_block_iff, fun b moved jump => ?_,
    fun other reachable' => ⟨fun m moved moved' jump jump' => ?_,
      fun sameMethod sameOwners b moved moved' jump jump' => ?_⟩⟩
  · obtain ⟨_, found', frame, lands, rfl⟩ := (perform_method_iff reachable).mp jump
    cases found.symm.trans found'
    exact isOnStep_or_of_landsFrom lands found
  · obtain ⟨_, frame, lands, rfl⟩ := perform_block_iff.mp jump
    exact isOnStep_iff.trans lands.mem_addressable_iff
  · obtain ⟨_, found, frame, lands, rfl⟩ := (perform_method_iff reachable).mp jump
    obtain ⟨_, found', frame', lands', rfl⟩ := (perform_method_iff reachable').mp jump'
    cases found.symm.trans found'
    rw [lands.eq lands']
  · have sameBlocks : cursor.currentBlocks = other.currentBlocks := by
      rw [currentBlocks, currentBlocks, currentMethod?, currentMethod?, sameTrace,
        reachable'.wellPlaced.trace_eq, sameMethod, sameOwners]
    obtain ⟨_, frame, lands, rfl⟩ := perform_block_iff.mp jump
    obtain ⟨_, frame', lands', rfl⟩ := perform_block_iff.mp jump'
    rw [sameBlocks] at lands
    rw [lands.eq lands', moveWithin, moveWithin, sameTrace, reachable'.wellPlaced.trace_eq, sameMethod,
      sameOwners]

/-- From a subroutine back past its empty block, to a method without steps, and past the last step of a method. -/
theorem jump_lands_past_empty :
    let cursor : Cursor := ⟨callingTrace, 1, ⟨1, 1⟩, [⟨1, 0⟩]⟩
    let outside : Cursor := ⟨callingTrace, 1, ⟨1, 1⟩, []⟩
    Reachable callingTrace cursor ∧
      cursor.perform (.block 0) = (⟨callingTrace, 1, ⟨1, 0⟩, [⟨1, 0⟩]⟩, .done) ∧
      LandsFrom cursor.currentBlocks 0 ⟨1, 0⟩ ∧
      cursor.perform (.method 0) = (⟨callingTrace, 0, ⟨0, 0⟩, []⟩, .done) ∧
      (Cursor.mk callingTrace 0 ⟨0, 0⟩ []).isOnStep = false ∧
      Reachable callingTrace outside ∧
      outside.perform (.block 2) = (⟨callingTrace, 1, ⟨2, 0⟩, []⟩, .done) ∧
      LandsFrom outside.currentBlocks 2 ⟨2, 0⟩ ∧
      (∀ moved moved', cursor.perform (.method 2) = (moved, .done) →
        outside.perform (.method 2) = (moved', .done) → moved = moved') := by
  intro cursor outside
  have reachable : Reachable callingTrace cursor := .perform .forward (.perform .enter .start)
  have reachable' : Reachable callingTrace outside := .perform .forward .start
  obtain ⟨_, landing, _, blocks, _, agree⟩ := jump_lands reachable
  obtain ⟨_, _, _, blocks', _, _⟩ := jump_lands reachable'
  have back : cursor.perform (.block 0) = (⟨callingTrace, 1, ⟨1, 0⟩, [⟨1, 0⟩]⟩, .done) := rfl
  have start : cursor.perform (.method 0) = (⟨callingTrace, 0, ⟨0, 0⟩, []⟩, .done) := rfl
  have past : outside.perform (.block 2) = (⟨callingTrace, 1, ⟨2, 0⟩, []⟩, .done) := rfl
  obtain ⟨_, frame, lands, moved⟩ := (blocks 0 _).mp back
  obtain ⟨_, frame', lands', moved'⟩ := (blocks' 2 _).mp past
  cases moved
  cases moved'
  have inert := (landing 0 _ _ start rfl).resolve_left fun first => Bool.false_ne_true first.2
  exact ⟨reachable, back, lands, start, inert.2.2, reachable', past, lands', (agree outside reachable').1 2⟩

end Cursor

end TraceReplay
