import Mathlib.Algebra.Order.BigOperators.Group.List
import Mathlib.Data.Set.Card
import Mathlib.Order.Interval.Finset.Nat
import TraceReplay.Proofs.Cursor.Numbering
import TraceReplay.Proofs.Trace.Statistics

/-!
Whole walks: a single step repeated in one direction until there is none to take. A step goes to the nearest
place behind and there are finitely many of them, so a walk ends and has been at each of them, in order. At the top
its places are those of the trace, and in a sub-trace those of the innermost list.
-/
namespace TraceReplay

section Sorted

variable {α : Type} {places : Set α} {items : List α} {n : Nat}

theorem ncard_of_nodup (nodup : items.Nodup) (all : ∀ place, place ∈ items ↔ place ∈ places) :
    places.ncard = items.length := by
  classical
  have same : places = ↑items.toFinset := by
    ext place
    simp [all]
  rw [same, Set.ncard_coe_finset, List.toFinset_card_of_nodup nodup]

theorem finite_of_bijOn {number : α → Nat} (numbered : Set.BijOn number places (Set.Iio n)) :
    places.Finite :=
  .of_injOn numbered.mapsTo numbered.injOn (Set.finite_Iio n)

theorem ncard_of_bijOn {number : α → Nat} (numbered : Set.BijOn number places (Set.Iio n)) :
    places.ncard = n := by
  rw [numbered.ncard_eq, ← Finset.coe_Iio, Set.ncard_coe_finset, Nat.card_Iio]

end Sorted

section Recorded

/-- The evaluation that owns a sub-trace counts as well. -/
theorem recordedCount_lt_of_nestedBlocks {blocks inner : List BlockEvaluation} {owner : Frame}
    {evaluation : InstructionEvaluation} (named : owner.evaluation? blocks = some evaluation)
    (owned : evaluation.nestedBlocks = some inner) : recordedCount inner < recordedCount blocks := by
  have mem : (⟨[owner], inner⟩ : Level) ∈ (Level.top blocks).subTraces :=
    Level.mem_subTraces.mpr ⟨owner, evaluation, named, owned, rfl⟩
  have some_evaluation : 0 < evaluationCount blocks :=
    Nat.zero_lt_of_lt (Frame.number_lt_total ⟨evaluation, named⟩)
  calc recordedCount inner
      ≤ ((Level.top blocks).subTraces.map fun sub => recordedCount sub.blocks).sum :=
        List.le_sum_of_mem (List.mem_map_of_mem mem)
    _ < recordedCount blocks := by
        rw [Level.sum_subTraces, recordedCount, length_visits]
        exact Nat.lt_add_of_pos_left some_evaluation

theorem Descends.recordedCount_le {blocks inner : List BlockEvaluation} {owners : List Frame}
    (way : Descends blocks owners inner) : recordedCount inner ≤ recordedCount blocks := by
  induction way with
  | top => exact le_rfl
  | into _ named owned _ ih => exact (recordedCount_lt_of_nestedBlocks named owned).le.trans ih

theorem evaluationCount_le_recordedCount (blocks : List BlockEvaluation) :
    total (blocks.map BlockEvaluation.evaluationCount) ≤ recordedCount blocks := by
  rw [recordedCount, length_visits]
  exact Nat.le_add_right _ _

variable {trace : Trace}

theorem Trace.totalEvaluationCount_le : trace.totalEvaluationCount ≤ trace.recordedCount :=
  List.sum_le_sum fun method _ => evaluationCount_le_statistics method

theorem Trace.recordedCount_le {m : Nat} {method : MethodTrace}
    (found : trace.methods[m]? = some method) :
    TraceReplay.recordedCount method.blocks ≤ trace.recordedCount := by
  have counted : TraceReplay.recordedCount method.blocks = method.statistics.evaluations :=
    (evaluations_statistics method).symm
  rw [counted]
  exact List.le_sum_of_mem
    (List.mem_map_of_mem (f := fun method => method.statistics.evaluations) (List.mem_of_getElem? found))

end Recorded

theorem Frame.number_strictMonoOn (blocks : List BlockEvaluation) :
    StrictMonoOn (Frame.number blocks) (addressable blocks) :=
  fun _ named _ _ before => Frame.number_lt_number named before

/-- The evaluations of a list have the numbers below their count, each number once. -/
theorem Frame.number_bijOn (blocks : List BlockEvaluation) :
    Set.BijOn (Frame.number blocks) (addressable blocks)
      (Set.Iio (total (blocks.map BlockEvaluation.evaluationCount))) := by
  refine ⟨fun _ => number_lt_total, (number_strictMonoOn blocks).injOn, fun n inRange => ?_⟩
  cases search : stepInBlocks 0 blocks n with
  | ok frame => exact ⟨frame, (stepInBlocks_addressable search).2, (number_of_stepInBlocks search).symm⟩
  | error missing =>
      have past := total_of_stepInBlocks search
      exact absurd (Set.mem_Iio.mp inRange) (by omega)

namespace Cursor

/-- The cursors after each success of a move that is repeated until it fails. -/
inductive Exhausts (move : Move) : Cursor → List Cursor → Prop
  | ends {cursor : Cursor} : (cursor.perform move).2.succeeded = false → Exhausts move cursor []
  | step {cursor moved : Cursor} {reply : Reply} {trail : List Cursor} :
      cursor.perform move = (moved, reply) → reply.succeeded = true → Exhausts move moved trail →
      Exhausts move cursor (moved :: trail)

/-- A limit that a trail keeps to cuts nothing off. -/
theorem Exhausts.trailWithin_eq {move : Move} {cursor : Cursor} {trail : List Cursor}
    (exhausts : Exhausts move cursor trail) {limit : Nat} (enough : trail.length ≤ limit) :
    trailWithin move limit cursor = trail := by
  induction exhausts generalizing limit with
  | ends failed =>
      cases limit with
      | zero => rfl
      | succ limit =>
          rw [trailWithin]
          exact if_neg (Bool.eq_false_iff.mp failed)
  | step moves succeeds _ ih =>
      obtain ⟨limit, rfl⟩ := Nat.exists_eq_add_one.mpr (Nat.zero_lt_of_lt enough)
      rw [trailWithin, moves]
      simp only [succeeds, if_true]
      exact congrArg _ (ih (Nat.le_of_succ_le_succ enough))

inductive Walk (move : Move) : Cursor → List Cursor → Prop
  | ends {cursor : Cursor} :
      cursor.perform move = (cursor, .stepped false) → Walk move cursor []
  | step {cursor moved : Cursor} {walk : List Cursor} :
      cursor.perform move = (moved, .stepped true) → Walk move moved walk →
      Walk move cursor (moved :: walk)

theorem Walk.exhausts {move : Move} {cursor : Cursor} {walk : List Cursor}
    (walks : Walk move cursor walk) : Exhausts move cursor walk := by
  induction walks with
  | ends ended => exact .ends (ended ▸ rfl)
  | step stepped _ ih => exact .step stepped rfl ih

section Nearest

variable {α : Type} [LinearOrder α] {places : Set α} {move : Move} {go : α → Cursor} {here : α}

/-- A step that always goes to the nearest place behind goes through all of them. -/
theorem exists_walk (finite : places.Finite)
    (steps : ∀ place ∈ insert here places, ∃ target,
      Finds IsLeast (places ∩ Set.Ioi place) target ∧
        (go place).perform move = (go place).stepTo (target.map go)) :
    ∃ ahead : List α, Walk move (go here) (ahead.map go) ∧ (here :: ahead).Pairwise (· < ·) ∧
      ∀ place, place ∈ ahead ↔ place ∈ places ∧ here < place := by
  induction size : (places ∩ Set.Ioi here).ncard using Nat.strongRecOn generalizing here with
  | ind n ih =>
      obtain ⟨target, finds, step⟩ := steps here (Set.mem_insert here places)
      cases target with
      | none =>
          refine ⟨[], .ends step, List.pairwise_singleton _ _, fun place => ?_⟩
          have none_left := Set.eq_empty_iff_forall_notMem.mp finds place
          simpa using none_left
      | some next =>
          obtain ⟨⟨named, after⟩, least⟩ := finds
          -- the next place is the one of those ahead that is no longer ahead of it
          have fewer : (places ∩ Set.Ioi next).ncard < (places ∩ Set.Ioi here).ncard := by
            refine Set.ncard_lt_ncard ⟨?_, ?_⟩ (finite.inter_of_left _)
            · exact fun place ⟨named, later⟩ => ⟨named, lt_trans after later⟩
            · exact fun within => lt_irrefl next (within ⟨named, after⟩).2
          obtain ⟨ahead, walk, ascending, all⟩ := ih _ (size ▸ fewer)
            (fun place mem => steps place (.inr (mem.elim (fun same => same ▸ named) id))) rfl
          have behind : ∀ place ∈ next :: ahead, here < place := by
            refine List.forall_mem_cons.mpr ⟨after, fun place mem => ?_⟩
            exact lt_trans after ((all place).mp mem).2
          refine ⟨next :: ahead, .step step walk, ascending.cons behind, fun place => ?_⟩
          rw [List.mem_cons, all]
          constructor
          · rintro (rfl | ⟨named', later⟩)
            · exact ⟨named, after⟩
            · exact ⟨named', lt_trans after later⟩
          · intro ⟨named', after'⟩
            rcases (least ⟨named', after'⟩).eq_or_lt with same | later
            · exact .inl same.symm
            · exact .inr ⟨named', later⟩

end Nearest

/-- A walk to the end and one back from there, through these places. Going on from `here` leads through
all places behind it, in order. The end has no place behind it, and going back leads through all others, down
to the first one. -/
structure Enumerates {α : Type} [LinearOrder α] (cursor : Cursor) (places : Set α) (here : α)
    (go : α → Cursor) (ahead back : List α) : Prop where
  forward : Walk .forward cursor (ahead.map go)
  ascending : (here :: ahead).Pairwise (· < ·)
  mem_ahead (place : α) : place ∈ ahead ↔ place ∈ places ∧ here < place
  backward : Walk .backward (go (ahead.getLastD here)) (back.map go)
  descending : (ahead.getLastD here :: back).Pairwise (· > ·)
  mem_back (place : α) : place ∈ back ↔ place ∈ places ∧ place < ahead.getLastD here
  all (place : α) : place ∈ places → place ∈ ahead.getLastD here :: back

section Enumerates

variable {α : Type} [LinearOrder α] {places : Set α} {here : α} {ahead : List α}

theorem le_getLastD (ascending : (here :: ahead).Pairwise (· < ·)) :
    ∀ place ∈ here :: ahead, place ≤ ahead.getLastD here := by
  induction ahead generalizing here with
  | nil => simp
  | cons next ahead ih =>
      obtain ⟨first, others⟩ := List.pairwise_cons.mp ascending
      rw [List.getLastD_cons]
      refine List.forall_mem_cons.mpr ⟨?_, ih others⟩
      exact (first next List.mem_cons_self).le.trans (ih others next List.mem_cons_self)

/-- Steps to the nearest place, in both directions, make walks through all places. -/
theorem exists_enumerates {cursor : Cursor} (finite : places.Finite) {go : α → Cursor}
    (start : go here = cursor)
    (onward : ∀ place ∈ insert here places, ∃ target,
      Finds IsLeast (places ∩ Set.Ioi place) target ∧
        (go place).perform .forward = (go place).stepTo (target.map go))
    (backward : ∀ place ∈ insert here places, ∃ target,
      Finds IsGreatest (places ∩ Set.Iio place) target ∧
        (go place).perform .backward = (go place).stepTo (target.map go)) :
    ∃ ahead back, cursor.Enumerates places here go ahead back := by
  obtain ⟨ahead, walk, ascending, mem_ahead⟩ := exists_walk finite onward
  have last : ahead.getLastD here ∈ insert here places := by
    rcases List.mem_cons.mp List.getLastD_mem_cons with same | mem
    · exact .inl same
    · exact .inr ((mem_ahead _).mp mem).1
  have backFrom : ∀ place ∈ insert (ahead.getLastD here) places, place ∈ insert here places :=
    fun place mem => mem.elim (fun same => same ▸ last) .inr
  -- going back is going on in the opposite order
  obtain ⟨back, walkBack, descending, mem_back⟩ :=
    exists_walk (α := αᵒᵈ) finite fun place mem => backward place (backFrom place mem)
  refine ⟨ahead, back, start ▸ walk, ascending, mem_ahead, walkBack, descending, mem_back, ?_⟩
  intro place named
  have noneBehind : place ≤ ahead.getLastD here := by
    by_contra beyond
    have ahead_of_here := (le_getLastD ascending here List.mem_cons_self).trans_lt (not_le.mp beyond)
    have mem := (mem_ahead place).mpr ⟨named, ahead_of_here⟩
    exact beyond (le_getLastD ascending place (List.mem_cons_of_mem _ mem))
  rcases noneBehind.eq_or_lt with same | before
  · exact same ▸ List.mem_cons_self
  · exact List.mem_cons_of_mem _ ((mem_back place).mpr ⟨named, before⟩)

/-- As many cursors are walked through as there are places ahead, and one more if the walk begins on the
first place. -/
theorem Enumerates.length_ahead {cursor : Cursor} {go : α → Cursor} {ahead back : List α}
    (walks : cursor.Enumerates places here go ahead back) (first : IsLeast places here) :
    (ahead.map go).length + 1 = places.ncard := by
  rw [List.length_map, ← List.length_cons (a := here)]
  refine (ncard_of_nodup (walks.ascending.imp ne_of_lt) fun place => ?_).symm
  rw [List.mem_cons, walks.mem_ahead]
  constructor
  · rintro (rfl | ⟨named, _⟩)
    · exact first.1
    · exact named
  · intro named
    rcases (first.2 named).eq_or_lt with same | after
    · exact .inl same.symm
    · exact .inr ⟨named, after⟩

/-- No walk is longer than there are places. -/
theorem Enumerates.trail_eq {cursor : Cursor} {go : α → Cursor} {ahead back : List α}
    (walks : cursor.Enumerates places here go ahead back) (finite : places.Finite)
    (sameTrace : ∀ place, (go place).trace = cursor.trace)
    (few : places.ncard ≤ cursor.trace.recordedCount) :
    cursor.trail .forward = ahead.map go ∧
      (go (ahead.getLastD here)).trail .backward = back.map go := by
  have short {items : List α} (nodup : items.Nodup) (within : ∀ place ∈ items, place ∈ places) :
      (items.map go).length ≤ cursor.trace.recordedCount := by
    have count : Set.ncard {place | place ∈ items} = items.length := ncard_of_nodup nodup fun _ => .rfl
    rw [List.length_map, ← count]
    exact (Set.ncard_le_ncard within finite).trans few
  constructor
  · refine walks.forward.exhausts.trailWithin_eq (short ?_ fun place mem => ((walks.mem_ahead place).mp mem).1)
    exact walks.ascending.of_cons.imp ne_of_lt
  · rw [trail, sameTrace]
    refine walks.backward.exhausts.trailWithin_eq (short ?_ fun place mem => ((walks.mem_back place).mp mem).1)
    exact walks.descending.of_cons.imp ne_of_gt

end Enumerates

section Scope

variable {trace : Trace} {cursor : Cursor}

theorem enumerates_of_top (placed : WellPlaced trace cursor) (top : cursor.owners = []) :
    ∃ ahead back,
      cursor.Enumerates trace.addressable cursor.position cursor.moveTo ahead back := by
  have finite := finite_of_bijOn trace.stepNumber_bijOn
  have start : cursor.moveTo cursor.position = cursor := by
    rw [position_of_top top]
    rfl
  have placedAt (place) (mem : place ∈ insert cursor.position trace.addressable) :
      WellPlaced trace (cursor.moveTo place) := by
    rcases mem with rfl | named
    · exact start.symm ▸ placed
    · exact placed.moveTo top (placed.trace_eq ▸ named)
  have sameTrace := placed.trace_eq
  refine exists_enumerates finite start (fun place _ => ?_) fun place mem => ?_
  · have topAt : (cursor.moveTo place).owners = [] := top
    obtain ⟨target, finds, onward⟩ := next?_of_top topAt
    rw [position_moveTo top] at finds
    exact ⟨target, sameTrace ▸ finds, congrArg (cursor.moveTo place).stepTo onward⟩
  · have topAt : (cursor.moveTo place).owners = [] := top
    obtain ⟨target, finds, back⟩ := previous?_of_top topAt (placedAt place mem).rests.eval_le
    rw [position_moveTo top] at finds
    exact ⟨target, sameTrace ▸ finds, congrArg (cursor.moveTo place).stepTo back⟩

/-- In a sub-trace, a walk stays in its own list. -/
theorem enumerates_of_nested (placed : WellPlaced trace cursor) (nested : cursor.owners ≠ []) :
    ∃ ahead back, cursor.Enumerates (addressable cursor.currentBlocks) cursor.frame
      cursor.moveWithin ahead back := by
  have finite := finite_of_bijOn (Frame.number_bijOn cursor.currentBlocks)
  have within (place) (mem : place ∈ insert cursor.frame (addressable cursor.currentBlocks)) :
      place.eval ≤ place.evaluationCount cursor.currentBlocks := by
    rcases mem with rfl | named
    · exact placed.rests.eval_le
    · exact (mem_addressable.mp named).le
  refine exists_enumerates finite rfl (fun place _ => ⟨_, nextStep_finds _ place, ?_⟩)
    fun place mem => ⟨_, previousStep_finds _ (within place mem), ?_⟩
  · exact congrArg (cursor.moveWithin place).stepTo (next?_of_nested nested)
  · exact congrArg (cursor.moveWithin place).stepTo (previous?_of_nested nested)

theorem isLeast_start (some_step : 0 < trace.totalEvaluationCount) :
    IsLeast trace.addressable (Cursor.start trace).position := by
  have finds : Finds IsLeast trace.addressable _ :=
    (firstStepFrom_finds trace 0).congr (Set.inter_eq_left.mpr fun _ _ => Nat.zero_le _)
  unfold Cursor.start
  split
  case h_1 m frame first =>
      rw [first] at finds
      exact finds
  case h_2 none_first =>
      rw [none_first] at finds
      obtain ⟨position, named, _⟩ := trace.stepNumber_bijOn.surjOn some_step
      exact absurd named (Set.eq_empty_iff_forall_notMem.mp finds position)

/-- Going into a sub-trace leads to the first of its evaluations. -/
theorem exists_isLeast_of_enter {entered : Cursor} (enters : cursor.enter = .ok entered) :
    ∃ evaluation nested, cursor.currentEvaluation? = some evaluation ∧
      evaluation.nestedBlocks = some nested ∧ entered.currentBlocks = nested ∧
      entered.owners ≠ [] ∧ IsLeast (addressable nested) entered.frame := by
  rw [enter] at enters
  split at enters
  case h_1 frame first =>
      cases enters
      obtain ⟨evaluation, current, first⟩ := Option.bind_eq_some_iff.mp first
      obtain ⟨nested, owned, first⟩ := Option.bind_eq_some_iff.mp first
      have finds : Finds IsLeast (addressable nested) (firstStep nested 0) :=
        (firstStep_finds nested 0).congr (Set.inter_eq_left.mpr fun _ _ => Nat.zero_le _)
      rw [first] at finds
      refine ⟨evaluation, nested, current, owned, ?_, List.cons_ne_nil _ _, finds⟩
      cases found : cursor.currentMethod? with
      | none => simp [currentEvaluation?, currentBlocks, found, Frame.evaluation?] at current
      | some method =>
          have found' : ∀ frame owners, currentMethod? { cursor with frame, owners } = some method :=
            fun _ _ => found
          simp only [currentEvaluation?, currentBlocks, found] at current
          simp only [currentBlocks, found']
          exact blocksBelow_cons current owned
  case h_2 => cases enters

theorem StandsIn.ncard_addressable_le {blocks : List BlockEvaluation}
    (stands : cursor.StandsIn trace blocks) :
    (addressable blocks).ncard ≤ trace.recordedCount := by
  cases stands with
  | noMethods =>
      rw [addressable_nil, Set.ncard_empty]
      exact Nat.zero_le _
  | inMethod found way =>
      calc (addressable blocks).ncard
          = total (blocks.map BlockEvaluation.evaluationCount) :=
            ncard_of_bijOn (Frame.number_bijOn blocks)
        _ ≤ recordedCount blocks := evaluationCount_le_recordedCount blocks
        _ ≤ _ := way.recordedCount_le
        _ ≤ trace.recordedCount := Trace.recordedCount_le found

end Scope

/-- Single steps go through a level exactly. At the top these are the addressable positions of the trace, and in
a sub-trace the addressable frames of the innermost list: a walk on leads through all behind the cursor, in
order, and a walk back from its end through all others. The trails are these walks. A walk from the start
goes through all steps of the trace, and one from where a sub-trace is entered through all of its steps. -/
theorem walk_enumerates {trace : Trace} {cursor : Cursor} (reachable : Reachable trace cursor) :
    (cursor.depth = 0 → ∃ ahead back,
      cursor.Enumerates trace.addressable cursor.position cursor.moveTo ahead back ∧
        cursor.trail .forward = ahead.map cursor.moveTo ∧
        (cursor.moveTo (ahead.getLastD cursor.position)).trail .backward =
          back.map cursor.moveTo) ∧
      (0 < cursor.depth → cursor.StandsIn trace cursor.currentBlocks ∧ ∃ ahead back,
        cursor.Enumerates (addressable cursor.currentBlocks) cursor.frame cursor.moveWithin ahead
            back ∧
          cursor.trail .forward = ahead.map cursor.moveWithin ∧
          (cursor.moveWithin (ahead.getLastD cursor.frame)).trail .backward =
            back.map cursor.moveWithin) ∧
      (0 < trace.totalEvaluationCount → ∃ walk, Walk .forward (start trace) walk ∧
        walk.length = trace.totalEvaluationCount - 1) ∧
      ∀ entered, cursor.perform .enter = (entered, .done) → ∃ evaluation nested walk,
        cursor.currentEvaluation? = some evaluation ∧ evaluation.nestedBlocks = some nested ∧
          Walk .forward entered walk ∧
          (entered :: walk).length = total (nested.map BlockEvaluation.evaluationCount) := by
  have placed := reachable.wellPlaced
  have sameTrace := placed.trace_eq
  refine ⟨fun atTop => ?_, fun nested => ⟨placed.standsIn, ?_⟩, fun some_step => ?_,
    fun entered enters => ?_⟩
  · obtain ⟨ahead, back, walks⟩ := enumerates_of_top placed (List.length_eq_zero_iff.mp atTop)
    have numbered := trace.stepNumber_bijOn
    have few : trace.addressable.ncard ≤ cursor.trace.recordedCount := by
      rw [ncard_of_bijOn numbered, sameTrace]
      exact Trace.totalEvaluationCount_le
    exact ⟨ahead, back, walks, walks.trail_eq (finite_of_bijOn numbered) (fun _ => rfl) few⟩
  · obtain ⟨ahead, back, walks⟩ := enumerates_of_nested placed (List.length_pos_iff.mp nested)
    have finite := finite_of_bijOn (Frame.number_bijOn cursor.currentBlocks)
    have few := placed.standsIn.ncard_addressable_le
    exact ⟨ahead, back, walks, walks.trail_eq finite (fun _ => rfl) (sameTrace.symm ▸ few)⟩
  · have first := isLeast_start some_step
    have top : (start trace).owners = [] := by
      rw [start]
      split <;> rfl
    obtain ⟨ahead, back, walks⟩ := enumerates_of_top (.start trace) top
    refine ⟨_, walks.forward, ?_⟩
    rw [← ncard_of_bijOn trace.stepNumber_bijOn, ← walks.length_ahead first, Nat.add_sub_cancel]
  · have enters : cursor.enter = .ok entered := by
      cases way : cursor.enter with
      | ok moved =>
          rw [perform, way] at enters
          cases enters
          rfl
      | error =>
          rw [perform, way] at enters
          cases enters
    obtain ⟨evaluation, nested, current, owned, rfl, below, first⟩ := exists_isLeast_of_enter enters
    obtain ⟨ahead, back, walks⟩ := enumerates_of_nested (placed.enter enters) below
    refine ⟨evaluation, _, _, current, owned, walks.forward, ?_⟩
    rw [List.length_cons, walks.length_ahead first]
    exact ncard_of_bijOn (Frame.number_bijOn _)

/-- From an inert cursor before the first step, and into a subroutine of two steps. -/
theorem walk_enumerates_calling :
    let inert : Cursor := ⟨callingTrace, 0, ⟨0, 0⟩, []⟩
    let inside : Cursor := ⟨callingTrace, 1, ⟨1, 0⟩, [⟨1, 0⟩]⟩
    Reachable callingTrace inert ∧ inert.isOnStep = false ∧
      (∃ ahead back, inert.Enumerates callingTrace.addressable inert.position inert.moveTo ahead
        back) ∧
      Reachable callingTrace inside ∧ 0 < inside.depth ∧
      (∃ ahead back, inside.Enumerates (addressable inside.currentBlocks) inside.frame
        inside.moveWithin ahead back) ∧
      (∃ walk, Walk .forward (start callingTrace) walk ∧ walk.length = 2) ∧
      ∃ walk, Walk .forward inside walk ∧ (inside :: walk).length = 2 := by
  intro inert inside
  have reachable : Reachable callingTrace inert := .perform (.method 0) .start
  have reachableInside : Reachable callingTrace inside := .perform .enter .start
  obtain ⟨top, _, all, _⟩ := walk_enumerates reachable
  obtain ⟨_, within, _, _⟩ := walk_enumerates reachableInside
  obtain ⟨_, _, _, enters⟩ := walk_enumerates (.start : Reachable callingTrace (start callingTrace))
  obtain ⟨ahead, back, walks, _⟩ := top rfl
  obtain ⟨_, ahead', back', walks', _⟩ := within (Nat.zero_lt_succ 0)
  obtain ⟨evaluation, nested, walk, current, owned, walked, count⟩ := enters inside rfl
  cases current
  cases owned
  exact ⟨reachable, rfl, ⟨ahead, back, walks⟩, reachableInside, Nat.zero_lt_succ 0,
    ⟨ahead', back', walks'⟩, all (by decide), walk, walked, count⟩

end Cursor

end TraceReplay
