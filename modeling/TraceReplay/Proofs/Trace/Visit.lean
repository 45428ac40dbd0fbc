import TraceReplay.Proofs.Cursor.Order
import TraceReplay.Proofs.Trace.Level
import TraceReplay.Trace.Statistics

/-!
The evaluations of a method in the order of the tree: each with its sub-trace right behind it. That is the
order of their addresses, and every evaluation is visited at its address alone. Their number agrees with
the statistics of the method.
-/
namespace TraceReplay

/-- An evaluation at its address: its frame, and those of the evaluations that own the sub-traces around
it, innermost first. -/
structure Visit where
  owners : List Frame
  frame : Frame
  evaluation : InstructionEvaluation

/-- The address of a visit, outermost frame first. -/
def Visit.frames (visit : Visit) : List Frame := visit.owners.reverse ++ [visit.frame]

mutual

/-- The visits of blocks numbered from `b`, in pre-order; `nested` tells whether sub-traces are visited. -/
def visits (nested : Bool) (owners : List Frame) (b : Nat) : List BlockEvaluation → List Visit
  | [] => []
  | block :: blocks => block.visits nested owners b ++ visits nested owners (b + 1) blocks

def BlockEvaluation.visits (nested : Bool) (owners : List Frame) (b : Nat) :
    BlockEvaluation → List Visit
  | ⟨_, _, _, _, _, evaluations⟩ => evaluationVisits nested owners b 0 evaluations

def evaluationVisits (nested : Bool) (owners : List Frame) (b e : Nat) :
    List InstructionEvaluation → List Visit
  | [] => []
  | evaluation :: evaluations =>
    ⟨owners, ⟨b, e⟩, evaluation⟩ :: (evaluation.visitsInside nested (⟨b, e⟩ :: owners) ++
      evaluationVisits nested owners b (e + 1) evaluations)

def InstructionEvaluation.visitsInside (nested : Bool) (owners : List Frame) :
    InstructionEvaluation → List Visit
  | ⟨_, _, _, _, _, _, _, _, none⟩ => []
  | ⟨_, _, _, _, _, _, _, _, some blocks⟩ => if nested then visits nested owners 0 blocks else []

end

theorem BlockEvaluation.visits_eq (nested : Bool) (owners : List Frame) (b : Nat)
    (block : BlockEvaluation) :
    block.visits nested owners b = evaluationVisits nested owners b 0 block.evaluations := by
  cases block
  rfl

theorem InstructionEvaluation.visitsInside_eq (nested : Bool) (owners : List Frame)
    (evaluation : InstructionEvaluation) :
    evaluation.visitsInside nested owners =
      if nested then (evaluation.nestedBlocks.map (TraceReplay.visits nested owners 0)).getD []
      else [] := by
  obtain ⟨_, _, _, _, _, _, _, _, inside⟩ := evaluation
  cases inside with
  | none => simp [visitsInside]
  | some blocks => rfl

section Membership

variable {nested : Bool} {owners : List Frame} {visit : Visit}

theorem mem_evaluationVisits {b e : Nat} {evaluations : List InstructionEvaluation} :
    visit ∈ evaluationVisits nested owners b e evaluations ↔
      ∃ k evaluation, evaluations[k]? = some evaluation ∧
        (visit = ⟨owners, ⟨b, e + k⟩, evaluation⟩ ∨
          visit ∈ evaluation.visitsInside nested (⟨b, e + k⟩ :: owners)) := by
  induction evaluations generalizing e with
  | nil => simp [evaluationVisits]
  | cons evaluation evaluations ih =>
      rw [evaluationVisits, List.mem_cons, List.mem_append, ih, ← or_assoc]
      constructor
      · intro h
        cases h with
        | inl here => exact ⟨0, evaluation, rfl, here⟩
        | inr later =>
            obtain ⟨k, found, at_k, mem⟩ := later
            rw [Nat.add_right_comm] at mem
            exact ⟨k + 1, found, at_k, mem⟩
      · intro ⟨k, found, at_k, mem⟩
        cases k with
        | zero =>
            cases at_k
            exact .inl mem
        | succ k =>
            refine .inr ⟨k, found, at_k, ?_⟩
            rwa [Nat.add_right_comm]

theorem mem_visits_numbered {b : Nat} {blocks : List BlockEvaluation} :
    visit ∈ visits nested owners b blocks ↔
      ∃ k block, blocks[k]? = some block ∧
        visit ∈ evaluationVisits nested owners (b + k) 0 block.evaluations := by
  induction blocks generalizing b with
  | nil => simp [visits]
  | cons block blocks ih =>
      rw [visits, List.mem_append, ih, block.visits_eq]
      constructor
      · intro h
        cases h with
        | inl here => exact ⟨0, block, rfl, here⟩
        | inr later =>
            obtain ⟨k, found, at_k, mem⟩ := later
            rw [Nat.add_right_comm] at mem
            exact ⟨k + 1, found, at_k, mem⟩
      · intro ⟨k, found, at_k, mem⟩
        cases k with
        | zero =>
            cases at_k
            exact .inl mem
        | succ k =>
            refine .inr ⟨k, found, at_k, ?_⟩
            rwa [Nat.add_right_comm]

/-- What is visited in a list are its own evaluations and what is visited inside of them. -/
theorem mem_visits {blocks : List BlockEvaluation} :
    visit ∈ visits nested owners 0 blocks ↔
      ∃ frame evaluation, frame.evaluation? blocks = some evaluation ∧
        (visit = ⟨owners, frame, evaluation⟩ ∨
          visit ∈ evaluation.visitsInside nested (frame :: owners)) := by
  rw [mem_visits_numbered]
  constructor
  · intro ⟨b, block, at_b, mem⟩
    obtain ⟨e, evaluation, at_e, mem⟩ := mem_evaluationVisits.mp mem
    rw [Nat.zero_add, Nat.zero_add] at mem
    exact ⟨⟨b, e⟩, evaluation, Option.bind_eq_some_iff.mpr ⟨block, at_b, at_e⟩, mem⟩
  · intro ⟨⟨b, e⟩, evaluation, named, mem⟩
    obtain ⟨block, at_b, at_e⟩ := Option.bind_eq_some_iff.mp named
    refine ⟨b, block, at_b, mem_evaluationVisits.mpr ⟨e, evaluation, at_e, ?_⟩⟩
    rwa [Nat.zero_add, Nat.zero_add]

theorem mem_visitsInside {evaluation : InstructionEvaluation} :
    visit ∈ evaluation.visitsInside nested owners ↔
      nested = true ∧ ∃ blocks, evaluation.nestedBlocks = some blocks ∧
        visit ∈ visits nested owners 0 blocks := by
  rw [evaluation.visitsInside_eq]
  cases nested with
  | false => simp
  | true => cases evaluation.nestedBlocks <;> simp

/-- What is visited in a sub-trace is visited below the owners of the sub-trace. -/
theorem owners_suffix_of_mem_visits {blocks : List BlockEvaluation}
    (mem : visit ∈ visits nested owners 0 blocks) : owners <:+ visit.owners := by
  induction size : listCount blocks using Nat.strongRecOn generalizing owners blocks with
  | ind n ih =>
      obtain ⟨frame, evaluation, named, here⟩ := mem_visits.mp mem
      cases here with
      | inl same => exact same ▸ List.suffix_refl owners
      | inr inside =>
          obtain ⟨_, inner, owned, mem⟩ := mem_visitsInside.mp inside
          have smaller := Level.listCount_lt_of_nestedBlocks named owned
          exact (List.suffix_cons frame owners).trans (ih _ (size ▸ smaller) mem rfl)

theorem blocksBelow_cons {blocks inner : List BlockEvaluation} {owner : Frame}
    {evaluation : InstructionEvaluation}
    (named : owner.evaluation? (blocksBelow blocks owners) = some evaluation)
    (owned : evaluation.nestedBlocks = some inner) :
    blocksBelow blocks (owner :: owners) = inner := by
  rw [blocksBelow, named, Option.bind_some, owned, Option.getD_some]

/-- A visit has the evaluation that its frames lead to. -/
theorem evaluation?_of_mem_visits {blocks : List BlockEvaluation}
    (mem : visit ∈ visits nested owners 0 (blocksBelow blocks owners)) :
    visit.frame.evaluation? (blocksBelow blocks visit.owners) = some visit.evaluation := by
  induction size : listCount (blocksBelow blocks owners) using Nat.strongRecOn
    generalizing owners with
  | ind n ih =>
      obtain ⟨frame, evaluation, named, here⟩ := mem_visits.mp mem
      cases here with
      | inl same => rw [same, named]
      | inr inside =>
          obtain ⟨_, inner, owned, mem⟩ := mem_visitsInside.mp inside
          have smaller := Level.listCount_lt_of_nestedBlocks named owned
          rw [← blocksBelow_cons named owned] at mem smaller
          exact ih _ (size ▸ smaller) mem rfl

theorem mem_visits_of_below {blocks : List BlockEvaluation}
    (mem : visit ∈ visits true owners 0 (blocksBelow blocks owners)) :
    visit ∈ visits true [] 0 blocks := by
  induction owners with
  | nil => exact mem
  | cons owner owners ih =>
      cases owned : (owner.evaluation? (blocksBelow blocks owners)).bind (·.nestedBlocks) with
      | none =>
          rw [blocksBelow, owned] at mem
          cases mem
      | some inner =>
          obtain ⟨evaluation, named, owned⟩ := Option.bind_eq_some_iff.mp owned
          rw [blocksBelow_cons named owned] at mem
          exact ih (mem_visits.mpr ⟨owner, evaluation, named,
            .inr (mem_visitsInside.mpr ⟨rfl, inner, owned, mem⟩)⟩)

/-- The visits of a method are all of its evaluations, or all that are not in a sub-trace. -/
theorem mem_visits_iff {blocks : List BlockEvaluation} :
    visit ∈ visits nested [] 0 blocks ↔
      visit.frame.evaluation? (blocksBelow blocks visit.owners) = some visit.evaluation ∧
        (nested = true ∨ visit.owners = []) := by
  constructor
  · intro mem
    refine ⟨evaluation?_of_mem_visits mem, ?_⟩
    cases nested with
    | true => exact .inl rfl
    | false =>
        obtain ⟨frame, evaluation, named, here⟩ := mem_visits.mp mem
        cases here with
        | inl same => exact .inr (congrArg Visit.owners same)
        | inr inside => exact absurd (mem_visitsInside.mp inside).1 Bool.false_ne_true
  · intro ⟨named, shown⟩
    have here : visit ∈ visits nested visit.owners 0 (blocksBelow blocks visit.owners) :=
      mem_visits.mpr ⟨visit.frame, visit.evaluation, named, .inl rfl⟩
    cases shown with
    | inl nested =>
        subst nested
        exact mem_visits_of_below here
    | inr top => rwa [top] at here

end Membership

section Order

variable {nested : Bool} {owners : List Frame} {frame other : Frame} {x y : Visit}

/-- At an evaluation, or somewhere in the sub-trace that it owns. -/
def Visit.Within (owners : List Frame) (frame : Frame) (visit : Visit) : Prop :=
  ∃ more, visit.frames = owners.reverse ++ frame :: more

theorem within_of_visitsInside {evaluation : InstructionEvaluation}
    (mem : x ∈ evaluation.visitsInside nested (frame :: owners)) :
    ∃ more, x.frames = owners.reverse ++ frame :: more ∧ more ≠ [] := by
  obtain ⟨_, inner, owned, mem⟩ := mem_visitsInside.mp mem
  obtain ⟨deeper, address⟩ := owners_suffix_of_mem_visits mem
  refine ⟨deeper.reverse ++ [x.frame], ?_, by simp⟩
  rw [Visit.frames, ← address]
  simp

theorem within_of_mem_evaluationVisits {b e : Nat} {evaluations : List InstructionEvaluation}
    (mem : x ∈ evaluationVisits nested owners b e evaluations) :
    ∃ k, e ≤ k ∧ x.Within owners ⟨b, k⟩ := by
  obtain ⟨k, evaluation, _, here⟩ := mem_evaluationVisits.mp mem
  refine ⟨e + k, Nat.le_add_right e k, ?_⟩
  cases here with
  | inl same => exact ⟨[], by rw [same, Visit.frames]⟩
  | inr inside =>
      obtain ⟨more, address, _⟩ := within_of_visitsInside inside
      exact ⟨more, address⟩

theorem within_of_mem_visits {b : Nat} {blocks : List BlockEvaluation}
    (mem : x ∈ visits nested owners b blocks) :
    ∃ frame, b ≤ frame.block ∧ x.Within owners frame := by
  obtain ⟨k, block, _, mem⟩ := mem_visits_numbered.mp mem
  obtain ⟨e, _, within⟩ := within_of_mem_evaluationVisits mem
  exact ⟨⟨b + k, e⟩, Nat.le_add_right b k, within⟩

/-- What is at an evaluation or below it comes before what is at a later one or below that. -/
theorem frames_lt_of_within (first : x.Within owners frame) (second : y.Within owners other)
    (before : frame < other) : x.frames < y.frames := by
  obtain ⟨more, address⟩ := first
  obtain ⟨more', address'⟩ := second
  rw [address, address']
  exact List.append_left_lt (.rel before)

theorem frames_lt_of_inside {evaluation : InstructionEvaluation}
    (mem : x ∈ evaluation.visitsInside nested (frame :: owners)) :
    owners.reverse ++ [frame] < x.frames := by
  obtain ⟨more, address, deeper⟩ := within_of_visitsInside mem
  rw [address]
  refine List.append_left_lt (.cons ?_)
  cases more with
  | nil => exact absurd rfl deeper
  | cons frame more => exact .nil

mutual

/-- Pre-order is the order of addresses, where an address stands before those it leads to. -/
theorem visits_ordered (nested : Bool) (owners : List Frame) (b : Nat) :
    (blocks : List BlockEvaluation) →
      (visits nested owners b blocks).Pairwise (·.frames < ·.frames)
  | [] => by
      rw [visits]
      exact .nil
  | block :: blocks => by
      rw [visits]
      refine List.pairwise_append.mpr ⟨block.visits_ordered nested owners b,
        visits_ordered nested owners (b + 1) blocks, fun x early y late => ?_⟩
      rw [block.visits_eq] at early
      obtain ⟨e, _, first⟩ := within_of_mem_evaluationVisits early
      obtain ⟨frame, later, second⟩ := within_of_mem_visits late
      exact frames_lt_of_within first second (Frame.lt_iff.mpr (.inl later))

theorem BlockEvaluation.visits_ordered (nested : Bool) (owners : List Frame) (b : Nat) :
    (block : BlockEvaluation) → (block.visits nested owners b).Pairwise (·.frames < ·.frames)
  | ⟨_, _, _, _, _, evaluations⟩ => evaluationVisits_ordered nested owners b 0 evaluations

theorem evaluationVisits_ordered (nested : Bool) (owners : List Frame) (b e : Nat) :
    (evaluations : List InstructionEvaluation) →
      (evaluationVisits nested owners b e evaluations).Pairwise (·.frames < ·.frames)
  | [] => by
      rw [evaluationVisits]
      exact .nil
  | evaluation :: evaluations => by
      have later : ∀ y ∈ evaluationVisits nested owners b (e + 1) evaluations,
          ∃ other, (⟨b, e⟩ : Frame) < other ∧ y.Within owners other := by
        intro y mem
        obtain ⟨k, after, within⟩ := within_of_mem_evaluationVisits mem
        exact ⟨⟨b, k⟩, Frame.lt_iff.mpr (.inr ⟨rfl, after⟩), within⟩
      rw [evaluationVisits]
      refine List.pairwise_cons.mpr ⟨fun y mem => ?_, List.pairwise_append.mpr
        ⟨evaluation.visitsInside_ordered nested _,
          evaluationVisits_ordered nested owners b (e + 1) evaluations, fun x mem y late => ?_⟩⟩
      · cases List.mem_append.mp mem with
        | inl inside => exact frames_lt_of_inside inside
        | inr late =>
            obtain ⟨other, after, within⟩ := later y late
            exact frames_lt_of_within ⟨[], rfl⟩ within after
      · obtain ⟨more, address, _⟩ := within_of_visitsInside mem
        obtain ⟨other, after, within⟩ := later y late
        exact frames_lt_of_within ⟨more, address⟩ within after

theorem InstructionEvaluation.visitsInside_ordered (nested : Bool) (owners : List Frame) :
    (evaluation : InstructionEvaluation) →
      (evaluation.visitsInside nested owners).Pairwise (·.frames < ·.frames)
  | ⟨_, _, _, _, _, _, _, _, none⟩ => .nil
  | ⟨_, _, _, _, _, _, _, _, some blocks⟩ => by
      rw [InstructionEvaluation.visitsInside]
      cases nested with
      | true => exact visits_ordered true owners 0 blocks
      | false => exact .nil

end

end Order

end TraceReplay
