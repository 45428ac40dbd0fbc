import TraceReplay.Proofs.Cursor.Order

/-!
The searches of the single steps. Each of them runs through numbered items in one direction, and finds
the best addressable place among those it runs through. No search assumes anything of the trace; only
the one for the previous step within a list asks where it starts from.
-/
namespace TraceReplay

section Numbered

variable {α β : Type} {items : List α}

theorem mem_zipIdx_drop {x : α} {i n : Nat} :
    (x, i) ∈ items.zipIdx.drop n ↔ n ≤ i ∧ items[i]? = some x := by
  rw [List.mem_iff_getElem?]
  simp only [List.getElem?_drop, List.getElem?_zipIdx, Nat.zero_add, Option.map_eq_some_iff,
    Prod.mk.injEq]
  constructor
  · rintro ⟨k, y, found, rfl, rfl⟩
    exact ⟨Nat.le_add_right n k, found⟩
  · intro ⟨late, found⟩
    exact ⟨i - n, x, by rwa [Nat.add_sub_cancel' late], rfl, by omega⟩

theorem mem_zipIdx_take {x : α} {i n : Nat} :
    (x, i) ∈ items.zipIdx.take n ↔ i < n ∧ items[i]? = some x := by
  rw [List.mem_take_iff_getElem]
  simp only [List.getElem_zipIdx, Nat.zero_add, Prod.mk.injEq, List.length_zipIdx]
  constructor
  · rintro ⟨k, inside, rfl, rfl⟩
    exact ⟨by omega, List.getElem?_eq_getElem (by omega)⟩
  · intro ⟨early, found⟩
    obtain ⟨inside, rfl⟩ := List.getElem?_eq_some_iff.mp found
    exact ⟨i, by omega, rfl, rfl⟩

theorem pairwise_zipIdx (items : List α) : items.zipIdx.Pairwise (·.2 < ·.2) := by
  rw [List.pairwise_iff_getElem]
  intro i j _ _ before
  simpa using before

/-- In items that stand in an order, the first one with an answer comes before all others that have
one. -/
theorem findSome?_of_pairwise {R : α → α → Prop} (ordered : items.Pairwise R)
    {answer : α → Option β} {y : β} (h : items.findSome? answer = some y) :
    ∃ x ∈ items, answer x = some y ∧ ∀ x' ∈ items, (answer x').isSome → x' = x ∨ R x x' := by
  obtain ⟨before, x, after, rfl, found, silent⟩ := List.findSome?_eq_some_iff.mp h
  refine ⟨x, by simp, found, ?_⟩
  intro x' mem answers
  rcases List.mem_append.mp mem with early | late
  · simp [silent x' early] at answers
  · rcases List.mem_cons.mp late with rfl | late
    · exact .inl rfl
    · exact .inr (List.rel_of_pairwise_cons (List.pairwise_append.mp ordered).2.1 late)

end Numbered

theorem BlockEvaluation.isEmpty_eq_false_iff {block : BlockEvaluation} :
    block.isEmpty = false ↔ 0 < block.evaluationCount := by
  rw [isEmpty, evaluationCount, List.isEmpty_eq_false_iff, List.length_pos_iff]

section Blocks

variable (blocks : List BlockEvaluation)

/-- Blocks without evaluations are passed over. -/
theorem firstStep_finds (b : Nat) :
    Finds IsLeast (addressable blocks ∩ {frame | b ≤ frame.block}) (firstStep blocks b) := by
  cases h : firstStep blocks b with
  | none =>
      refine Set.eq_empty_iff_forall_notMem.mpr ?_
      intro frame ⟨named, late⟩
      obtain ⟨block, found, inside⟩ := mem_addressable_iff_block.mp named
      have silent := List.findSome?_eq_none_iff.mp h _ (mem_zipIdx_drop.mpr ⟨late, found⟩)
      have nonempty := BlockEvaluation.isEmpty_eq_false_iff.mpr (Nat.zero_lt_of_lt inside)
      simp [nonempty] at silent
  | some frame =>
      obtain ⟨⟨block, i⟩, mem, answer, least⟩ := findSome?_of_pairwise
        ((pairwise_zipIdx blocks).sublist (List.drop_sublist b _)) h
      obtain ⟨late, found⟩ := mem_zipIdx_drop.mp mem
      obtain ⟨nonempty, rfl⟩ : block.isEmpty = false ∧ ⟨i, 0⟩ = frame := by simpa using answer
      have positive := BlockEvaluation.isEmpty_eq_false_iff.mp nonempty
      refine ⟨⟨mem_addressable_iff_block.mpr ⟨block, found, positive⟩, late⟩, ?_⟩
      intro other ⟨named, lateOther⟩
      obtain ⟨block', found', inside⟩ := mem_addressable_iff_block.mp named
      have answers := least (block', other.block) (mem_zipIdx_drop.mpr ⟨lateOther, found'⟩)
      have nonempty' := BlockEvaluation.isEmpty_eq_false_iff.mpr (Nat.zero_lt_of_lt inside)
      rw [Frame.le_iff]
      rcases answers (by simp [nonempty']) with same | later
      · exact .inr ⟨(congrArg Prod.snd same).symm, Nat.zero_le _⟩
      · exact .inl later

theorem lastStep_finds (b : Nat) :
    Finds IsGreatest (addressable blocks ∩ {frame | frame.block < b}) (lastStep blocks b) := by
  cases h : lastStep blocks b with
  | none =>
      refine Set.eq_empty_iff_forall_notMem.mpr ?_
      intro frame ⟨named, early⟩
      obtain ⟨block, found, inside⟩ := mem_addressable_iff_block.mp named
      have silent := List.findSome?_eq_none_iff.mp h _
        (List.mem_reverse.mpr (mem_zipIdx_take.mpr ⟨early, found⟩))
      have nonempty := BlockEvaluation.isEmpty_eq_false_iff.mpr (Nat.zero_lt_of_lt inside)
      simp [nonempty] at silent
  | some frame =>
      obtain ⟨⟨block, i⟩, mem, answer, greatest⟩ := findSome?_of_pairwise (List.pairwise_reverse.mpr
        ((pairwise_zipIdx blocks).sublist (List.take_sublist b _))) h
      obtain ⟨early, found⟩ := mem_zipIdx_take.mp (List.mem_reverse.mp mem)
      obtain ⟨nonempty, rfl⟩ :
          block.isEmpty = false ∧ ⟨i, block.evaluationCount - 1⟩ = frame := by simpa using answer
      have positive := BlockEvaluation.isEmpty_eq_false_iff.mp nonempty
      have ends := Nat.sub_one_lt_of_lt positive
      refine ⟨⟨mem_addressable_iff_block.mpr ⟨block, found, ends⟩, early⟩, ?_⟩
      intro other ⟨named, earlyOther⟩
      obtain ⟨block', found', inside⟩ := mem_addressable_iff_block.mp named
      have answers := greatest (block', other.block)
        (List.mem_reverse.mpr (mem_zipIdx_take.mpr ⟨earlyOther, found'⟩))
      have nonempty' := BlockEvaluation.isEmpty_eq_false_iff.mpr (Nat.zero_lt_of_lt inside)
      rw [Frame.le_iff]
      rcases answers (by simp [nonempty']) with same | earlier
      · obtain ⟨rfl, rfl⟩ := Prod.mk.inj same
        exact .inr ⟨rfl, Nat.le_sub_one_of_lt inside⟩
      · exact .inl earlier

/-- The next step is in the same block, or else the first one in the blocks behind it. -/
theorem nextStep_finds (frame : Frame) :
    Finds IsLeast (addressable blocks ∩ Set.Ioi frame) (nextStep blocks frame) := by
  unfold nextStep
  split
  case isTrue inside =>
      refine ⟨⟨mem_addressable.mpr inside, Frame.lt_iff.mpr (.inr ⟨rfl, Nat.lt_succ_self _⟩)⟩, ?_⟩
      intro other ⟨_, after⟩
      rw [Frame.le_iff]
      rcases Frame.lt_iff.mp after with later | ⟨same, later⟩
      · exact .inl later
      · exact .inr ⟨same, later⟩
  case isFalse last =>
      -- the block of the frame holds nothing after it, so what comes after it is in a later block
      refine (firstStep_finds blocks (frame.block + 1)).congr (Set.ext fun other => ?_)
      refine and_congr_right fun named => ?_
      change frame.block < other.block ↔ frame < other
      rw [Frame.lt_iff]
      refine ⟨.inl, fun after => after.resolve_right ?_⟩
      intro ⟨same, later⟩
      have inside := mem_addressable.mp named
      simp only [Frame.evaluationCount, ← same] at inside last
      omega

/-- A frame beyond the end of its block would miss the evaluations of that block. -/
theorem previousStep_finds {frame : Frame}
    (within : frame.eval ≤ frame.evaluationCount blocks) :
    Finds IsGreatest (addressable blocks ∩ Set.Iio frame) (previousStep blocks frame) := by
  unfold previousStep
  split
  case isTrue inside =>
      have before := Nat.sub_one_lt_of_lt inside.1
      refine ⟨⟨mem_addressable.mpr ?_, Frame.lt_iff.mpr (.inr ⟨rfl, before⟩)⟩, ?_⟩
      · change frame.eval - 1 < frame.evaluationCount blocks
        omega
      · intro other ⟨_, before⟩
        rw [Frame.le_iff]
        rcases Frame.lt_iff.mp before with earlier | ⟨same, earlier⟩
        · exact .inl earlier
        · exact .inr ⟨same, Nat.le_sub_one_of_lt earlier⟩
  case isFalse first =>
      have start : frame.eval = 0 := by omega
      refine (lastStep_finds blocks frame.block).congr (Set.ext fun other => ?_)
      refine and_congr_right fun _ => ?_
      change other.block < frame.block ↔ other < frame
      rw [Frame.lt_iff]
      exact ⟨.inl, fun before => before.resolve_right fun ⟨_, earlier⟩ => by omega⟩

end Blocks

section Methods

variable (trace : Trace)

/-- Methods without evaluations are passed over as well. -/
theorem firstStepFrom_finds (m : Nat) :
    Finds IsLeast (trace.addressable ∩ {position | m ≤ position.method})
      ((trace.firstStepFrom m).map fun (method, frame) => Position.ofFrame method frame) := by
  cases h : trace.firstStepFrom m with
  | none =>
      refine Set.eq_empty_iff_forall_notMem.mpr ?_
      intro position ⟨⟨method, found, named⟩, late⟩
      have silent := List.findSome?_eq_none_iff.mp h _ (mem_zipIdx_drop.mpr ⟨late, found⟩)
      have none_first := firstStep_finds method.blocks 0
      rw [Option.map_eq_none_iff.mp silent] at none_first
      exact Set.eq_empty_iff_forall_notMem.mp none_first _ ⟨named, Nat.zero_le _⟩
  | some target =>
      obtain ⟨⟨method, i⟩, mem, answer, least⟩ := findSome?_of_pairwise
        ((pairwise_zipIdx trace.methods).sublist (List.drop_sublist m _)) h
      obtain ⟨late, found⟩ := mem_zipIdx_drop.mp mem
      obtain ⟨frame, first, rfl⟩ := Option.map_eq_some_iff.mp answer
      have best := firstStep_finds method.blocks 0
      rw [first] at best
      refine ⟨⟨⟨method, found, best.1.1⟩, late⟩, ?_⟩
      intro other ⟨⟨method', found', named⟩, lateOther⟩
      have answers := least (method', other.method) (mem_zipIdx_drop.mpr ⟨lateOther, found'⟩)
      have stops : (firstStep method'.blocks 0).isSome :=
        ((firstStep_finds method'.blocks 0).isSome_iff fun _ best => best.1).mpr
          ⟨_, named, Nat.zero_le _⟩
      rw [Position.le_iff]
      rcases answers (by simpa using stops) with same | later
      · obtain ⟨rfl, rfl⟩ := Prod.mk.inj same
        exact .inr ⟨rfl, best.2 ⟨named, Nat.zero_le _⟩⟩
      · exact .inl later

theorem lastStepBefore_finds (m : Nat) :
    Finds IsGreatest (trace.addressable ∩ {position | position.method < m})
      ((trace.lastStepBefore m).map fun (method, frame) => Position.ofFrame method frame) := by
  cases h : trace.lastStepBefore m with
  | none =>
      refine Set.eq_empty_iff_forall_notMem.mpr ?_
      intro position ⟨⟨method, found, named⟩, early⟩
      have silent := List.findSome?_eq_none_iff.mp h _
        (List.mem_reverse.mpr (mem_zipIdx_take.mpr ⟨early, found⟩))
      have none_last := lastStep_finds method.blocks method.blocks.length
      rw [Option.map_eq_none_iff.mp silent] at none_last
      exact Set.eq_empty_iff_forall_notMem.mp none_last _ ⟨named, block_lt_of_addressable named⟩
  | some target =>
      obtain ⟨⟨method, i⟩, mem, answer, greatest⟩ := findSome?_of_pairwise (List.pairwise_reverse.mpr
        ((pairwise_zipIdx trace.methods).sublist (List.take_sublist m _))) h
      obtain ⟨early, found⟩ := mem_zipIdx_take.mp (List.mem_reverse.mp mem)
      obtain ⟨frame, last, rfl⟩ := Option.map_eq_some_iff.mp answer
      have best := lastStep_finds method.blocks method.blocks.length
      rw [last] at best
      refine ⟨⟨⟨method, found, best.1.1⟩, early⟩, ?_⟩
      intro other ⟨⟨method', found', named⟩, earlyOther⟩
      have answers := greatest (method', other.method)
        (List.mem_reverse.mpr (mem_zipIdx_take.mpr ⟨earlyOther, found'⟩))
      have stops : (lastStep method'.blocks method'.blocks.length).isSome :=
        ((lastStep_finds method'.blocks _).isSome_iff fun _ best => best.1).mpr
          ⟨_, named, block_lt_of_addressable named⟩
      rw [Position.le_iff]
      rcases answers (by simpa using stops) with same | earlier
      · obtain ⟨rfl, rfl⟩ := Prod.mk.inj same
        exact .inr ⟨rfl, best.2 ⟨named, block_lt_of_addressable named⟩⟩
      · exact .inl earlier

end Methods

end TraceReplay
