import TraceReplay.Proofs.Cursor.Search

/-!
Single steps of a cursor as searches among places. In a sub-trace these are the frames of its own
list; at the top they are the positions of the whole trace, where the search within the method and the
search through the neighbouring methods make one search.
-/
namespace TraceReplay.Cursor

variable {cursor : Cursor}

def moveTo (cursor : Cursor) (position : Position) : Cursor :=
  { cursor with method := position.method, frame := position.frame }

def moveWithin (cursor : Cursor) (frame : Frame) : Cursor := { cursor with frame }

theorem position_of_top (top : cursor.owners = []) :
    cursor.position = Position.ofFrame cursor.method cursor.frame := by
  simp [position, topFrame, top, Position.ofFrame]

theorem currentBlocks_of_top (top : cursor.owners = []) {method : MethodTrace}
    (found : cursor.trace.methods[cursor.method]? = some method) :
    cursor.currentBlocks = method.blocks := by
  simp [currentBlocks, currentMethod?, found, top, blocksBelow]

/-- At the top a frame of the current list is a position in the current method. -/
theorem ofFrame_mem_addressable (top : cursor.owners = []) (frame : Frame) :
    Position.ofFrame cursor.method frame ∈ cursor.trace.addressable ↔
      frame ∈ addressable cursor.currentBlocks := by
  constructor
  · intro ⟨method, found, named⟩
    rwa [currentBlocks_of_top top found]
  · intro named
    cases found : cursor.trace.methods[cursor.method]? with
    | none =>
        have inside := block_lt_of_addressable named
        simp [currentBlocks, currentMethod?, found] at inside
    | some method => exact ⟨method, found, by rwa [← currentBlocks_of_top top found]⟩

/-- At the top level, a step goes on into the methods behind. -/
theorem next?_of_top (top : cursor.owners = []) :
    ∃ target, Finds IsLeast (cursor.trace.addressable ∩ Set.Ioi cursor.position) target ∧
      cursor.next? = target.map cursor.moveTo := by
  have inBlocks := nextStep_finds cursor.currentBlocks cursor.frame
  rw [position_of_top top]
  cases step : nextStep cursor.currentBlocks cursor.frame with
  | some frame =>
      rw [step] at inBlocks
      refine ⟨some (Position.ofFrame cursor.method frame), ⟨⟨?_, ?_⟩, ?_⟩, ?_⟩
      · exact (ofFrame_mem_addressable top frame).mpr inBlocks.1.1
      · exact Position.lt_iff.mpr (.inr ⟨rfl, inBlocks.1.2⟩)
      · intro other ⟨named, after⟩
        rw [Position.le_iff]
        rcases Position.lt_iff.mp after with later | ⟨same, later⟩
        · exact .inl later
        · rw [← Position.ofFrame_eta other, ← same, Position.ofFrame_method,
            ofFrame_mem_addressable top] at named
          exact .inr ⟨same, inBlocks.2 ⟨named, later⟩⟩
      · simp [next?, step, moveTo, Position.frame, Position.ofFrame]
  | none =>
      rw [step] at inBlocks
      refine ⟨_, (firstStepFrom_finds cursor.trace (cursor.method + 1)).congr ?_, ?_⟩
      · refine Set.ext fun other => and_congr_right fun named => ?_
        change cursor.method < other.method ↔ Position.ofFrame cursor.method cursor.frame < other
        rw [Position.lt_iff]
        refine ⟨.inl, fun after => after.resolve_right fun ⟨same, later⟩ => ?_⟩
        -- a later evaluation of the same method would have been found within its blocks
        rw [← Position.ofFrame_eta other, ← same, Position.ofFrame_method,
          ofFrame_mem_addressable top] at named
        exact Set.eq_empty_iff_forall_notMem.mp inBlocks _ ⟨named, later⟩
      · simp [next?, step, top, Function.comp_def, moveTo, Position.frame, Position.ofFrame]

theorem previous?_of_top (top : cursor.owners = [])
    (within : cursor.frame.eval ≤ cursor.frame.evaluationCount cursor.currentBlocks) :
    ∃ target, Finds IsGreatest (cursor.trace.addressable ∩ Set.Iio cursor.position) target ∧
      cursor.previous? = target.map cursor.moveTo := by
  have inBlocks := previousStep_finds cursor.currentBlocks within
  rw [position_of_top top]
  cases step : previousStep cursor.currentBlocks cursor.frame with
  | some frame =>
      rw [step] at inBlocks
      refine ⟨some (Position.ofFrame cursor.method frame), ⟨⟨?_, ?_⟩, ?_⟩, ?_⟩
      · exact (ofFrame_mem_addressable top frame).mpr inBlocks.1.1
      · exact Position.lt_iff.mpr (.inr ⟨rfl, inBlocks.1.2⟩)
      · intro other ⟨named, before⟩
        rw [Position.le_iff]
        rcases Position.lt_iff.mp before with earlier | ⟨same, earlier⟩
        · exact .inl earlier
        · rw [← Position.ofFrame_eta other, same, Position.ofFrame_method,
            ofFrame_mem_addressable top] at named
          exact .inr ⟨same, inBlocks.2 ⟨named, earlier⟩⟩
      · simp [previous?, step, moveTo, Position.frame, Position.ofFrame]
  | none =>
      rw [step] at inBlocks
      refine ⟨_, (lastStepBefore_finds cursor.trace cursor.method).congr ?_, ?_⟩
      · refine Set.ext fun other => and_congr_right fun named => ?_
        change other.method < cursor.method ↔ other < Position.ofFrame cursor.method cursor.frame
        rw [Position.lt_iff]
        refine ⟨.inl, fun before => before.resolve_right fun ⟨same, earlier⟩ => ?_⟩
        rw [← Position.ofFrame_eta other, same, Position.ofFrame_method,
          ofFrame_mem_addressable top] at named
        exact Set.eq_empty_iff_forall_notMem.mp inBlocks _ ⟨named, earlier⟩
      · simp [previous?, step, top, Function.comp_def, moveTo, Position.frame, Position.ofFrame]

/-- In a sub-trace a step ends with the list. -/
theorem next?_of_nested (nested : cursor.owners ≠ []) :
    cursor.next? = (nextStep cursor.currentBlocks cursor.frame).map cursor.moveWithin := by
  cases step : nextStep cursor.currentBlocks cursor.frame <;> simp [next?, step, nested, moveWithin]

theorem previous?_of_nested (nested : cursor.owners ≠ []) :
    cursor.previous? = (previousStep cursor.currentBlocks cursor.frame).map cursor.moveWithin := by
  cases step : previousStep cursor.currentBlocks cursor.frame <;>
    simp [previous?, step, nested, moveWithin]

end TraceReplay.Cursor
