import Mathlib.Data.Prod.Lex
import Mathlib.Order.Bounds.Basic
import TraceReplay.Cursor.Step

/-!
The order in which steps are taken. Frames are compared block first, positions method first. A place
is addressable where it names an evaluation that was recorded. What a search returns is stated as the
best of a set of places, so that a search that finds nothing says that there was nothing to find.
-/
namespace TraceReplay

namespace Frame

def key (frame : Frame) : ℕ ×ₗ ℕ := toLex (frame.block, frame.eval)

theorem key_injective : Function.Injective key := by
  rintro ⟨block, eval⟩ ⟨block', eval'⟩ h
  cases toLex.injective h
  rfl

instance : LinearOrder Frame := LinearOrder.lift' key key_injective

theorem lt_iff {a b : Frame} :
    a < b ↔ a.block < b.block ∨ a.block = b.block ∧ a.eval < b.eval :=
  Prod.Lex.toLex_lt_toLex

theorem le_iff {a b : Frame} :
    a ≤ b ↔ a.block < b.block ∨ a.block = b.block ∧ a.eval ≤ b.eval :=
  Prod.Lex.toLex_le_toLex

end Frame

namespace Position

def frame (position : Position) : Frame := ⟨position.block, position.eval⟩

def ofFrame (method : Nat) (frame : Frame) : Position := ⟨method, frame.block, frame.eval⟩

@[simp] theorem ofFrame_method (method : Nat) (frame : Frame) :
    (ofFrame method frame).method = method := rfl

@[simp] theorem ofFrame_frame (method : Nat) (frame : Frame) :
    (ofFrame method frame).frame = frame := rfl

@[simp] theorem ofFrame_eta (position : Position) :
    ofFrame position.method position.frame = position := rfl

def key (position : Position) : ℕ ×ₗ Frame := toLex (position.method, position.frame)

theorem key_injective : Function.Injective key := by
  rintro ⟨method, block, eval⟩ ⟨method', block', eval'⟩ h
  cases toLex.injective h
  rfl

instance : LinearOrder Position := LinearOrder.lift' key key_injective

theorem lt_iff {a b : Position} :
    a < b ↔ a.method < b.method ∨ a.method = b.method ∧ a.frame < b.frame :=
  Prod.Lex.toLex_lt_toLex

theorem le_iff {a b : Position} :
    a ≤ b ↔ a.method < b.method ∨ a.method = b.method ∧ a.frame ≤ b.frame :=
  Prod.Lex.toLex_le_toLex

end Position

/-- The frames that name an evaluation of these blocks. -/
def addressable (blocks : List BlockEvaluation) : Set Frame :=
  {frame | ∃ evaluation, frame.evaluation? blocks = some evaluation}

def Trace.addressable (trace : Trace) : Set Position :=
  {position | ∃ method, trace.methods[position.method]? = some method ∧
    position.frame ∈ TraceReplay.addressable method.blocks}

theorem mem_addressable_iff_block {blocks : List BlockEvaluation} {frame : Frame} :
    frame ∈ addressable blocks ↔
      ∃ block, blocks[frame.block]? = some block ∧ frame.eval < block.evaluationCount := by
  constructor
  · intro ⟨evaluation, named⟩
    obtain ⟨block, found, at_eval⟩ := Option.bind_eq_some_iff.mp named
    exact ⟨block, found, (List.getElem?_eq_some_iff.mp at_eval).1⟩
  · intro ⟨block, found, inside⟩
    exact ⟨_, Option.bind_eq_some_iff.mpr ⟨block, found, List.getElem?_eq_getElem inside⟩⟩

theorem mem_addressable {blocks : List BlockEvaluation} {frame : Frame} :
    frame ∈ addressable blocks ↔ frame.eval < frame.evaluationCount blocks := by
  rw [mem_addressable_iff_block]
  cases found : blocks[frame.block]? <;> simp [Frame.evaluationCount, found]

/-- The frame of an addressable place lies in the list. -/
theorem block_lt_of_addressable {blocks : List BlockEvaluation} {frame : Frame}
    (named : frame ∈ addressable blocks) : frame.block < blocks.length := by
  obtain ⟨block, found, _⟩ := mem_addressable_iff_block.mp named
  exact (List.getElem?_eq_some_iff.mp found).1

section Search

variable {α : Type} {Best : Set α → α → Prop} {places : Set α}

/-- What a search finds among some places: the best of them, and nothing only if there are none. -/
def Finds (Best : Set α → α → Prop) (places : Set α) : Option α → Prop
  | some place => Best places place
  | none => places = ∅

theorem Finds.congr {places' : Set α} {found : Option α} (h : Finds Best places found)
    (same : places = places') : Finds Best places' found := same ▸ h

theorem Finds.isSome_iff {found : Option α} (h : Finds Best places found)
    (mem : ∀ place, Best places place → place ∈ places) : found.isSome ↔ places.Nonempty := by
  cases found with
  | none =>
      change places = ∅ at h
      simp [h]
  | some place => exact ⟨fun _ => ⟨place, mem place h⟩, fun _ => rfl⟩

/-- Where only one place is the best, it is what the search finds. -/
theorem Finds.unique {found : Option α} {place : α} (h : Finds Best places found)
    (best : Best places place) (mem : place ∈ places)
    (unique : ∀ a b, Best places a → Best places b → a = b) : found = some place := by
  cases found with
  | none =>
      change places = ∅ at h
      simp [h] at mem
  | some other => rw [unique other place h best]

/-- Going to the next of some places leaves the start as the last one before it. -/
theorem isGreatest_of_isLeast [LinearOrder α] {a b : α} (next : IsLeast (places ∩ Set.Ioi a) b)
    (mem : a ∈ places) : IsGreatest (places ∩ Set.Iio b) a := by
  refine ⟨⟨mem, next.1.2⟩, ?_⟩
  intro c ⟨hc, before⟩
  exact not_lt.mp fun after => not_lt.mpr (next.2 ⟨hc, after⟩) before

theorem isLeast_of_isGreatest [LinearOrder α] {a b : α}
    (previous : IsGreatest (places ∩ Set.Iio a) b) (mem : a ∈ places) :
    IsLeast (places ∩ Set.Ioi b) a := by
  refine ⟨⟨mem, previous.1.2⟩, ?_⟩
  intro c ⟨hc, after⟩
  exact not_lt.mp fun before => not_lt.mpr (previous.2 ⟨hc, before⟩) after

end Search

end TraceReplay
