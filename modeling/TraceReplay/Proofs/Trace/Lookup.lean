import TraceReplay.Proofs.Trace.WellFormed
import TraceReplay.Trace.Lookup

/-!
Finding an instruction by halving. In a method that was loaded the offsets increase, so what a round throws away
lies on one side of the offset looked for, and the search ends with the one instruction that has it, if there
is one. It finds what going through all instructions would.
-/
namespace TraceReplay

namespace Instruction

/-- A span of instructions in order, outside of which no instruction has the offset looked for. -/
structure Narrows (instructions : List Instruction) (offset : Offset) (lo hi : Nat) : Prop where
  within : hi ≤ instructions.length
  before : ∀ i x, i < lo → instructions[i]? = some x → x.offset < offset
  behind : ∀ i x, hi ≤ i → instructions[i]? = some x → offset < x.offset

section Search

variable {instructions : List Instruction} {offset : Offset} {lo hi middle : Nat} {x y : Instruction}

theorem narrows_all (instructions : List Instruction) (offset : Offset) :
    Narrows instructions offset 0 instructions.length where
  within := Nat.le_refl _
  before _ _ before := absurd before (Nat.not_lt_zero _)
  behind i x behind found := by
    rw [List.getElem?_eq_none behind] at found
    cases found

theorem offset_lt_of_lt (ordered : instructions.Pairwise (·.offset < ·.offset)) {i j : Nat}
    (before : i < j) (at_i : instructions[i]? = some x) (at_j : instructions[j]? = some y) :
    x.offset < y.offset := by
  obtain ⟨_, rfl⟩ := List.getElem?_eq_some_iff.mp at_i
  obtain ⟨inRange, rfl⟩ := List.getElem?_eq_some_iff.mp at_j
  exact List.pairwise_iff_getElem.mp ordered i j _ inRange before

namespace Narrows

theorem after_middle (narrows : Narrows instructions offset lo hi)
    (ordered : instructions.Pairwise (·.offset < ·.offset)) (here : instructions[middle]? = some x)
    (less : x.offset < offset) : Narrows instructions offset (middle + 1) hi where
  within := narrows.within
  before i y before at_i := by
    rcases Nat.lt_succ_iff_lt_or_eq.mp before with earlier | rfl
    · exact UInt64.lt_trans (offset_lt_of_lt ordered earlier at_i here) less
    · cases at_i.symm.trans here
      exact less
  behind := narrows.behind

theorem before_middle (narrows : Narrows instructions offset lo hi)
    (ordered : instructions.Pairwise (·.offset < ·.offset)) (here : instructions[middle]? = some x)
    (greater : offset < x.offset) : Narrows instructions offset lo middle where
  within := Nat.le_of_lt (List.getElem?_eq_some_iff.mp here).1
  before := narrows.before
  behind i y behind at_i := by
    rcases Nat.eq_or_lt_of_le behind with rfl | later
    · cases at_i.symm.trans here
      exact greater
    · exact UInt64.lt_trans greater (offset_lt_of_lt ordered later here at_i)

theorem find?_eq_none (narrows : Narrows instructions offset lo hi) (empty : hi ≤ lo) :
    instructions.find? (·.offset = offset) = none := by
  refine List.find?_eq_none.mpr fun x mem same => ?_
  obtain ⟨i, at_i⟩ := List.mem_iff_getElem?.mp mem
  have same := of_decide_eq_true same
  rcases Nat.lt_or_ge i lo with before | behind
  · exact UInt64.ne_of_lt (narrows.before i x before at_i) same
  · exact UInt64.ne_of_lt (narrows.behind i x (Nat.le_trans empty behind) at_i) same.symm

end Narrows

/-- No two instructions have the same offset. -/
theorem filter_eq_toList_find? (ordered : instructions.Pairwise (·.offset < ·.offset)) :
    instructions.filter (·.offset = offset) = (instructions.find? (·.offset = offset)).toList := by
  rw [← List.head?_filter]
  have orderedHits := ordered.filter (·.offset = offset)
  cases hits : instructions.filter (·.offset = offset) with
  | nil => rfl
  | cons first hits' =>
      cases hits' with
      | nil => rfl
      | cons second hits' =>
          have all : ∀ x ∈ first :: second :: hits', x.offset = offset := by
            intro x mem
            rw [← hits, List.mem_filter] at mem
            exact of_decide_eq_true mem.2
          rw [hits] at orderedHits
          have less := List.rel_of_pairwise_cons orderedHits List.mem_cons_self
          rw [all first (by simp), all second (by simp)] at less
          exact absurd less (UInt64.lt_irrefl offset)

theorem find?_eq_some_iff (ordered : instructions.Pairwise (·.offset < ·.offset)) :
    instructions.find? (·.offset = offset) = some x ↔ x ∈ instructions ∧ x.offset = offset := by
  rw [← Option.mem_toList, ← filter_eq_toList_find? ordered, List.mem_filter, decide_eq_true_iff]

/-- With enough rounds to halve the span down to nothing. -/
theorem search_eq_find? (ordered : instructions.Pairwise (·.offset < ·.offset)) {rounds : Nat}
    (enough : hi < lo + 2 ^ rounds) (narrows : Narrows instructions offset lo hi) :
    search instructions.toArray offset rounds lo hi = instructions.find? (·.offset = offset) := by
  induction rounds generalizing lo hi with
  | zero => exact (narrows.find?_eq_none (Nat.le_of_lt_succ enough)).symm
  | succ rounds ih =>
      rw [Nat.pow_succ] at enough
      rw [search]
      split
      case isFalse empty => exact (narrows.find?_eq_none (Nat.le_of_not_lt empty)).symm
      case isTrue span =>
          have inRange : (lo + hi) / 2 < instructions.length := by
            have within := narrows.within
            omega
          have here := List.getElem?_eq_getElem inRange
          simp only [List.getElem?_toArray, here]
          split
          case isTrue same =>
              exact ((find?_eq_some_iff ordered).mpr ⟨List.getElem_mem inRange, same⟩).symm
          case isFalse other =>
              split
              case isTrue less => exact ih (by omega) (narrows.after_middle ordered here less)
              case isFalse notLess =>
                  have greater : offset < instructions[(lo + hi) / 2].offset :=
                    UInt64.lt_of_le_of_ne (UInt64.not_lt.mp notLess) (Ne.symm other)
                  exact ih (by omega) (narrows.before_middle ordered here greater)

end Search

end Instruction

namespace Trace

/-- In a trace that was loaded, an instruction is found by its offset just if the method has one there, and it is
the only one: halving agrees with going through all instructions, and it does so in any number of rounds
that can halve their number down to nothing. -/
theorem instructionAt_exact {document : Bytes} {trace : Trace} (loaded : load document = .ok trace)
    {method : MethodTrace} (mem : method ∈ trace.methods) (offset : Offset) :
    method.instructionAt offset = method.instructions.find? (·.offset = offset) ∧
      (∀ instruction, method.instructionAt offset = some instruction ↔
        instruction ∈ method.instructions ∧ instruction.offset = offset) ∧
      ((method.instructionAt offset).isSome = true ↔
        ∃ instruction ∈ method.instructions, instruction.offset = offset) ∧
      method.instructions.filter (·.offset = offset) = (method.instructionAt offset).toList ∧
      ∀ rounds, method.instructions.length < 2 ^ rounds →
        Instruction.search method.instructions.toArray offset rounds 0 method.instructions.length =
          method.instructionAt offset := by
  have ordered := (misfit?_eq_none_iff.mp (misfit?_of_load loaded) method mem).ordered
  have scan : ∀ rounds, method.instructions.length < 2 ^ rounds →
      Instruction.search method.instructions.toArray offset rounds 0 method.instructions.length =
        method.instructions.find? (·.offset = offset) := by
    intro rounds enough
    exact Instruction.search_eq_find? ordered (by omega) (Instruction.narrows_all _ offset)
  have found : method.instructionAt offset = method.instructions.find? (·.offset = offset) :=
    scan _ Nat.lt_two_pow_self
  rw [found]
  refine ⟨rfl, fun instruction => Instruction.find?_eq_some_iff ordered, ?_,
    Instruction.filter_eq_toList_find? ordered, scan⟩
  simp

/-- A recording of a method with the least and the greatest offset, and of one without instructions. -/
def offsetsTrace : Trace :=
  ⟨[⟨"A", "m()V", [⟨0, "nop"⟩, ⟨7, "goto"⟩, ⟨0xFFFFFFFFFFFFFFFF, "ret"⟩], [], none, []⟩,
    ⟨"A", "n()V", [], [], none, []⟩]⟩

/-- At both ends of the list, between two instructions, and where there are none. -/
theorem instructionAt_exact_ends :
    load (Utf8.encode (offsetsTrace.encode .compact)) = .ok offsetsTrace ∧
      ∀ m n, offsetsTrace.methods = [m, n] →
        m.instructionAt 0 = some ⟨0, "nop"⟩ ∧
          m.instructionAt 0xFFFFFFFFFFFFFFFF = some ⟨0xFFFFFFFFFFFFFFFF, "ret"⟩ ∧
          m.instructionAt 6 = none ∧ n.instructionAt 0 = none := by
  have loaded : load (Utf8.encode (offsetsTrace.encode .compact)) = .ok offsetsTrace := by
    rw [load_encode_eq_checked]
    exact checked_eq_ok_iff.mpr ⟨rfl, rfl⟩
  refine ⟨loaded, ?_⟩
  rintro m n ⟨⟩
  obtain ⟨_, first, _⟩ := instructionAt_exact loaded List.mem_cons_self 0
  obtain ⟨_, last, _⟩ := instructionAt_exact loaded List.mem_cons_self 0xFFFFFFFFFFFFFFFF
  obtain ⟨between, _⟩ := instructionAt_exact loaded List.mem_cons_self 6
  obtain ⟨nothing, _⟩ :=
    instructionAt_exact loaded (List.mem_cons_of_mem _ List.mem_cons_self) 0
  exact ⟨(first _).mpr ⟨by simp, rfl⟩, (last _).mpr ⟨by simp, rfl⟩, between.trans (by decide),
    nothing.trans rfl⟩

end Trace

end TraceReplay
