import TraceReplay.Proofs.Reading.Load

/-!
A document is no shorter than what it records: each method and each top-level evaluation of a trace that loads takes
bytes of its own. So the numbers of methods and steps are no larger than the file that they come from.
-/
namespace TraceReplay

namespace Interchange

open Grammar

namespace Grammar

/-- However the item is spelled, it takes at least so many bytes. -/
def Weighs {α : Type} (Item : Bytes → α → Bytes → Prop) (x : α) (n : Nat) : Prop :=
  ∀ front after, Item front x after → after.length + n ≤ front.length

section Series

variable {α : Type} {Item : Bytes → α → Bytes → Prop} {closing : Char} {isFirst : Bool}
  {bytes rest : Bytes} {x : α} {xs : List α} {n : Nat} {weights : List Nat}

/-- The items of a series take bytes apart from each other, and the bracket takes one more. -/
theorem Series.total_lt (series : Series Item closing isFirst bytes xs rest)
    (each : List.Forall₂ (Weighs Item) xs weights) : rest.length + total weights < bytes.length := by
  induction series generalizing weights with
  | close blank =>
      cases each
      exact blank.length_le
  | item gap item _ ih =>
      cases each with
      | cons first others =>
          have here := first _ _ item
          have later := ih others
          have before := gap.length_le
          rw [total, List.foldr_cons, ← total]
          omega

theorem Series.lt_of_mem (series : Series Item closing isFirst bytes xs rest)
    (each : ∀ y ∈ xs, Weighs Item y 1) (mem : x ∈ xs) (weighs : Weighs Item x n) :
    rest.length + n < bytes.length := by
  induction series with
  | close => cases mem
  | item gap item series ih =>
      have before := gap.length_le
      obtain ⟨first, others⟩ := List.forall_mem_cons.mp each
      rcases List.mem_cons.mp mem with rfl | later
      · have here := weighs _ _ item
        have behind := series.length_lt fun y inside front after => others y inside front after
        omega
      · have here := first _ _ item
        have behind := ih others later
        omega

end Series

section Values

variable {json value : Json} {items : List Json} {weights : List Nat} {place n : Nat} {key : String}

theorem weighs_one (json : Json) : Weighs Value json 1 := fun _ _ => Value.length_lt

theorem weighs_list (each : List.Forall₂ (Weighs Value) items weights) :
    Weighs Value (.list items) (total weights) := by
  intro front after value
  cases value with
  | list series => exact Nat.le_succ_of_le (Nat.le_of_lt (series.total_lt each))

/-- A member takes more than its value. -/
theorem weighs_member {name : Option String} (weighs : Weighs Value value n) :
    Weighs Member (name, value) n := by
  intro front after member
  cases member with
  | pair text gap behind value =>
      have := text.length_lt
      have := gap.length_le
      have := behind.length_le
      have := weighs _ _ value
      simp only [List.length_cons] at *
      omega

theorem weighs_of_mem_field (mem : value ∈ json.field place key) (weighs : Weighs Value value n) :
    Weighs Value json n := by
  intro front after spelled
  cases spelled with
  | list series =>
      have mem := List.mem_of_getElem? (Option.mem_toList.mp mem)
      have inside := series.lt_of_mem (fun item _ => weighs_one item) mem weighs
      exact Nat.le_succ_of_le (Nat.le_of_lt inside)
  | object series =>
      obtain ⟨⟨name, found⟩, held, same⟩ := List.mem_filterMap.mp mem
      simp only [Option.ite_none_right_eq_some, Option.some.injEq] at same
      obtain ⟨-, rfl⟩ := same
      have each : ∀ member : Option String × Json, Weighs Member member 1 :=
        fun member _ _ => Member.length_lt
      have inside := series.lt_of_mem (fun member _ => each member) held (weighs_member weighs)
      exact Nat.le_succ_of_le (Nat.le_of_lt inside)
  | _ => cases mem

end Values

end Grammar

/-- A field with a list weighs as much as its items together. -/
theorem Required.weighs {α : Type} {P : Json → α → Prop} {json : Json} {place : Nat} {key : String}
    {xs : List α} {weight : α → Nat} (required : Required (IsList P) (json.field place key) xs)
    (each : ∀ item x, P item x → Weighs Value item (weight x)) :
    Weighs Value json (total (xs.map weight)) := by
  generalize found : json.field place key = values at required
  obtain ⟨⟨held⟩⟩ := required
  refine weighs_of_mem_field (found ▸ List.mem_cons_self) (weighs_list ?_)
  exact List.forall₂_map_right_iff.mpr (held.imp each)

end Interchange

open Interchange Grammar

variable {json : Json}

theorem total_map_one {α : Type} (xs : List α) : total (xs.map fun _ => 1) = xs.length := by
  induction xs with
  | nil => rfl
  | cons x xs ih =>
      rw [List.map_cons, total, List.foldr_cons, ← total, ih, List.length_cons, Nat.add_comm]

theorem BlockEvaluation.DescribedBy.weighs {block : BlockEvaluation} (described : block.DescribedBy json) :
    Weighs Value json block.evaluationCount := by
  rw [evaluationCount, ← total_map_one]
  cases described with
  | record _ _ _ _ _ _ evaluations => exact evaluations.weighs fun item _ _ => weighs_one item

theorem MethodTrace.DescribedBy.weighs {method : MethodTrace} (described : method.DescribedBy json) :
    Weighs Value json method.evaluationCount :=
  described.blocks.weighs fun _ _ => BlockEvaluation.DescribedBy.weighs

namespace Trace

variable {trace : Trace} {bytes : Bytes}

/-- Each top-level evaluation takes at least a byte of the document. -/
theorem DescribedBy.weighs_steps (described : trace.DescribedBy json) :
    Weighs Value json trace.totalEvaluationCount :=
  described.methods.weighs fun _ _ => MethodTrace.DescribedBy.weighs

theorem DescribedBy.weighs_methods (described : trace.DescribedBy json) :
    Weighs Value json trace.methodCount := by
  rw [methodCount, ← total_map_one]
  exact described.methods.weighs fun item _ _ => weighs_one item

/-- There are no more methods and no more top-level steps than bytes in the document. -/
theorem counts_le_of_load (loaded : load bytes = .ok trace) :
    trace.totalEvaluationCount ≤ bytes.length ∧ trace.methodCount ≤ bytes.length := by
  obtain ⟨_, json, ⟨front, rest, blank, value, _⟩, described⟩ := load_eq_ok_iff.mp loaded
  have whole := blank.length_le
  have steps := described.weighs_steps _ _ value
  have methods := described.weighs_methods _ _ value
  omega

end Trace

end TraceReplay
