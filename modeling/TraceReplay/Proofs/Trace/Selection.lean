import Mathlib.Data.List.TakeWhile
import Mathlib.Order.Bounds.Basic
import TraceReplay.Program
import TraceReplay.Proofs.Text.Number

/-!
Selecting a method by a text. The name that a method is displayed by selects the first method displayed so:
it has a `#`, so it reads as no number, and what comes before the first one is the name of the class. A text
that reads as a number never selects by name.
-/
namespace TraceReplay

section Split

variable {className : List Char}

theorem forall_ne_of_notMem (plain : '#' ∉ className) : ∀ c ∈ className, (c != '#') = true := by
  intro c mem
  rw [bne_iff_ne]
  rintro rfl
  exact plain mem

theorem span_class (plain : '#' ∉ className) (methodName : List Char) :
    (className ++ '#' :: methodName).takeWhile (· != '#') = className ∧
      (className ++ '#' :: methodName).dropWhile (· != '#') = '#' :: methodName := by
  have before := forall_ne_of_notMem plain
  rw [List.takeWhile_append_of_pos before, List.dropWhile_append_of_pos before]
  simp

end Split

namespace Trace

def HasNames (trace : Trace) (className methodName : String) (i : Nat) : Prop :=
  ∃ method, trace.methods[i]? = some method ∧ method.className = className ∧
    method.methodName = methodName

section Selection

variable {trace : Trace} {method : MethodTrace} {text className methodName : String} {i n : Nat}

/-- Of several methods with the same names, the first one is found. -/
theorem findMethod_eq_some_iff :
    trace.findMethod className methodName = some i ↔
      IsLeast {j | trace.HasNames className methodName j} i := by
  have named (j : Nat) (inRange : j < trace.methods.length) :
      trace.HasNames className methodName j ↔ (trace.methods[j].className == className &&
        trace.methods[j].methodName == methodName) = true := by
    simp [HasNames, List.getElem?_eq_getElem inRange]
  rw [findMethod, List.findIdx?_eq_some_iff_getElem]
  constructor
  · rintro ⟨inRange, here, first⟩
    refine ⟨(named i inRange).mpr here, fun j there => ?_⟩
    by_contra before
    have before := Nat.lt_of_not_le before
    exact first j before ((named j (Nat.lt_trans before inRange)).mp there)
  · rintro ⟨here, least⟩
    obtain ⟨inRange, _⟩ := List.getElem?_eq_some_iff.mp here.choose_spec.1
    refine ⟨inRange, (named i inRange).mp here, fun j before there => ?_⟩
    have notBefore := least ((named j (Nat.lt_trans before inRange)).mpr there)
    exact Nat.not_le_of_lt before notBefore

theorem exists_findMethod (mem : method ∈ trace.methods) :
    ∃ i, trace.findMethod method.className method.methodName = some i := by
  rw [findMethod, ← Option.isSome_iff_exists, List.findIdx?_isSome, List.any_eq_true]
  exact ⟨method, mem, by simp⟩

theorem toList_displayName (method : MethodTrace) :
    method.displayName.toList = method.className.toList ++ '#' :: method.methodName.toList := by
  simp [MethodTrace.displayName]

/-- There is a `#` in a displayed name, so it is never read as a number. -/
theorem not_spells_displayName (method : MethodTrace) (n : Nat) :
    ¬Text.Spells method.displayName n := by
  intro spells
  refine spells.all_ne (by decide) (by decide) (c := '#') ?_
  rw [toList_displayName]
  exact List.mem_append_right _ List.mem_cons_self

theorem selectMethod_displayName (plain : '#' ∉ method.className.toList) :
    trace.selectMethod method.displayName =
      trace.findMethod method.className method.methodName := by
  have noNumber : Text.number? method.displayName = none := by
    refine Option.eq_none_iff_forall_ne_some.mpr fun n reads => ?_
    exact not_spells_displayName method n (Text.number?_eq_some_iff.mp reads).1
  obtain ⟨before, behind⟩ := span_class plain method.methodName.toList
  rw [selectMethod, noNumber, toList_displayName, before, behind]
  simp

theorem selectMethod_of_spells (spells : Text.Spells text n) (small : n < Text.wordLimit) :
    trace.selectMethod text = if n < trace.methodCount then some n else none := by
  rw [selectMethod, Text.number?_eq_some_iff.mpr ⟨spells, small⟩]

/-- A number that no word holds is looked up by name, and it has no `#`. -/
theorem selectMethod_of_large (trace : Trace) (spells : Text.Spells text n) (large : Text.wordLimit ≤ n) :
    trace.selectMethod text = none := by
  have plain : '#' ∉ text.toList := spells.all_ne (by decide) (by decide)
  rw [selectMethod, Text.number?_of_spells spells, if_neg (Nat.not_lt.mpr large),
    List.dropWhile_eq_nil_iff.mpr (forall_ne_of_notMem plain)]

theorem displayName_of_selectMethod (noNumber : Text.number? text = none)
    (selects : trace.selectMethod text = some i) :
    ∃ method, trace.methods[i]? = some method ∧ method.displayName = text := by
  rw [selectMethod, noNumber] at selects
  dsimp only at selects
  split at selects
  next => cases selects
  next mark methodName behind =>
      obtain ⟨⟨method, there, sameClass, sameMethod⟩, _⟩ := findMethod_eq_some_iff.mp selects
      obtain rfl : mark = '#' := by
        have stops := List.head_dropWhile_not (· != '#') (l := text.toList) (by simp [behind])
        simpa [behind] using stops
      refine ⟨method, there, String.toList_inj.mp ?_⟩
      rw [toList_displayName, sameClass, sameMethod, String.toList_ofList, String.toList_ofList, ← behind,
        List.takeWhile_append_dropWhile]

theorem chosenMethod_eq (trace : Trace) (text : String) :
    trace.chosenMethod text =
      (trace.selectMethod text).elim (.error (.unknownMethod text)) .ok := by
  rw [chosenMethod]
  cases trace.selectMethod text <;> rfl

end Selection

/-- The displayed name of a method selects the first method with its names, if the name of its class has no
`#`; a text that spells a number selects by that number alone, if a word holds it; and a method that any
other text selects is displayed as that text. -/
theorem displayed_name_selects (trace : Trace) :
    (∀ method ∈ trace.methods, '#' ∉ method.className.toList →
      (∀ n, ¬Text.Spells method.displayName n) ∧
        ∃ i, trace.chosenMethod method.displayName = .ok i ∧
          IsLeast {j | trace.HasNames method.className method.methodName j} i) ∧
    (∀ text n, Text.Spells text n → n < Text.wordLimit →
      trace.chosenMethod text =
        if n < trace.methodCount then .ok n else .error (.unknownMethod text)) ∧
    ∀ text i, (∀ n < Text.wordLimit, ¬Text.Spells text n) → trace.chosenMethod text = .ok i →
      ∃ method, trace.methods[i]? = some method ∧ method.displayName = text := by
  refine ⟨?byName, ?byNumber, ?resolved⟩
  case byName =>
    intro method mem plain
    obtain ⟨i, found⟩ := exists_findMethod mem
    refine ⟨not_spells_displayName method, i, ?_, findMethod_eq_some_iff.mp found⟩
    rw [chosenMethod_eq, selectMethod_displayName plain, found]
    rfl
  case byNumber =>
    intro text n spells small
    rw [chosenMethod_eq, selectMethod_of_spells spells small]
    split <;> rfl
  case resolved =>
    intro text i noNumber chosen
    have noNumber : Text.number? text = none := by
      refine Option.eq_none_iff_forall_ne_some.mpr fun n reads => ?_
      obtain ⟨spells, small⟩ := Text.number?_eq_some_iff.mp reads
      exact noNumber n small spells
    rw [chosenMethod_eq] at chosen
    cases selects : trace.selectMethod text with
    | none =>
        rw [selects] at chosen
        cases chosen
    | some j =>
        rw [selects] at chosen
        cases chosen
        exact displayName_of_selectMethod noNumber selects

/-- Two methods of the same names, after one with `#` in its class name that is displayed as they are. -/
def namesakeTrace : Trace :=
  let method (className methodName : String) : MethodTrace := ⟨className, methodName, [], [], none, []⟩
  ⟨[method "7" "b#c", method "A#b" "c", method "A" "b#c", method "A" "b#c"]⟩

/-- The first namesake is selected, whatever else is displayed so, and a number out of range selects
nothing. -/
theorem displayed_name_selects_namesake :
    namesakeTrace.chosenMethod "A#b#c" = .ok 2 ∧
      IsLeast {j | namesakeTrace.HasNames "A" "b#c" j} 2 ∧
      namesakeTrace.chosenMethod "+07" = .error (.unknownMethod "+07") ∧
      ∃ method, namesakeTrace.methods[0]? = some method ∧ method.displayName = "7#b#c" := by
  obtain ⟨byName, byNumber, resolved⟩ := displayed_name_selects namesakeTrace
  have third : (⟨"A", "b#c", [], [], none, []⟩ : MethodTrace) ∈ namesakeTrace.methods :=
    List.mem_of_getElem? (i := 2) rfl
  obtain ⟨_, i, selects, least⟩ := byName _ third (by decide)
  have second : namesakeTrace.chosenMethod "A#b#c" = .ok 2 := rfl
  cases selects.symm.trans second
  refine ⟨second, least, ?_, ?_⟩
  · exact byNumber "+07" 7 ⟨['0', '7'], .inr rfl, by decide, List.all_eq_true.mp rfl, rfl⟩ (by decide)
  · refine resolved "7#b#c" 0 (fun n _ spells => ?_) rfl
    exact spells.all_ne (by decide) (by decide) (c := '#') (by decide)

end Trace

end TraceReplay
