import TraceReplay.Interchange.Path
import TraceReplay.Interchange.Shape

/-!
Places of the interchange format. A path of field names and indices leads from a datum to a datum in it, and
it can be told from how it reads.
-/
namespace TraceReplay

open Interchange

namespace Interchange.Datum

/-- The item of a list with this index, or the field of a record with this name. -/
def step? : PathStep → Datum → Option Datum
  | .index k, .list items => items[k]?
  | .field key, .record kind values => (kind.fieldIndex? key).bind (values[·]?)
  | _, _ => none

def at? : Path → Datum → Option Datum
  | [], datum => some datum
  | step :: path, datum => (datum.step? step).bind (at? path)

theorem at?_cons {step : PathStep} {path : Path} {datum inner : Datum} (first : datum.step? step = some inner) :
    datum.at? (step :: path) = inner.at? path := by
  rw [at?, first, Option.bind_some]

theorem at?_append (path rest : Path) (datum : Datum) :
    datum.at? (path ++ rest) = (datum.at? path).bind (at? rest) := by
  induction path generalizing datum with
  | nil => rfl
  | cons step path ih =>
      rw [List.cons_append, at?, at?, Option.bind_assoc]
      exact congrArg _ (funext ih)

end Interchange.Datum

/-- A step that a document can have a value at: the name of a field of some record, or an index. -/
inductive PathStep.Named : PathStep → Prop
  | field {kind : RecordKind} {field : Field} : field ∈ kind.fields → Named (.field field.key)
  | index (k : Nat) : Named (.index k)

def Path.Named (path : Path) : Prop := ∀ step ∈ path, step.Named

theorem Path.named_cons {step : PathStep} {path : Path} :
    Named (step :: path) ↔ step.Named ∧ path.Named :=
  List.forall_mem_cons

/-- A path that leads anywhere is made of field names and indices. -/
theorem Path.named_of_at? {path : Path} {datum inner : Datum} (leads : datum.at? path = some inner) :
    path.Named := by
  induction path generalizing datum with
  | nil => exact List.forall_mem_nil _
  | cons step path ih =>
      obtain ⟨next, first, leads⟩ := Option.bind_eq_some_iff.mp leads
      refine named_cons.mpr ⟨?_, ih leads⟩
      cases step with
      | index k => exact .index k
      | unnamed => cases datum <;> cases first
      | field key =>
          cases datum with
          | record kind values =>
              obtain ⟨place, known, _⟩ := Option.bind_eq_some_iff.mp first
              obtain ⟨inside, same, _⟩ := List.findIdx?_eq_some_iff_getElem.mp known
              have same : kind.fields[place].key = key := by simpa using same
              exact same ▸ .field (List.getElem_mem inside)
          | _ => cases first

namespace PathStep

section Characters

/-- What comes first up to the first character of another sort is told from the whole. -/
theorem append_inj_of_takeWhile {sort : Char → Bool} {name other rest rest' : List Char}
    (all : ∀ c ∈ name, sort c) (all' : ∀ c ∈ other, sort c) (ends : rest.takeWhile sort = [])
    (ends' : rest'.takeWhile sort = []) (same : name ++ rest = other ++ rest') :
    name = other ∧ rest = rest' := by
  have front := congrArg (List.takeWhile sort) same
  rw [List.takeWhile_append_of_pos all, List.takeWhile_append_of_pos all', ends, ends', List.append_nil,
    List.append_nil] at front
  exact ⟨front, List.append_cancel_left (front ▸ same)⟩

theorem alpha_of_mem_fields (kind : RecordKind) :
    ∀ field ∈ kind.fields, field.key.toList ≠ [] ∧ ∀ c ∈ field.key.toList, c.isAlpha := by
  have table : kind.fields.all fun field =>
      !field.key.toList.isEmpty && field.key.toList.all Char.isAlpha := by
    cases kind <;> decide
  simpa only [List.all_eq_true, Bool.and_eq_true, Bool.not_eq_true', List.isEmpty_eq_false_iff] using table

theorem digit_of_mem_toString (k : Nat) : ∀ c ∈ (toString k).toList, c.isDigit := by
  intro c mem
  rw [Nat.toString_eq_repr, Nat.toList_repr] at mem
  exact Nat.isDigit_of_mem_toDigits (by decide) (by decide) mem

theorem toString_injective {k k' : Nat} (same : (toString k).toList = (toString k').toList) : k = k' := by
  rw [Nat.toString_eq_repr, Nat.toString_eq_repr, Nat.toList_repr, Nat.toList_repr] at same
  have back := congrArg (Nat.ofDigitChars 10 · 0) same
  simpa only [Nat.ofDigitChars_ten_toDigits] using back

theorem toList_suffix_index (k : Nat) :
    (index k).suffix.toList = '[' :: ((toString k).toList ++ [']']) := by
  simp [suffix, text]

theorem toList_suffix_field (key : String) : (field key).suffix.toList = '.' :: key.toList := by
  simp [suffix, text]

theorem toList_suffix_ne_nil (step : PathStep) : step.suffix.toList ≠ [] := by
  cases step <;> simp [suffix, text]

end Characters

end PathStep

namespace Path

/-- The characters of a path where another step comes before it. -/
def suffixes (path : Path) : List Char := path.flatMap (·.suffix.toList)

theorem suffixes_cons (step : PathStep) (path : Path) :
    suffixes (step :: path) = step.suffix.toList ++ path.suffixes := rfl

theorem takeWhile_suffixes {path : Path} (named : path.Named) :
    path.suffixes.takeWhile Char.isAlpha = [] := by
  cases path with
  | nil => rfl
  | cons step path =>
      cases (named_cons.mp named).1 with
      | field => rw [suffixes_cons, PathStep.toList_suffix_field]; rfl
      | index k => rw [suffixes_cons, PathStep.toList_suffix_index]; rfl

/-- The first step of a path is told from the characters of all its steps. -/
theorem suffixes_cons_inj {step step' : PathStep} {path path' : Path} (named : Named (step :: path))
    (named' : Named (step' :: path')) (same : suffixes (step :: path) = suffixes (step' :: path')) :
    step = step' ∧ path.suffixes = path'.suffixes := by
  obtain ⟨first, later⟩ := named_cons.mp named
  obtain ⟨first', later'⟩ := named_cons.mp named'
  rw [suffixes_cons, suffixes_cons] at same
  cases first with
  | @field kind field mem =>
      cases first' with
      | @field kind' field' mem' =>
          rw [PathStep.toList_suffix_field, PathStep.toList_suffix_field] at same
          obtain ⟨key, rest⟩ := PathStep.append_inj_of_takeWhile
            (PathStep.alpha_of_mem_fields kind field mem).2
            (PathStep.alpha_of_mem_fields kind' field' mem').2
            (takeWhile_suffixes later) (takeWhile_suffixes later') (List.cons.inj same).2
          exact ⟨congrArg PathStep.field (String.toList_injective key), rest⟩
      | index k =>
          rw [PathStep.toList_suffix_field, PathStep.toList_suffix_index] at same
          cases (List.cons.inj same).1
  | index k =>
      cases first' with
      | field =>
          rw [PathStep.toList_suffix_field, PathStep.toList_suffix_index] at same
          cases (List.cons.inj same).1
      | index k' =>
          rw [PathStep.toList_suffix_index, PathStep.toList_suffix_index] at same
          rw [List.cons_append, List.cons_append, List.append_assoc, List.append_assoc] at same
          obtain ⟨digits, rest⟩ := PathStep.append_inj_of_takeWhile (PathStep.digit_of_mem_toString k)
            (PathStep.digit_of_mem_toString k') rfl rfl (List.cons.inj same).2
          exact ⟨congrArg PathStep.index (PathStep.toString_injective digits), (List.cons.inj rest).2⟩

/-- A bracket or a point begins each step, so paths that read alike are the same. -/
theorem suffixes_injective {path other : Path} (named : path.Named) (named' : other.Named)
    (same : path.suffixes = other.suffixes) : path = other := by
  induction path generalizing other with
  | nil =>
      cases other with
      | nil => rfl
      | cons step other =>
          exact absurd (List.append_eq_nil_iff.mp same.symm).1 step.toList_suffix_ne_nil
  | cons step path ih =>
      cases other with
      | nil => exact absurd (List.append_eq_nil_iff.mp same).1 step.toList_suffix_ne_nil
      | cons step' other =>
          obtain ⟨rfl, later⟩ := suffixes_cons_inj named named' same
          rw [ih (named_cons.mp named).2 (named_cons.mp named').2 later]

theorem toList_text_cons (step : PathStep) (path : Path) :
    (Path.text (step :: path)).toList = step.text.toList ++ path.suffixes := by
  simp [Path.text, suffixes, String.toList_join, List.flatMap_map]

/-- The characters of all steps of a path that reads like this. -/
def respell (text : List Char) : List Char :=
  if text = ['.'] then [] else if text.head? = some '[' then text else '.' :: text

theorem suffixes_eq_respell {path : Path} (named : path.Named) :
    path.suffixes = respell path.text.toList := by
  cases path with
  | nil => rfl
  | cons step path =>
      rw [toList_text_cons, suffixes_cons]
      cases (named_cons.mp named).1 with
      | @field kind field mem =>
          obtain ⟨nonempty, letters⟩ := PathStep.alpha_of_mem_fields kind field mem
          obtain ⟨c, cs, split⟩ := List.exists_cons_of_ne_nil nonempty
          have letter : c.isAlpha := letters c (split ▸ List.mem_cons_self)
          have apart : c ≠ '.' ∧ c ≠ '[' := by
            constructor <;> rintro rfl <;> cases letter
          simp [respell, PathStep.toList_suffix_field, PathStep.text, split, apart]
      | index k => simp [respell, PathStep.toList_suffix_index, PathStep.text]

/-- A path is told from how it reads. -/
theorem text_injective {path other : Path} (named : path.Named) (named' : other.Named)
    (same : path.text = other.text) : path = other := by
  refine suffixes_injective named named' ?_
  rw [suffixes_eq_respell named, suffixes_eq_respell named', same]

/-- Below the top of a document every place is shown as it reads. -/
theorem shown?_of_named {path : Path} (named : path.Named) (below : path ≠ []) :
    path.shown? = some path.text := by
  have apart : path.text ≠ "." := fun top => below (text_injective named (List.forall_mem_nil _) top)
  rw [shown?, if_neg apart]

end Path

end TraceReplay
