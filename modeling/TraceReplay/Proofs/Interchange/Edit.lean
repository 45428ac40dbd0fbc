import TraceReplay.Proofs.Interchange.Draft
import TraceReplay.Proofs.Interchange.Location
import TraceReplay.Proofs.Load
import TraceReplay.Proofs.Reading.Misread

/-!
A document with one fault in it. In what is written for a trace, one leaf is replaced by a value that is not
allowed there, or one object loses a field that it needs; the fault is then reported at that leaf or object.
-/
namespace TraceReplay.Interchange

open Utf8 Grammar

namespace Field

/-- What is expected one step further into a value. -/
def step? : PathStep → Field → Option Field
  | .index _, ⟨_, .list item, _⟩ => some (.item item)
  | .field name, ⟨_, .record kind, _⟩ => (kind.fieldIndex? name).bind (kind.fields[·]?)
  | _, _ => none

def at? : Path → Field → Option Field
  | [], field => some field
  | step :: path, field => (field.step? step).bind (at? path)

end Field

section Admits

variable {field : Field} {json : Json}

end Admits

section Slots

variable {kind : RecordKind} {values : List Datum} {members : List (Option String × Json)} {field : Field}
  {value : Datum} {k : Nat}

end Slots

section Descent

variable {field inner : Field} {datum value : Datum} {step : PathStep} {path : Path}

end Descent

section Splits

variable {items : List Datum} {front back : List Field} {before after : List Datum} {field : Field}
  {value : Datum}

end Splits

section Edits

variable {items values before after : List Datum} {fields : List Field} {field inner : Field}
  {datum value next : Datum} {name : String} {change : Draft → Draft} {edited : Json} {path : Path}
  {kind : RecordKind} {k : Nat}

end Edits

end TraceReplay.Interchange

namespace TraceReplay.Trace

open Interchange Grammar

end TraceReplay.Trace
