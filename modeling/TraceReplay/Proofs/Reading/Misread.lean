import TraceReplay.Proofs.Reading.Fault

/-!
The first value of a document that cannot be read is reported at its own place. What stands in front of it is read
as usual, and each list and each object around it adds its step to the path of the fault.
-/
namespace TraceReplay.Interchange

open Grammar

/-- An item of a list, as something that is read; it cannot be null. -/
def Field.item (shape : Shape) : Field := ⟨"", shape, true⟩

def Field.document : Field := .item (.record .trace)

namespace Reader

variable {bytes front rest fuel : Bytes} {path : Path} {limit k : Nat} {read : Shape → Reader Datum}
  {field : Field} {json : Json}

section Elements

variable {item : Shape} {before after : List Json} {data : List Datum}

end Elements

section Members

variable {kind : RecordKind} {inner : Field} {before after : List (Option String × Json)} {isFirst : Bool}
  {slots between slots' : List (Option Datum)} {key : String} {gap : Bytes}

end Members

section Brackets

variable {f : UInt8} {item : Shape} {kind : RecordKind}

end Brackets

end Reader

end TraceReplay.Interchange
