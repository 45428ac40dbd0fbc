import TraceReplay.Proofs.Reading.Document
import TraceReplay.Proofs.Reading.Unambiguous

/-!
Faults and where they are reported. Readers of single values find faults without a path, and what stands around a
value puts its own step in front. A value of a leaf that says nothing there is such a fault.
-/
namespace TraceReplay.Interchange

namespace Reader

open Grammar

variable {α β : Type} {bytes front middle rest fuel : Bytes} {path : Path} {step : PathStep} {x : α} {b : UInt8}

def Fails (path : Path) (read : Reader α) (bytes : Bytes) : Prop :=
  ∃ fault rest, read bytes = .error fault rest ∧ fault.path = path

section Fails

variable {read : Reader α} {next : α → Reader β}

theorem bind_of_ok (first : read bytes = .ok x middle) : (read >>= next) bytes = next x middle := by
  simp [bind, EStateM.bind, first]

/-- Nothing is read behind a reader that fails. -/
theorem Fails.bind (fails : Fails path read bytes) : Fails path (read >>= next) bytes := by
  obtain ⟨fault, rest, failed, same⟩ := fails
  exact ⟨fault, rest, by simp [Bind.bind, EStateM.bind, failed], same⟩

/-- The path of a fault begins with the step that leads to it. -/
theorem Fails.within (fails : Fails path read bytes) : Fails (step :: path) (within step read) bytes := by
  obtain ⟨fault, rest, failed, rfl⟩ := fails
  exact ⟨_, rest, by rw [Reader.within, failed], rfl⟩

theorem Fails.closedBy {close : Reader Unit} (fails : Fails path read bytes) :
    Fails path (closedBy read close) bytes := by
  obtain ⟨fault, rest, failed, same⟩ := fails
  rw [Fails, Reader.closedBy, failed]
  exact ⟨_, _, rfl, same⟩

end Fails

section Pathless

/-- Every fault of the reader is one of the value itself. -/
def Pathless (read : Reader α) : Prop :=
  ∀ bytes fault rest, read bytes = .error fault rest → fault.path = []

variable {read : Reader α}

theorem Pathless.fails (pathless : Pathless read) (never : ∀ x rest, read bytes ≠ .ok x rest) :
    Fails [] read bytes := by
  cases ran : read bytes with
  | ok x rest => exact absurd ran (never x rest)
  | error fault rest => exact ⟨fault, rest, ran, pathless _ _ _ ran⟩

theorem Pathless.bind {next : α → Reader β} (first : Pathless read) (others : ∀ x, Pathless (next x)) :
    Pathless (read >>= next) := by
  intro bytes fault rest failed
  cases ran : read bytes with
  | ok x middle => exact others x _ _ _ ((bind_of_ok ran).symm.trans failed)
  | error found left =>
      have same : (read >>= next) bytes = .error found left := by simp [Bind.bind, EStateM.bind, ran]
      rw [same] at failed
      cases failed
      exact first _ _ _ ran

end Pathless

section Leaves

variable {json : Json} {datum : Datum} {shape : Shape} {field : Field} {f : UInt8} {n : Nat}
  {read : Shape → Reader Datum}

end Leaves

end Reader

end TraceReplay.Interchange
