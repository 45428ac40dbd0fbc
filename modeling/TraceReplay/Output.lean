import TraceReplay.Interchange.Encode

/-!
Outputs that may have room for a number of bytes only. What does not fit is cut off at that byte,
and from then on nothing is accepted.
-/
namespace TraceReplay

structure Output where
  /-- How many more bytes are accepted; without a number, any. -/
  room : Option Nat
  /-- What the output says when it refuses bytes. -/
  refusal : String
deriving Inhabited

namespace Output

def fits (output : Output) (bytes : Bytes) : Bool :=
  match output.room with
  | none => true
  | some room => bytes.length ≤ room

/-- The bytes that the output takes. -/
def accepted (output : Output) (bytes : Bytes) : Bytes :=
  match output.room with
  | none => bytes
  | some room => bytes.take room

def after (output : Output) (bytes : Bytes) : Output :=
  { output with room := output.room.map (· - bytes.length) }

end Output

/-- Writes the document of a trace; the result is its length, or why the output refused it. -/
def Trace.write (trace : Trace) (layout : Interchange.Layout) (output : Output) :
    Except String Nat :=
  let bytes := Utf8.encode (trace.encode layout)
  if output.fits bytes then .ok bytes.length else .error output.refusal

end TraceReplay
