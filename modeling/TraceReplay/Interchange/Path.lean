/-!
Places in a document, as the steps that lead there from the top.
-/
namespace TraceReplay

inductive PathStep
  | field (key : String)
  | index (k : Nat)
  /-- A place in a record where no field is named yet. -/
  | unnamed
deriving DecidableEq, Inhabited

/-- The steps from the top of a document to a place in it. -/
abbrev Path := List PathStep

namespace PathStep

def text : PathStep → String
  | .field key => key
  | .index k => "[" ++ toString k ++ "]"
  | .unnamed => "?"

/-- The step as it reads after another: a point stands before it unless brackets do. -/
def suffix : PathStep → String
  | .index k => (PathStep.index k).text
  | step => "." ++ step.text

end PathStep

/-- A path as it reads; the top of the document is a lone point. -/
def Path.text : Path → String
  | [] => "."
  | step :: steps => step.text ++ String.join (steps.map PathStep.suffix)

/-- A path as it is shown: what reads as the top of the document is left out. -/
def Path.shown? (path : Path) : Option String :=
  if path.text = "." then none else some path.text

end TraceReplay
