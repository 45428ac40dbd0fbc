import TraceReplay.Text.Utf8

/-!
What is printed, as pieces of text and changes of style, and the settings of the printing. Styles
become terminal codes where the output is coloured, and nothing where it is not.
-/
namespace TraceReplay

inductive Colour
  | red
  | yellow
  | magenta
deriving DecidableEq, Inhabited

inductive Piece
  | plain (text : String)
  | bold
  | ink (colour : Colour)
  | reset
deriving DecidableEq, Inhabited

def Colour.code : Colour → String
  | .red => "31"
  | .yellow => "33"
  | .magenta => "35"

/-- The terminal code of a style. -/
def styleCode (code : String) : String := String.singleton '\x1b' ++ "[" ++ code ++ "m"

namespace Piece

/-- The text of a piece. A style is selected after a reset of the one before. -/
def shown (coloured : Bool) : Piece → String
  | .plain text => text
  | .bold => if coloured then styleCode "0" ++ styleCode "1" else ""
  | .ink colour => if coloured then styleCode "0" ++ styleCode colour.code else ""
  | .reset => if coloured then styleCode "0" else ""

def bytes (coloured : Bool) (pieces : List Piece) : Bytes :=
  pieces.flatMap fun piece => Utf8.encode (piece.shown coloured)

/-- Text in a colour. -/
def inColour (colour : Colour) (text : String) : List Piece := [.ink colour, .plain text, .reset]

/-- A line in red, as errors are shown. -/
def errorLine (message : String) : List Piece := inColour .red (message ++ "\n")

end Piece

inductive ColorChoice
  | auto
  | always
  | never
deriving DecidableEq, Inhabited

namespace ColorChoice

def parse? : String → Option ColorChoice
  | "auto" => some .auto
  | "always" => some .always
  | "never" => some .never
  | _ => none

def name : ColorChoice → String
  | .auto => "auto"
  | .always => "always"
  | .never => "never"

/-- Whether to colour, given the terminal's name and the wish for no colour, if they are set. -/
def colours (choice : ColorChoice) (terminal noColor : Option String) : Bool :=
  match choice with
  | .always => true
  | .never => false
  | .auto => terminal.isSome && terminal != some "dumb" && noColor.isNone

end ColorChoice

structure RenderSettings where
  showWorklist : Bool
  /-- Whether a dump goes into sub-traces. -/
  showNested : Bool
  color : ColorChoice
  /-- The most values shown of a list, if there is a limit. -/
  valueLimit : Option Nat
deriving DecidableEq, Inhabited

def RenderSettings.defaults : RenderSettings := ⟨true, false, .auto, none⟩

end TraceReplay
