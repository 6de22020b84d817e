import RunReport.Text.Cut
/-!
# Styled text

Text for a terminal is a row of spans. With colors a styled span stands between an escape sequence
that starts its style and one that ends all styles; inside it, whatever ends all styles is followed
by a new start. Without colors it is its text.
-/

namespace RunReport.Render

inductive Style where
  | bold
  | dimmed
  | italic
  | red
  | green
  | yellow
  | blue
  | boldRed
  deriving DecidableEq, Repr

def Style.codes : Style → String
  | .bold => "1"
  | .dimmed => "2"
  | .italic => "3"
  | .red => "31"
  | .green => "32"
  | .yellow => "33"
  | .blue => "34"
  | .boldRed => "1;31"

def Style.opening (s : Style) : String :=
  "\x1b[" ++ s.codes ++ "m"

def reset : String := "\x1b[0m"

structure Span where
  style : Option Style
  text : String
  deriving DecidableEq, Repr

def plain (text : String) : Span := ⟨none, text⟩

def styled (style : Style) (text : String) : Span := ⟨some style, text⟩

def Span.paint (colors : Bool) (span : Span) : String :=
  match span.style with
  | none => span.text
  | some style =>
    if colors then
      style.opening ++ Text.replace reset (reset ++ style.opening) span.text ++ reset
    else span.text

def paint (colors : Bool) (spans : List Span) : String :=
  String.join (spans.map (·.paint colors))

/-- A line of spans. -/
def line (spans : List Span) : List Span :=
  spans ++ [plain "\n"]

def indent (depth : Nat) : String :=
  Text.times depth "  "

end RunReport.Render
