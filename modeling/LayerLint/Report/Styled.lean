/-
  LayerLint.Report.Styled: text with colours.

  A styled text is a row of spans. Without colours it is the spans' texts; with colours each span that
  has a style stands between the escape sequence of its codes and the one that resets them.
-/

namespace LayerLint

inductive Color where
  | red
  | green
  | yellow
  | blue
  | cyan
  deriving DecidableEq, Repr

def Color.code : Color → String
  | red => "31"
  | green => "32"
  | yellow => "33"
  | blue => "34"
  | cyan => "36"

inductive Style where
  | plain
  | bold
  | dimmed
  | colored (c : Color)
  | boldColored (c : Color)
  deriving DecidableEq, Repr

/-- The codes of a style, the boldness before the colour. -/
def Style.codes : Style → String
  | plain => ""
  | bold => "1"
  | dimmed => "2"
  | colored c => c.code
  | boldColored c => "1;" ++ c.code

structure Span where
  style : Style
  text : String
  deriving DecidableEq, Repr

namespace Span

def colored (s : Span) : String :=
  match s.style with
  | .plain => s.text
  | style => "\x1b[" ++ style.codes ++ "m" ++ s.text ++ "\x1b[0m"

def render (color : Bool) (s : Span) : String := if color then s.colored else s.text

end Span

abbrev Styled := List Span

namespace Styled

def plain (text : String) : Styled := [⟨.plain, text⟩]

def render (color : Bool) (t : Styled) : String := String.join (t.map (Span.render color))

end Styled

end LayerLint
