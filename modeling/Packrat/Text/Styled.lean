/-!
# Text/Styled — coloured text

Text for terminals is a list of spans, each plain or a bold heading in a colour. Plain output
drops the colours; ANSI output puts an escape sequence in front of a heading and resets behind it.
-/

namespace Packrat.Text

/-- A colour of headings. -/
inductive Colour where
  | green
  | yellow
deriving DecidableEq, Repr

/-- A piece of text. -/
inductive Span where
  | plain (text : String)
  | heading (colour : Colour) (text : String)
deriving DecidableEq, Repr

/-- The sequence that resets a terminal's style. -/
def ansiReset : String := "\x1b[0m"

/-- The sequence that makes text bold. -/
def ansiBold : String := "\x1b[1m"

/-- The sequence that sets a colour. -/
def Colour.ansi : Colour → String
  | green => "\x1b[32m"
  | yellow => "\x1b[33m"

/-- The text of a span, with escape sequences if it is for a terminal that shows them. -/
def Span.render (coloured : Bool) : Span → String
  | plain text => text
  | heading colour text =>
    if coloured then ansiReset ++ ansiBold ++ colour.ansi ++ text ++ ansiReset else text

/-- The text of spans. -/
def renderSpans (coloured : Bool) (spans : List Span) : String :=
  String.join (spans.map (Span.render coloured))

end Packrat.Text
