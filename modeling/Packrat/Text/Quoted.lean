import Packrat.Text.Visible
import Packrat.Hex

/-!
# Text/Quoted — text in quotes

Text in double quotes and characters in single quotes, with backslash escapes: the usual ones for
the quote in use, the backslash, NUL, tab and the line ends, and the hexadecimal code point in
braces for every other character that does not show.
-/

namespace Packrat.Text

/-- A character as it stands between quotes of a kind. -/
def escape (quote c : Char) : String :=
  if c = '\x00' then "\\0"
  else if c = '\t' then "\\t"
  else if c = '\r' then "\\r"
  else if c = '\n' then "\\n"
  else if c = '\\' ∨ c = quote then "\\" ++ c.toString
  else if isVisible c then c.toString
  else "\\u\x7b" ++ Hex.ofNat 1 c.toNat ++ "\x7d"

/-- Text in double quotes. -/
def quoted (s : String) : String :=
  "\"" ++ String.join (s.toList.map (escape '"')) ++ "\""

/-- A character in single quotes. -/
def quotedChar (c : Char) : String := "'" ++ escape '\'' c ++ "'"

end Packrat.Text
