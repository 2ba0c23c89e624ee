import TypedImp.Text.Glyphless

/-!
# Quoted text

Messages show a name between double quotes, on one line, so that every character of it can be
told apart: quotes, backslashes, line breaks, tabs and NUL have short escapes, and a character
without a glyph is written as its number.
-/

namespace TypedImp.Text

/-- The number of a character, in lower-case hexadecimal between braces. -/
def numbered (c : Char) : String :=
  "\\u\x7b" ++ String.ofList (Nat.toDigits 16 c.toNat) ++ "\x7d"

def quotedChar (c : Char) : String :=
  if c = '\x22' then "\\\""
  else if c = '\\' then "\\\\"
  else if c = '\n' then "\\n"
  else if c = '\r' then "\\r"
  else if c = '\t' then "\\t"
  else if c = '\x00' then "\\0"
  else if isGlyphless c then numbered c
  else c.toString

def quoted (s : String) : String :=
  "\"" ++ String.join (s.toList.map quotedChar) ++ "\""

end TypedImp.Text
