import TypedImp.Decimal.Text
import TypedImp.Source.Program

/-!
# Literals as text

Strings and characters stand between delimiters. The delimiter, the backslash and the characters
that would break the line are escaped.
-/

namespace TypedImp.Render

/-- The letter that stands for a character behind a backslash. -/
def escapeLetter? (delimiter c : Char) : Option Char :=
  if c = '\\' then some '\\'
  else if c = '\n' then some 'n'
  else if c = '\r' then some 'r'
  else if c = '\t' then some 't'
  else if c = '\x08' then some 'b'
  else if c = '\x0c' then some 'f'
  else if c = delimiter then some c
  else none

def escape (delimiter c : Char) : List Char :=
  match escapeLetter? delimiter c with
  | some letter => ['\\', letter]
  | none => [c]

def stringDelimiter : Char := '\x22'

def characterDelimiter : Char := '\x27'

def delimited (delimiter : Char) (cs : List Char) : List Char :=
  delimiter :: cs.flatMap (escape delimiter) ++ [delimiter]

def literal : Literal → String
  | .nil => "null"
  | .boolean b => if b then "true" else "false"
  | .integer n => toString n
  | .decimal d => d.toText
  | .character c => String.ofList (delimited characterDelimiter [c])
  | .string s => String.ofList (delimited stringDelimiter s.toList)

end TypedImp.Render
