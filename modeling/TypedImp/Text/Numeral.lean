/-!
# Numerals

Reading whole numbers of any size from their decimal text.
-/

namespace TypedImp.Text

def digit? (c : Char) : Option Nat :=
  if c.isDigit then some (c.toNat - '0'.toNat) else none

/-- The value of a row of decimal digits, most significant first; zero for an empty row. -/
def readDigits (cs : List Char) : Option Nat :=
  cs.foldlM (fun value c => do return 10 * value + (← digit? c)) 0

/-- A sign in front of a text, if there is one, and the text behind it. -/
def splitSign : List Char → Bool × List Char
  | '-' :: cs => (true, cs)
  | '+' :: cs => (false, cs)
  | cs => (false, cs)

/-- The value of a row of digits that may carry a sign. -/
def readSigned (cs : List Char) : Option Int := do
  let (negative, digits) := splitSign cs
  let value ← readDigits digits
  return if negative then -value else value

/-- Reads a whole number: at least one digit, with or without a sign. -/
def readInt (s : String) : Option Int :=
  if (splitSign s.toList).2.isEmpty then none else readSigned s.toList

end TypedImp.Text
