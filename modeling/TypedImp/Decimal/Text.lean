import TypedImp.Decimal.Basic
import TypedImp.Text.Numeral

/-!
# Decimal text

A decimal is written with all its places, so that reading gives it back. Rows of zeros longer
than a limit are written as an exponent.
-/

namespace TypedImp

namespace Decimal

/-- Where the positional form of a decimal ends. -/
structure Layout where
  /-- The most zeros between the point and the first digit. -/
  leadingZeros : Int
  /-- The most zeros between the last digit and the point. -/
  trailingZeros : Int

/-- Five zeros behind the point and fifteen in front of it are still written out. -/
def layout : Layout := ⟨5, 15⟩

def signedText (n : Int) : String :=
  if n < 0 then toString n else "+" ++ toString n

/-- The first digit before the point and the others behind it. -/
def scientificText : List Char → String
  | [] => ""
  | [c] => String.ofList [c]
  | c :: cs => String.ofList (c :: '.' :: cs)

/-- A row of digits with its point `scale` places from the end. -/
def unsignedText (digits : List Char) (scale : Int) : String :=
  let length : Int := digits.length
  if scale - length > layout.leadingZeros then
    scientificText digits ++ "E" ++ signedText (length - 1 - scale)
  else if -scale > layout.trailingZeros then
    String.ofList digits ++ "e" ++ signedText (-scale)
  else if scale ≤ 0 then
    String.ofList (digits ++ List.replicate (-scale).toNat '0')
  else if scale < length then
    let whole := (length - scale).toNat
    String.ofList (digits.take whole ++ '.' :: digits.drop whole)
  else
    String.ofList ('0' :: '.' :: List.replicate (scale - length).toNat '0' ++ digits)

/-- The text of a decimal. A zero has no places. -/
def toText (d : Decimal) : String :=
  (if d.digits < 0 then "-" else "") ++
    unsignedText (Nat.toDigits 10 d.digits.natAbs) (if d.digits = 0 then 0 else d.scale)

instance : ToString Decimal := ⟨toText⟩

def isExponentMark (c : Char) : Bool :=
  c == 'e' || c == 'E'

/-- Reads digits that may carry a sign and may have a point among them; `_` may stand between
them. -/
def readPositional (cs : List Char) : Option Decimal := do
  let cs := cs.filter (· != '_')
  let whole := cs.takeWhile (· != '.')
  let places := (cs.dropWhile (· != '.')).drop 1
  let digits ← Text.readSigned (whole ++ places)
  return ⟨digits, places.length⟩

def fitScale? (scale : Int) : Option Int :=
  if wrapScale scale = scale then some scale else none

/-- Reads a decimal: a positional number, and behind an `e` the power of ten it is scaled by. -/
def read (s : String) : Option Decimal := do
  let base ← readPositional (s.toList.takeWhile (!isExponentMark ·))
  match (s.toList.dropWhile (!isExponentMark ·)).drop 1 with
  | [] => return base
  | exponent =>
    let scale ← fitScale? (base.scale - (← Text.readSigned exponent))
    return { base with scale }

end Decimal

end TypedImp
