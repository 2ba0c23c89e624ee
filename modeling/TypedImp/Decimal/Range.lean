import TypedImp.Decimal.Basic

/-!
# The range of decimal literals

A literal has to fit into a finite double, and its scale into 32 bits. Zero always does. Not all
digits of a long literal are needed to tell: those at its end are taken off before the scale is
looked at, and the scale gets smaller with each of them.
-/

namespace TypedImp.Decimal

def doubleLimit : Nat := Nat.pow 2 1024 - Nat.pow 2 970

def bitLength (n : Nat) : Nat :=
  if n = 0 then 0 else n.log2 + 1

/-- The decimal logarithm of two, in units of `logUnit`. -/
def logOfTwo : Nat := 30102999566398120

/-- What `logOfTwo` is counted in: 17 places, enough for numbers of up to 100 million bits. -/
def logUnit : Nat := 100000000000000000

/-- The number of decimal digits as far as the length in binary tells: the decimal logarithm of the
power of two one place above the number, rounded down. It is the exact number or one less. -/
def estimatedDigits (n : Nat) : Nat :=
  (bitLength n + 1) * logOfTwo / logUnit

def keptDigits : Nat := 25

def chunkDigits : Nat := 19

/-- How many full chunks of digits there are beyond those that are kept. -/
def spareChunks (n : Nat) : Nat :=
  (estimatedDigits n - keptDigits) / chunkDigits

/-- The scale that is left when the spare chunks of digits are taken off the end. -/
def shortenedScale (d : Decimal) : Int :=
  d.scale - (chunkDigits * spareChunks d.digits.natAbs : Nat)

def scaleLimit : Int := 2147483647

/-- The value rounds to a finite double. Only a magnitude next to that of the limit needs the
exact comparison. -/
def belowDoubleLimit (d : Decimal) : Bool :=
  d.magnitude ≤ 308 ||
    (d.magnitude ≤ 309 &&
      d.digits.natAbs * powerOfTen (-d.scale).toNat < doubleLimit * powerOfTen d.scale.toNat)

def inRange (d : Decimal) : Bool :=
  d.digits == 0 || (d.shortenedScale ≤ scaleLimit && d.belowDoubleLimit)

end TypedImp.Decimal
