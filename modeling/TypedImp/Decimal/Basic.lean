/-!
# Decimals

A decimal is a whole number of digits and the place of its point. It keeps the scale it was
written with: `1.0` and `1.00` have one value and are two decimals. The digits are of any size; a
scale has 64 bits, and a product whose scale does not fit wraps around.
-/

namespace TypedImp

def powerOfTen (k : Nat) : Nat :=
  Nat.pow 10 k

/-- The number `digits * 10 ^ (-scale)`. -/
structure Decimal where
  digits : Int
  scale : Int
  deriving DecidableEq, Inhabited, Repr

namespace Decimal

/-- A whole number, with nothing after the point. -/
def ofInt (n : Int) : Decimal :=
  ⟨n, 0⟩

/-- A scale in 64 bits with a sign: what does not fit wraps around. -/
def wrapScale (scale : Int) : Int :=
  scale.bmod 18446744073709551616

theorem wrapScale_of_fits {scale : Int}
    (h : -9223372036854775808 ≤ scale ∧ scale ≤ 9223372036854775807) :
    wrapScale scale = scale := by
  simp only [wrapScale, Int.bmod]
  omega

/-- The same value with `k` more places after the point. -/
def raise (d : Decimal) (k : Nat) : Decimal :=
  ⟨d.digits * powerOfTen k, d.scale + k⟩

/-- The digits of the value at a scale that is not below its own. Those of a zero need no power
of ten, however far the scales are apart. -/
def digitsAt (d : Decimal) (scale : Int) : Int :=
  if d.digits = 0 then 0 else d.digits * powerOfTen (scale - d.scale).toNat

theorem digitsAt_eq (d : Decimal) (scale : Int) :
    d.digitsAt scale = d.digits * powerOfTen (scale - d.scale).toNat := by
  by_cases h : d.digits = 0 <;> simp [digitsAt, h]

/-- How many places a sum takes over from an operand that is zero, at most. -/
def placesFromZero : Nat := 15

/-- Exact at the larger scale. A zero operand lends the other one its places, up to a limit. -/
def add (a b : Decimal) : Decimal :=
  if b.digits = 0 then a.raise (min (b.scale - a.scale).toNat placesFromZero)
  else if a.digits = 0 then b.raise (min (a.scale - b.scale).toNat placesFromZero)
  else
    let scale := max a.scale b.scale
    ⟨a.digitsAt scale + b.digitsAt scale, scale⟩

/-- Exact at the larger scale. -/
def sub (a b : Decimal) : Decimal :=
  let scale := max a.scale b.scale
  ⟨a.digitsAt scale - b.digitsAt scale, scale⟩

def stripZeros (digits scale : Int) : Decimal :=
  if h : digits ≠ 0 ∧ digits % 10 = 0 then stripZeros (digits / 10) (scale - 1)
  else ⟨digits, scale⟩
termination_by digits.natAbs
decreasing_by omega

/-- The same value at the least scale, if that fits; zero has scale zero. -/
def normalized (d : Decimal) : Decimal :=
  if d.digits = 0 then ⟨0, 0⟩
  else
    let stripped := stripZeros d.digits d.scale
    { stripped with scale := wrapScale stripped.scale }

/-- The most places with which a one is still taken for the neutral factor. -/
def placesOfOne : Nat := 38

/-- A one, with any number of places that a factor is recognised at. -/
def isOne (d : Decimal) : Bool :=
  0 ≤ d.scale && d.scale ≤ placesOfOne && d.digits == powerOfTen d.scale.toNat

/-- The scales add up. A factor of one leaves the other factor, normalized. -/
def mul (a b : Decimal) : Decimal :=
  if a.isOne then b.normalized
  else if b.isOne then a.normalized
  else ⟨a.digits * b.digits, wrapScale (a.scale + b.scale)⟩

/-- How many places in front of the point the value takes: it lies below `10 ^ magnitude`, and
if it is not zero, not below a tenth of that. -/
def magnitude (d : Decimal) : Int :=
  (Nat.toDigits 10 d.digits.natAbs).length - d.scale

/-- Compares two decimals of one sign other than zero. Different magnitudes decide; equal ones
bound the shift to the common scale. -/
def compareNonzero (a b : Decimal) : Ordering :=
  if a.magnitude = b.magnitude then
    let scale := max a.scale b.scale
    compare (a.digitsAt scale) (b.digitsAt scale)
  else if 0 < a.digits then compare a.magnitude b.magnitude
  else compare b.magnitude a.magnitude

/-- Orders by value, whatever the scales. -/
instance : Ord Decimal where
  compare a b :=
    match compare a.digits.sign b.digits.sign with
    | .eq => if a.digits = 0 then .eq else compareNonzero a b
    | decided => decided

end Decimal

end TypedImp
