import TypedImp.Decimal.Basic
import TypedImp.Error

/-!
# Division of decimals

A quotient has the places of its dividend, and is rounded to the nearest such decimal, a half to
the even neighbour.
-/

namespace TypedImp

/-- A quotient that was cut off towards zero lies too near to it: more than half of a unit was cut
off, or exactly half and what is left is odd. -/
def fallsShort (numerator denominator : Int) : Bool :=
  match compare (2 * (numerator.tmod denominator).natAbs) denominator.natAbs with
  | .gt => true
  | .eq => numerator.tdiv denominator % 2 ≠ 0
  | .lt => false

/-- The whole number nearest to a quotient; of two as near, the even one. A quotient of zero has no
sign, so the way to go from it is told by the signs of the operands. -/
def roundQuotient (numerator denominator : Int) : Int :=
  let quotient := numerator.tdiv denominator
  if fallsShort numerator denominator then
    if decide (numerator < 0) != decide (denominator < 0) then quotient - 1 else quotient + 1
  else quotient

namespace Decimal

/-- The whole numbers whose quotient has the digits of `a / b` at the scale of `a`. -/
def ratio (a b : Decimal) : Int × Int :=
  if 0 ≤ b.scale then (a.digits * powerOfTen b.scale.toNat, b.digits)
  else (a.digits, b.digits * powerOfTen b.scale.natAbs)

/-- Divides at the scale of the dividend. -/
def divide (a b : Decimal) : Except Error Decimal :=
  if b.digits = 0 then .error .divisionByZero
  else
    let ratio := a.ratio b
    .ok ⟨roundQuotient ratio.1 ratio.2, a.scale⟩

end Decimal

end TypedImp
