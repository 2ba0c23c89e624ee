import TypedImp.Decimal.Division
import TypedImp.Source.Operator
import TypedImp.Value

/-!
# Operations on values

Whole numbers are exact and divide toward zero; decimals divide at the scale of the dividend.
`add` joins the texts of its operands as soon as one of them is a string.
-/

namespace TypedImp

def Datum.toBool : Datum → Except Error Bool
  | .boolean b => .ok b
  | other => .error (.typeMismatch "boolean" other.className)

/-- The error for operands that an operator does not take together. -/
def operandMismatch (symbol : String) (left right : Datum) : Error :=
  .operandMismatch symbol s!"{left.className} and {right.className}"

namespace Relation

/-- Whether an ordering answers a comparison by order. Equality is not asked of the order. -/
def holds : Relation → Ordering → Bool
  | less, o => o.isLT
  | lessEqual, o => o.isLE
  | greater, o => o.isGT
  | greaterEqual, o => o.isGE
  | equal, o => o.isEq
  | notEqual, o => o.isNe

def ordered (operator : Relation) (left right : Datum) : Except Error Bool :=
  match left.compare? right with
  | some ordering => .ok (operator.holds ordering)
  | none => .error (operandMismatch operator.symbol left right)

/-- Compares two data. Any two can be tested for equality. -/
def apply : Relation → Datum → Datum → Except Error Bool
  | equal, left, right => .ok (left == right)
  | notEqual, left, right => .ok (left != right)
  | operator, left, right => operator.ordered left right

end Relation

namespace Arithmetic

def onIntegers (a b : Int) : Arithmetic → Except Error Int
  | add => .ok (a + b)
  | subtract => .ok (a - b)
  | multiply => .ok (a * b)
  | divide => if b = 0 then .error .divisionByZero else .ok (a.tdiv b)

def onDecimals (a b : Decimal) : Arithmetic → Except Error Decimal
  | add => .ok (a.add b)
  | subtract => .ok (a.sub b)
  | multiply => .ok (a.mul b)
  | divide => a.divide b

def onNumbers (operator : Arithmetic) : Datum → Datum → Except Error Datum
  | .integer a, .integer b => return .integer (← operator.onIntegers a b)
  | .decimal a, .decimal b => return .decimal (← operator.onDecimals a b)
  | left, right => .error (operandMismatch operator.symbol left right)

def eitherString : Datum → Datum → Bool
  | .string _, _ | _, .string _ => true
  | _, _ => false

def apply (operator : Arithmetic) (left right : Datum) : Except Error Datum :=
  if operator = .add ∧ eitherString left right then
    .ok (.string (left.toText ++ right.toText))
  else
    operator.onNumbers left right

end Arithmetic

/-- The answer that a left operand alone decides. -/
def Connective.decidedBy : Connective → Bool → Bool
  | .and, left => !left
  | .or, left => left

end TypedImp
