import TypedImp.Decimal.Range
import TypedImp.Typing.Checker

/-!
# Checking expressions

The type of an expression follows from the types of its parts. Checking an expression reads the
state of the check and leaves it as it is.
-/

namespace TypedImp

namespace Source.Expr

def isBinary : Expr → Bool
  | binary _ _ _ => true
  | _ => false

def isCall : Expr → Bool
  | call _ _ | method _ _ _ => true
  | _ => false

def isAccess : Expr → Bool
  | var _ | field _ _ => true
  | _ => false

end Source.Expr

namespace Literal

def inIntegerRange (n : Int) : Bool :=
  -2147483648 ≤ n && n ≤ 2147483647

/-- The type of a literal that is in range. -/
def check : Literal → Except Error TypeId
  | nil => .ok .nil
  | boolean _ => .ok .boolean
  | integer n =>
    if inIntegerRange n then .ok .integer else .error (.integerOverflow (toString n))
  | decimal d => if d.inRange then .ok .decimal else .error (.decimalOverflow d.toText)
  | character _ => .ok .character
  | string _ => .ok .string

end Literal

namespace Typing

/-- The error for two types that differ where they have to be the same. -/
def mismatch (r : Registry) (expected received : TypeId) : Error :=
  .typeMismatch (r.nameOf expected) (r.nameOf received)

/-- The result type of an operator for two operand types. -/
def checkOperator (r : Registry) (left right : TypeId) : Operator → Except Error TypeId
  | .connective _ => do
    r.requireAssignable .boolean left
    r.requireAssignable .boolean right
    return .boolean
  | .relation _ => do
    r.requireAssignable .comparable left
    r.requireAssignable .comparable right
    if left = right then return .boolean else throw (mismatch r left right)
  | .arithmetic operator =>
    if operator = .add ∧ (left = .string ∨ right = .string) then .ok .string
    else if !left.isNumeric then .error (.operandMismatch operator.symbol (r.nameOf left))
    else if right = left then .ok left
    else .error (mismatch r left right)

/-- Every argument has to be assignable to its parameter. -/
def requireArguments (r : Registry) : List TypeId → List Typed.Expr → Except Error Unit
  | parameter :: parameters, argument :: arguments => do
    r.requireAssignable parameter argument.type
    requireArguments r parameters arguments
  | _, _ => .ok ()

mutual

def checkExpr (r : Registry) (c : Checker) : Source.Expr → Except Error Typed.Expr
  | .literal value => do
    return .literal value (← value.check)
  | .group inner => do
    if !inner.isBinary then
      throw (.invalidExpression "only binary expressions may be grouped")
    let inner ← checkExpr r c inner
    return .group inner inner.type
  | .binary operator left right => do
    let left ← checkExpr r c left
    let right ← checkExpr r c right
    return .binary operator left right (← checkOperator r left.type right.type operator)
  | .var name => do
    let target ← c.lookupVariable name
    return .var target target.type
  | .field receiver name => do
    let receiver ← checkExpr r c receiver
    let target ← r.field receiver.type name
    return .field receiver target.toVariable target.type
  | .call name arguments => do
    let arguments ← checkExprs r c arguments
    let function ← c.lookupFunction name arguments.length
    requireArguments r function.parameters arguments
    return .call function arguments function.result
  | .method receiver name arguments => do
    let receiver ← checkExpr r c receiver
    let arguments ← checkExprs r c arguments
    let method ← r.method receiver.type name arguments.length
    requireArguments r (method.parameters.drop 1) arguments
    return .method receiver method.toFunction arguments method.result

def checkExprs (r : Registry) (c : Checker) : List Source.Expr → Except Error (List Typed.Expr)
  | [] => .ok []
  | e :: es => do
    let e ← checkExpr r c e
    let es ← checkExprs r c es
    return e :: es

end

end Typing

end TypedImp
