import TypedImp.Machine.Basic
import TypedImp.Machine.Operation

/-!
# Evaluating expressions

Evaluation follows the expression and pays no attention to its types. Operands and arguments are
evaluated from left to right; what is called is looked up after its arguments are evaluated. How a
method of the program is run is left open here, so an expression without calls needs no budget.
-/

namespace TypedImp

def Literal.datum : Literal → Datum
  | nil => .nil
  | boolean b => .boolean b
  | integer n => .integer n
  | decimal d => .decimal d
  | character c => .character c
  | string s => .string s

/-- What a run takes for given: the registry, how methods of the program are run, and how often a
loop may go round. -/
structure Context where
  registry : Registry
  call : Typed.Method → ScopeId → List Value → Exec Value
  rounds : Nat

namespace Context

def invoke (x : Context) : Callable → List Value → Exec Value
  | .body body, arguments => body arguments
  | .print, arguments => Exec.print arguments
  | .method method closure, arguments => x.call method closure arguments

mutual

def evaluate (x : Context) : Typed.Expr → Exec Value
  | .literal value _ => return .of value.datum
  | .group inner _ => x.evaluate inner
  | .binary (.connective operator) left right _ => do
    let left ← (← x.evaluate left).datum.toBool
    if operator.decidedBy left then return .boolean left
    let right ← (← x.evaluate right).datum.toBool
    return .boolean right
  | .binary (.relation operator) left right _ => do
    let left ← x.evaluate left
    let right ← x.evaluate right
    return .boolean (← operator.apply left.datum right.datum)
  | .binary (.arithmetic operator) left right _ => do
    let left ← x.evaluate left
    let right ← x.evaluate right
    return .of (← operator.apply left.datum right.datum)
  | .var target _ => do
    (← get).lookupVariable target.name
  | .field receiver target _ => do
    let receiver ← x.evaluate receiver
    (← get).readField x.registry receiver target.name
  | .call function arguments _ => do
    let values ← x.evaluateAll arguments
    let callable ← (← get).lookupFunction function.name values.length
    x.invoke callable values
  | .method receiver function arguments _ => do
    let receiver ← x.evaluate receiver
    let values ← x.evaluateAll arguments
    let callable ← (← get).resolveMethod x.registry receiver function.name values.length
    x.invoke callable (receiver :: values)

/-- The values of expressions, from left to right. -/
def evaluateAll (x : Context) : List Typed.Expr → Exec (List Value)
  | [] => return []
  | e :: es => do
    let value ← x.evaluate e
    let values ← x.evaluateAll es
    return value :: values

end

end Context

end TypedImp
