import TypedImp.Typing.Expr

/-!
# Checking statements

A declaration adds its variable to the current scope; bodies have scopes of their own. No other
statement changes what is known.
-/

namespace TypedImp.Typing

def expression (r : Registry) (e : Source.Expr) : Check Typed.Expr := do
  checkExpr r (← get) e

/-- A declaration has a type, a value of that type, or a value that tells the type. -/
def checkDeclaration (r : Registry) (name : String) (type : Option String)
    (value : Option Source.Expr) : Check (Variable × Option Typed.Expr) := do
  let declared ← type.mapM fun name => (r.typeNamed name : Check TypeId)
  let value ← value.mapM (expression r)
  let type ←
    match declared, value with
    | some declared, some value => do
      r.requireAssignable declared value.type
      pure declared
    | some declared, none => pure declared
    | none, some value => pure value.type
    | none, none => throw (.noTypeOrValue name)
  let target := Variable.plain name type
  Check.defineVariable target
  return (target, value)

def checkCondition (r : Registry) (e : Source.Expr) : Check Typed.Expr := do
  let condition ← expression r e
  r.requireAssignable .boolean condition.type
  return condition

/-- The body of this construct may not be empty. -/
def requireBody (construct : String) (body : List Source.Stmt) : Check Unit :=
  if body.isEmpty then throw (.invalidStatement s!"{construct} body must not be empty")
  else pure ()

mutual

def checkStmt (r : Registry) : Source.Stmt → Check Typed.Stmt
  | .expression e => do
    if !e.isCall then throw (.invalidStatement "only calls may be used as statements")
    return .expression (← expression r e)
  | .declaration name type value => do
    let (target, value) ← checkDeclaration r name type value
    return .declaration target value
  | .assignment target value => do
    if !target.isAccess then
      throw (.invalidStatement "only variables and fields may be assigned")
    let target ← expression r target
    let value ← expression r value
    r.requireAssignable target.type value.type
    return .assignment target value
  | .conditional condition thenBody elseBody => do
    let condition ← checkCondition r condition
    requireBody "if" thenBody
    let thenBody ← Check.inScope (checkBlock r thenBody)
    let elseBody ← Check.inScope (checkBlock r elseBody)
    return .conditional condition thenBody elseBody
  | .each name items body => do
    let items ← expression r items
    r.requireAssignable .integerIterable items.type
    requireBody "for" body
    let target := Variable.plain name .integer
    let body ← Check.inScope do
      Check.defineVariable target
      checkBlock r body
    return .each target items body
  | .loop condition body => do
    let condition ← checkCondition r condition
    return .loop condition (← Check.inScope (checkBlock r body))
  | .ret value => do
    match (← get).result with
    | none => throw (.invalidStatement "return outside of a method")
    | some expected =>
      let value ← expression r value
      if value.type = expected then return .ret value
      else throw (mismatch r expected value.type)

def checkBlock (r : Registry) : List Source.Stmt → Check (List Typed.Stmt)
  | [] => return []
  | s :: ss => do
    let s ← checkStmt r s
    let ss ← checkBlock r ss
    return s :: ss

end

end TypedImp.Typing
