import TypedImp.Typing.Stmt

/-!
# Checking programs

Fields come before methods, and a method can call itself and the methods before it. A program
starts at a method `main` without parameters that gives a whole number.
-/

namespace TypedImp.Typing

def checkField (r : Registry) (field : Source.Field) : Check Typed.Field := do
  let (target, value) ← checkDeclaration r field.name field.type field.value
  return ⟨target, value⟩

def defineParameters : List String → List TypeId → Check Unit
  | name :: names, type :: types => do
    Check.defineVariable (.plain name type)
    defineParameters names types
  | _, _ => pure ()

/-- Decorates a method. It is defined before its body is checked. -/
def checkMethod (r : Registry) (method : Source.Method) : Check Typed.Method := do
  if method.parameters.length ≠ method.types.length then
    throw (.arityMismatch method.name [method.types.length] method.parameters.length)
  let types ← method.types.mapM fun name => (r.typeNamed name : Check TypeId)
  let result ← (method.result.elim (.ok .nil) r.typeNamed : Except Error TypeId)
  let function := Function.plain method.name types result
  Check.defineFunction function
  let body ← Check.inMethod result <| Check.inScope do
    defineParameters method.parameters types
    checkBlock r method.body
  return ⟨function, method.parameters, body⟩

def entryPoint : String := "main"

def isEntryPoint (r : Registry) (method : Source.Method) : Bool :=
  method.name = entryPoint && method.parameters.isEmpty &&
    method.result.bind r.typeNamed? = some .integer

/-- Decorates a program in the state that the check has reached. -/
def checkProgram (r : Registry) (program : Source.Program) : Check Typed.Program := do
  if !program.methods.any (isEntryPoint r) then throw .missingEntryPoint
  let fields ← program.fields.mapM (checkField r)
  let methods ← program.methods.mapM (checkMethod r)
  return ⟨fields, methods⟩

/-- Decorates a program that sees no more than `print`. -/
def check (r : Registry) (program : Source.Program) : Except Error Typed.Program :=
  ((checkProgram r program).run Checker.initial).1

end TypedImp.Typing
