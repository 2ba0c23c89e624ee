import TypedImp.Text.Quoted

/-!
# Errors

Every pass stops at its first error. An error is its cause; its class, the message that reports
it and the tip that goes with the message are functions of the cause.
-/

namespace TypedImp

open Text (quoted)

/-- What can go wrong while types are registered or a program is checked, run or written out. -/
inductive Error where
  | duplicateType (name : String)
  | invalidTypeName (name : String)
  | duplicateVariable (name : String)
  | duplicateFunction (name : String) (arity : Nat)
  | unknownVariable (name : String)
  | unknownFunction (name : String) (arity : Nat)
  | unknownType (name : String)
  | typeMismatch (expected received : String)
  | operandMismatch (operator received : String)
  | noTypeOrValue (name : String)
  | invalidStatement (reason : String)
  | invalidExpression (reason : String)
  | integerOverflow (literal : String)
  | decimalOverflow (literal : String)
  | arityMismatch (function : String) (available : List Nat) (received : Nat)
  | divisionByZero
  | missingEntryPoint
  | inconsistent (violation : String)
  | indexOutOfBounds (start stop : String) (length : Nat)
  | outputFailed (reason : String)
  deriving DecidableEq, Inhabited, Repr

inductive ErrorClass where
  | configuration
  | duplicateDefinition
  | unknownSymbol
  | typeMismatch
  | overflow
  | arity
  | divisionByZero
  | missingEntryPoint
  | internalConsistency
  | indexOutOfBounds
  | output
  deriving DecidableEq, Repr

def ErrorClass.name : ErrorClass → String
  | configuration => "ConfigurationError"
  | duplicateDefinition => "DuplicateDefinitionError"
  | unknownSymbol => "UnknownSymbolError"
  | typeMismatch => "TypeMismatchError"
  | overflow => "OverflowError"
  | arity => "ArityError"
  | divisionByZero => "DivisionByZeroError"
  | missingEntryPoint => "MissingEntryPointError"
  | internalConsistency => "InternalConsistencyError"
  | indexOutOfBounds => "IndexOutOfBoundsError"
  | output => "OutputError"

namespace Error

def toClass : Error → ErrorClass
  | duplicateType _ | invalidTypeName _ => .configuration
  | duplicateVariable _ | duplicateFunction _ _ => .duplicateDefinition
  | unknownVariable _ | unknownFunction _ _ | unknownType _ => .unknownSymbol
  | typeMismatch _ _ | operandMismatch _ _ | noTypeOrValue _ | invalidStatement _
  | invalidExpression _ => .typeMismatch
  | integerOverflow _ | decimalOverflow _ => .overflow
  | arityMismatch _ _ _ => .arity
  | divisionByZero => .divisionByZero
  | missingEntryPoint => .missingEntryPoint
  | inconsistent _ => .internalConsistency
  | indexOutOfBounds _ _ _ => .indexOutOfBounds
  | outputFailed _ => .output

def numberList (numbers : List Nat) : String :=
  "[" ++ ", ".intercalate (numbers.map toString) ++ "]"

def message : Error → String
  | duplicateType name => s!"duplicate registration of type {quoted name}"
  | invalidTypeName name => s!"invalid type name {quoted name}"
  | duplicateVariable name => s!"variable {quoted name} already declared"
  | duplicateFunction name arity => s!"function {quoted name}/{arity} already declared"
  | unknownVariable name => s!"variable {quoted name} not declared"
  | unknownFunction name arity => s!"function {quoted name}/{arity} not declared"
  | unknownType name => s!"unknown type {name}"
  | typeMismatch expected received =>
    s!"types do not match: expected {quoted expected}, received {quoted received}"
  | operandMismatch operator received =>
    s!"invalid operand for {quoted operator}: {quoted received}"
  | noTypeOrValue name => s!"expected explicit type or value for {quoted name}"
  | invalidStatement reason => s!"invalid statement: {reason}"
  | invalidExpression reason => s!"invalid expression: {reason}"
  | integerOverflow literal => s!"integer literal {literal} does not fit in 32 bits"
  | decimalOverflow literal => s!"decimal literal {literal} is out of the representable range"
  | arityMismatch function available received =>
    s!"no overload of {quoted function} takes {received} arguments (available: " ++
      numberList available ++ ")"
  | divisionByZero => "division by zero"
  | missingEntryPoint =>
    "missing entry point: expected a zero-argument `main` returning Integer"
  | inconsistent violation => s!"internal consistency violation: {violation}"
  | indexOutOfBounds start stop length =>
    s!"index out of bounds: {start}..{stop} of length {length}"
  | outputFailed reason => s!"failed to write output: {reason}"

/-- Advice that goes with the message; empty where there is none. -/
def tip : Error → String
  | duplicateType name => s!"Type `{name}` is registered twice"
  | invalidTypeName _ => "Type names must start with a letter or underscore"
  | duplicateVariable name => s!"Variable `{name}` already declared"
  | duplicateFunction name arity => s!"Function `{name}/{arity}` already declared"
  | unknownVariable name => s!"Variable `{name}` not declared"
  | unknownFunction name arity => s!"Function `{name}/{arity}` not declared"
  | unknownType name => s!"Unknown type `{name}` found"
  | typeMismatch expected received => s!"Expected type `{expected}`, received `{received}`"
  | operandMismatch operator _ => s!"Check the operand types of `{operator}`"
  | noTypeOrValue _ => "Expected explicit value when no type is given"
  | integerOverflow _ => "Integer literals must fit in 32 bits"
  | decimalOverflow _ => "Decimal literals must fit in a finite double"
  | arityMismatch function available received =>
    s!"`{function}` takes {numberList available} arguments, received {received}"
  | missingEntryPoint => "Declare `DEF main(): Integer`"
  | invalidStatement _ | invalidExpression _ | divisionByZero | inconsistent _
  | indexOutOfBounds _ _ _ | outputFailed _ => ""

end Error

end TypedImp
