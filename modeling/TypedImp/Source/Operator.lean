import TypedImp.Error

/-!
# Binary operators

An operator connects truth values, relates two values or calculates. It is read from exactly the
symbol that it is written with.
-/

namespace TypedImp

/-- Operators on truth values. The right operand counts only if the left one leaves the answer
open. -/
inductive Connective where
  | and
  | or
  deriving DecidableEq, Inhabited, Repr

inductive Relation where
  | less
  | lessEqual
  | greater
  | greaterEqual
  | equal
  | notEqual
  deriving DecidableEq, Inhabited, Repr

/-- Operators on numbers. `add` also joins texts. -/
inductive Arithmetic where
  | add
  | subtract
  | multiply
  | divide
  deriving DecidableEq, Inhabited, Repr

inductive Operator where
  | connective (operator : Connective)
  | relation (operator : Relation)
  | arithmetic (operator : Arithmetic)
  deriving DecidableEq, Inhabited, Repr

namespace Connective

def symbol : Connective → String
  | and => "AND"
  | or => "OR"

end Connective

namespace Relation

def symbol : Relation → String
  | less => "<"
  | lessEqual => "<="
  | greater => ">"
  | greaterEqual => ">="
  | equal => "=="
  | notEqual => "!="

end Relation

namespace Arithmetic

def symbol : Arithmetic → String
  | add => "+"
  | subtract => "-"
  | multiply => "*"
  | divide => "/"

end Arithmetic

namespace Operator

def symbol : Operator → String
  | connective operator => operator.symbol
  | relation operator => operator.symbol
  | arithmetic operator => operator.symbol

def all : List Operator :=
  [Connective.and, .or].map connective ++
  [Relation.less, .lessEqual, .greater, .greaterEqual, .equal, .notEqual].map relation ++
  [Arithmetic.add, .subtract, .multiply, .divide].map arithmetic

def ofSymbol (symbol : String) : Except Error Operator :=
  match all.find? (·.symbol = symbol) with
  | some operator => .ok operator
  | none => .error (.invalidExpression s!"unknown operator `{symbol}`")

def isLogical : Operator → Bool
  | connective _ => true
  | _ => false

def isRelational : Operator → Bool
  | relation _ => true
  | _ => false

end Operator

end TypedImp
