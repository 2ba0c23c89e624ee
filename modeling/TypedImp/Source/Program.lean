import TypedImp.Decimal.Basic
import TypedImp.Source.Operator

/-!
# Programs as they are written

A program is a list of fields and a list of methods. Types are named, or left out where the value
tells them.
-/

namespace TypedImp

inductive Literal where
  | nil
  | boolean (value : Bool)
  | integer (value : Int)
  | decimal (value : Decimal)
  | character (value : Char)
  | string (value : String)
  deriving DecidableEq, Inhabited, Repr

namespace Source

inductive Expr where
  | literal (value : Literal)
  | group (inner : Expr)
  | binary (operator : Operator) (left right : Expr)
  | var (name : String)
  | field (receiver : Expr) (name : String)
  | call (name : String) (arguments : List Expr)
  | method (receiver : Expr) (name : String) (arguments : List Expr)
  deriving Inhabited

inductive Stmt where
  | expression (expression : Expr)
  | declaration (name : String) (type : Option String) (value : Option Expr)
  | assignment (target value : Expr)
  | conditional (condition : Expr) (thenBody elseBody : List Stmt)
  | each (name : String) (items : Expr) (body : List Stmt)
  | loop (condition : Expr) (body : List Stmt)
  | ret (value : Expr)
  deriving Inhabited

structure Field where
  name : String
  type : Option String
  value : Option Expr

/-- A method, with the names of its parameters and those of their types. -/
structure Method where
  name : String
  parameters : List String
  types : List String
  result : Option String
  body : List Stmt

structure Program where
  fields : List Field
  methods : List Method

end Source

end TypedImp
