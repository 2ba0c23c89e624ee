import TypedImp.Source.Program
import TypedImp.Types.Basic

/-!
# Decorated programs

A decorated program has the shape of a written one. Every expression carries its type, and every
declaration, access and call the variable or function that it means.
-/

namespace TypedImp.Typed

inductive Expr where
  | literal (value : Literal) (type : TypeId)
  | group (inner : Expr) (type : TypeId)
  | binary (operator : Operator) (left right : Expr) (type : TypeId)
  | var (target : Variable) (type : TypeId)
  | field (receiver : Expr) (target : Variable) (type : TypeId)
  | call (function : Function) (arguments : List Expr) (type : TypeId)
  | method (receiver : Expr) (function : Function) (arguments : List Expr) (type : TypeId)
  deriving Inhabited

def Expr.type : Expr → TypeId
  | literal _ type | group _ type | binary _ _ _ type | var _ type | field _ _ type
  | call _ _ type | method _ _ _ type => type

inductive Stmt where
  | expression (expression : Expr)
  | declaration (target : Variable) (value : Option Expr)
  | assignment (target value : Expr)
  | conditional (condition : Expr) (thenBody elseBody : List Stmt)
  | each (target : Variable) (items : Expr) (body : List Stmt)
  | loop (condition : Expr) (body : List Stmt)
  | ret (value : Expr)
  deriving Inhabited

structure Field where
  target : Variable
  value : Option Expr

/-- A method, with the names of its parameters. -/
structure Method where
  function : Function
  parameters : List String
  body : List Stmt

structure Program where
  fields : List Field
  methods : List Method

end TypedImp.Typed
