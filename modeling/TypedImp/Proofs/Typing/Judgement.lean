import Mathlib.Data.List.Forall2
import Mathlib.Tactic.Common
import TypedImp.Proofs.Decimal.Range
import TypedImp.Source.Program
import TypedImp.Typed.Program
import TypedImp.Types.Registry

/-!
# The typing rules

What it means for a program to be well typed, and what it is decorated with. The rules speak of
the names that are known at a place and of nothing else: no scope is entered or left, and a
declaration is known to what is derived after it. The rules are the same whichever decimals may be
written as literals (`Rules`); well typed is what they derive from `Decimal.IsLiteral`.
-/

namespace TypedImp

/-- What is known at a place of a program: the variables of the scopes around it, innermost scope
first, the functions declared so far, and the result type of the method around it. -/
structure Environment where
  frames : List (Table String Variable)
  functions : Table (String × Nat) Function
  result : Option TypeId

namespace Environment

def findVariable? (env : Environment) (name : String) : Option Variable :=
  env.frames.findSome? (·.get? name)

def findFunction? (env : Environment) (name : String) (arity : Nat) : Option Function :=
  env.functions.get? (name, arity)

def Fresh (env : Environment) (name : String) : Prop :=
  ∀ frame ∈ env.frames.head?, frame.get? name = none

def declare (env : Environment) (v : Variable) : Environment :=
  { env with frames := env.frames.modifyHead (·.insert v.name v) }

def declareAll (env : Environment) (vs : List Variable) : Environment :=
  vs.foldl declare env

def declareFunction (env : Environment) (f : Function) : Environment :=
  { env with functions := env.functions.insert (f.name, f.arity) f }

def nest (env : Environment) : Environment :=
  { env with frames := [] :: env.frames }

/-- The environment of a method's body: the method itself is known, and its parameters share a
scope with the body. -/
def ofMethod (env : Environment) (f : Function) (parameters : List String) : Environment :=
  { (env.declareFunction f).nest.declareAll (List.zipWith .plain parameters f.parameters) with
    result := some f.result }

theorem fresh_nest (env : Environment) (name : String) : env.nest.Fresh name := by
  rintro frame ⟨⟩
  rfl

theorem fresh_declare {env : Environment} (h : env.frames ≠ []) {v : Variable} {name : String} :
    (env.declare v).Fresh name ↔ v.name ≠ name ∧ env.Fresh name := by
  obtain ⟨frame, rest, hframes⟩ := List.exists_cons_of_ne_nil h
  simp only [Fresh, declare, hframes, List.modifyHead_cons, List.head?_cons, Option.mem_def,
    Option.some.injEq, forall_eq', Table.get?_insert]
  split_ifs with hn
  · simp [hn]
  · simp [Ne.symm hn]

end Environment

/-- Functions are known by their own names and numbers of parameters. -/
def Keyed (functions : Table (String × Nat) Function) : Prop :=
  ∀ key f, functions.get? key = some f → key = (f.name, f.arity)

theorem Keyed.declareFunction {env : Environment} (h : Keyed env.functions) (f : Function) :
    Keyed (env.declareFunction f).functions := by
  intro key g hg
  rw [Environment.declareFunction, Table.get?_insert] at hg
  split_ifs at hg with hkey
  · cases hg
    exact hkey
  · exact h key g hg

/-- The variable that a statement adds to the scope that it stands in. -/
def Typed.Stmt.declared : Typed.Stmt → Option Variable
  | declaration target _ => some target
  | _ => none

def Environment.after (env : Environment) (s : Typed.Stmt) : Environment :=
  env.declareAll s.declared.toList

/-! ## Types -/

/-- Where the second type may stand in place of the first. -/
inductive Assignable : TypeId → TypeId → Prop
  | same (t : TypeId) : Assignable t t
  | any (t : TypeId) : Assignable .any t
  | comparable {t : TypeId} (h : t ∈ [.integer, .decimal, .character, .string]) :
      Assignable .comparable t

inductive OperatorTyped : Operator → TypeId → TypeId → TypeId → Prop
  | connective (operator : Connective) :
      OperatorTyped (.connective operator) .boolean .boolean .boolean
  | relation (operator : Relation) {t : TypeId} (h : Assignable .comparable t) :
      OperatorTyped (.relation operator) t t .boolean
  | join {left right : TypeId} (h : left = .string ∨ right = .string) :
      OperatorTyped (.arithmetic .add) left right .string
  | arithmetic (operator : Arithmetic) {t : TypeId} (h : t = .integer ∨ t = .decimal) :
      OperatorTyped (.arithmetic operator) t t t

def ArgumentsFit (parameters : List TypeId) (arguments : List Typed.Expr) : Prop :=
  ∀ i : Nat, ∀ parameter ∈ parameters[i]?, ∀ argument ∈ arguments[i]?,
    Assignable parameter argument.type

inductive IsCall : Source.Expr → Prop
  | call (name : String) (arguments : List Source.Expr) : IsCall (.call name arguments)
  | method (receiver : Source.Expr) (name : String) (arguments : List Source.Expr) :
      IsCall (.method receiver name arguments)

inductive IsAccess : Source.Expr → Prop
  | var (name : String) : IsAccess (.var name)
  | field (receiver : Source.Expr) (name : String) : IsAccess (.field receiver name)

/-- The result type of a method; a method that names none gives nil. -/
inductive ResultNamed (r : Registry) : Option String → TypeId → Prop
  | none : ResultNamed r none .nil
  | some {name : String} {type : TypeId} (h : r.typeNamed? name = some type) :
      ResultNamed r (some name) type

/-- A program can be started: it has a method `main` without parameters that gives a whole
number. -/
def Startable (r : Registry) (p : Source.Program) : Prop :=
  ∃ m ∈ p.methods, m.name = "main" ∧ m.parameters = [] ∧
    ∃ name, m.result = some name ∧ r.typeNamed? name = some .integer

/-! ## The rules -/

namespace Rules

-- the decimals that may be written as literals
variable (decimals : Decimal → Prop)

/-- The types of literals. Whole numbers have 32 bits. -/
inductive LiteralTyped : Literal → TypeId → Prop
  | nil : LiteralTyped .nil .nil
  | boolean (b : Bool) : LiteralTyped (.boolean b) .boolean
  | integer {n : Int} (h : -2147483648 ≤ n ∧ n ≤ 2147483647) : LiteralTyped (.integer n) .integer
  | decimal {d : Decimal} (h : decimals d) : LiteralTyped (.decimal d) .decimal
  | character (c : Char) : LiteralTyped (.character c) .character
  | string (s : String) : LiteralTyped (.string s) .string

mutual

/-- An expression is well typed and decorated as given. The arity of a function counts its
arguments, that of a method its receiver too, so that every argument has its parameter. -/
inductive ExprTyped (r : Registry) (env : Environment) : Source.Expr → Typed.Expr → Prop
  | literal {value : Literal} {type : TypeId} (h : LiteralTyped decimals value type) :
      ExprTyped r env (.literal value) (.literal value type)
  | group {operator : Operator} {left right : Source.Expr} {inner : Typed.Expr}
      (h : ExprTyped r env (.binary operator left right) inner) :
      ExprTyped r env (.group (.binary operator left right)) (.group inner inner.type)
  | binary {operator : Operator} {left right : Source.Expr} {left' right' : Typed.Expr}
      {type : TypeId} (hl : ExprTyped r env left left') (hr : ExprTyped r env right right')
      (h : OperatorTyped operator left'.type right'.type type) :
      ExprTyped r env (.binary operator left right) (.binary operator left' right' type)
  | var {name : String} {target : Variable} (h : env.findVariable? name = some target) :
      ExprTyped r env (.var name) (.var target target.type)
  | field {receiver : Source.Expr} {receiver' : Typed.Expr} {name : String} {target : FieldMember}
      (hr : ExprTyped r env receiver receiver')
      (h : r.field receiver'.type name = .ok target) :
      ExprTyped r env (.field receiver name) (.field receiver' target.toVariable target.type)
  | call {name : String} {arguments : List Source.Expr} {arguments' : List Typed.Expr}
      {function : Function} (hs : ExprsTyped r env arguments arguments')
      (h : env.findFunction? name arguments'.length = some function)
      (harity : function.arity = arguments'.length)
      (hfit : ArgumentsFit function.parameters arguments') :
      ExprTyped r env (.call name arguments) (.call function arguments' function.result)
  | method {receiver : Source.Expr} {receiver' : Typed.Expr} {name : String}
      {arguments : List Source.Expr} {arguments' : List Typed.Expr} {method : MethodMember}
      (hr : ExprTyped r env receiver receiver') (hs : ExprsTyped r env arguments arguments')
      (h : r.method receiver'.type name arguments'.length = .ok method)
      (harity : method.arity = Function.withReceiver arguments'.length)
      (hfit : ArgumentsFit (method.parameters.drop 1) arguments') :
      ExprTyped r env (.method receiver name arguments)
        (.method receiver' method.toFunction arguments' method.result)

inductive ExprsTyped (r : Registry) (env : Environment) :
    List Source.Expr → List Typed.Expr → Prop
  | nil : ExprsTyped r env [] []
  | cons {e : Source.Expr} {t : Typed.Expr} {es : List Source.Expr} {ts : List Typed.Expr}
      (h : ExprTyped r env e t) (hs : ExprsTyped r env es ts) :
      ExprsTyped r env (e :: es) (t :: ts)

end

/-- The variable of a declaration, with its value if it has one. -/
inductive DeclarationTyped (r : Registry) (env : Environment) (name : String) :
    Option String → Option Source.Expr → Variable → Option Typed.Expr → Prop
  | typed {typeName : String} {type : TypeId} (hn : r.typeNamed? typeName = some type)
      (fresh : env.Fresh name) :
      DeclarationTyped r env name (some typeName) none (.plain name type) none
  | valued {value : Source.Expr} {value' : Typed.Expr} (hv : ExprTyped decimals r env value value')
      (fresh : env.Fresh name) :
      DeclarationTyped r env name none (some value) (.plain name value'.type) (some value')
  | both {typeName : String} {type : TypeId} {value : Source.Expr} {value' : Typed.Expr}
      (hn : r.typeNamed? typeName = some type) (hv : ExprTyped decimals r env value value')
      (h : Assignable type value'.type) (fresh : env.Fresh name) :
      DeclarationTyped r env name (some typeName) (some value) (.plain name type) (some value')

mutual

inductive StmtTyped (r : Registry) : Environment → Source.Stmt → Typed.Stmt → Prop
  | expression {env : Environment} {e : Source.Expr} {e' : Typed.Expr} (call : IsCall e)
      (h : ExprTyped decimals r env e e') : StmtTyped r env (.expression e) (.expression e')
  | declaration {env : Environment} {name : String} {type : Option String}
      {value : Option Source.Expr} {target : Variable} {value' : Option Typed.Expr}
      (h : DeclarationTyped decimals r env name type value target value') :
      StmtTyped r env (.declaration name type value) (.declaration target value')
  | assignment {env : Environment} {target value : Source.Expr} {target' value' : Typed.Expr}
      (access : IsAccess target) (ht : ExprTyped decimals r env target target')
      (hv : ExprTyped decimals r env value value') (h : Assignable target'.type value'.type) :
      StmtTyped r env (.assignment target value) (.assignment target' value')
  | conditional {env : Environment} {condition : Source.Expr} {condition' : Typed.Expr}
      {thenBody elseBody : List Source.Stmt} {thenBody' elseBody' : List Typed.Stmt}
      (hc : ExprTyped decimals r env condition condition') (h : Assignable .boolean condition'.type)
      (nonempty : thenBody ≠ []) (ht : BlockTyped r env.nest thenBody thenBody')
      (he : BlockTyped r env.nest elseBody elseBody') :
      StmtTyped r env (.conditional condition thenBody elseBody)
        (.conditional condition' thenBody' elseBody')
  | each {env : Environment} {name : String} {items : Source.Expr} {items' : Typed.Expr}
      {body : List Source.Stmt} {body' : List Typed.Stmt}
      (hi : ExprTyped decimals r env items items')
      (h : Assignable .integerIterable items'.type) (nonempty : body ≠ [])
      (hb : BlockTyped r (env.nest.declare (.plain name .integer)) body body') :
      StmtTyped r env (.each name items body) (.each (.plain name .integer) items' body')
  | loop {env : Environment} {condition : Source.Expr} {condition' : Typed.Expr}
      {body : List Source.Stmt} {body' : List Typed.Stmt}
      (hc : ExprTyped decimals r env condition condition') (h : Assignable .boolean condition'.type)
      (hb : BlockTyped r env.nest body body') :
      StmtTyped r env (.loop condition body) (.loop condition' body')
  | ret {env : Environment} {value : Source.Expr} {value' : Typed.Expr}
      (hv : ExprTyped decimals r env value value') (h : env.result = some value'.type) :
      StmtTyped r env (.ret value) (.ret value')

/-- Statements are well typed in order, each knowing what those before it declare. -/
inductive BlockTyped (r : Registry) : Environment → List Source.Stmt → List Typed.Stmt → Prop
  | nil {env : Environment} : BlockTyped r env [] []
  | cons {env : Environment} {s : Source.Stmt} {t : Typed.Stmt} {ss : List Source.Stmt}
      {ts : List Typed.Stmt} (h : StmtTyped r env s t) (hs : BlockTyped r (env.after t) ss ts) :
      BlockTyped r env (s :: ss) (t :: ts)

end

inductive MethodTyped (r : Registry) (env : Environment) : Source.Method → Typed.Method → Prop
  | mk {method : Source.Method} {types : List TypeId} {result : TypeId} {body : List Typed.Stmt}
      (counts : method.parameters.length = method.types.length)
      (named : List.Forall₂ (fun name type => r.typeNamed? name = some type) method.types types)
      (hr : ResultNamed r method.result result)
      (fresh : env.findFunction? method.name types.length = none)
      (distinct : method.parameters.Nodup)
      (hb : BlockTyped decimals r (env.ofMethod (.plain method.name types result) method.parameters)
        method.body body) :
      MethodTyped r env method ⟨.plain method.name types result, method.parameters, body⟩

/-- Fields are well typed in order, each knowing those before it. -/
inductive FieldsTyped (r : Registry) : Environment → List Source.Field → List Typed.Field → Prop
  | nil {env : Environment} : FieldsTyped r env [] []
  | cons {env : Environment} {f : Source.Field} {f' : Typed.Field} {fs : List Source.Field}
      {fs' : List Typed.Field}
      (h : DeclarationTyped decimals r env f.name f.type f.value f'.target f'.value)
      (hs : FieldsTyped r (env.declare f'.target) fs fs') :
      FieldsTyped r env (f :: fs) (f' :: fs')

/-- Methods are well typed in order, each knowing itself and those before it. -/
inductive MethodsTyped (r : Registry) :
    Environment → List Source.Method → List Typed.Method → Prop
  | nil {env : Environment} : MethodsTyped r env [] []
  | cons {env : Environment} {m : Source.Method} {m' : Typed.Method} {ms : List Source.Method}
      {ms' : List Typed.Method} (h : MethodTyped decimals r env m m')
      (hs : MethodsTyped r (env.declareFunction m'.function) ms ms') :
      MethodsTyped r env (m :: ms) (m' :: ms')

inductive ProgramTyped (r : Registry) (env : Environment) : Source.Program → Typed.Program → Prop
  | mk {p : Source.Program} {fields : List Typed.Field} {methods : List Typed.Method}
      (start : Startable r p) (hf : FieldsTyped decimals r env p.fields fields)
      (hm : MethodsTyped decimals r (env.declareAll (fields.map (·.target))) p.methods methods) :
      ProgramTyped r env p ⟨fields, methods⟩

end Rules

/-! ## What is well typed -/

abbrev LiteralTyped := Rules.LiteralTyped Decimal.IsLiteral

abbrev ExprTyped := Rules.ExprTyped Decimal.IsLiteral

abbrev ExprsTyped := Rules.ExprsTyped Decimal.IsLiteral

abbrev DeclarationTyped := Rules.DeclarationTyped Decimal.IsLiteral

abbrev StmtTyped := Rules.StmtTyped Decimal.IsLiteral

abbrev BlockTyped := Rules.BlockTyped Decimal.IsLiteral

abbrev MethodTyped := Rules.MethodTyped Decimal.IsLiteral

abbrev FieldsTyped := Rules.FieldsTyped Decimal.IsLiteral

abbrev MethodsTyped := Rules.MethodsTyped Decimal.IsLiteral

abbrev ProgramTyped := Rules.ProgramTyped Decimal.IsLiteral

theorem arity_of_methodTyped {r : Registry} {env : Environment} {source : Source.Method}
    {method : Typed.Method} (h : MethodTyped r env source method) :
    method.parameters.length = method.function.arity := by
  cases h with
  | mk counts named _ _ _ _ => exact counts.trans named.length_eq

theorem fresh_of_methodTyped {r : Registry} {env : Environment} {source : Source.Method}
    {method : Typed.Method} (h : MethodTyped r env source method) :
    env.functions.get? (method.function.name, method.function.arity) = none := by
  cases h with
  | mk _ _ _ fresh _ _ => exact fresh

end TypedImp
