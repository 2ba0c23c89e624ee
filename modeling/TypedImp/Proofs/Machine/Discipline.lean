import TypedImp.Proofs.Machine.Place
import TypedImp.Proofs.Machine.Safe
import TypedImp.Proofs.Types.Members
import TypedImp.Proofs.Typing.Dialect
import TypedImp.Proofs.Typing.Judgement

/-!
# Disciplines

A discipline says what values a type allows for and which errors may stop a run, for the programs
of one dialect. What it asks for is about the single operations of a machine. It then holds of
whole expressions, wherever a machine stands (`safe_evaluate`).
-/

namespace TypedImp

namespace Arithmetic

variable {fails : Error → Prop} (operator : Arithmetic) (h : fails .divisionByZero)
include h

theorem meets_onIntegers (a b : Int) : Meets fails (fun _ => True) (operator.onIntegers a b) := by
  cases operator with
  | divide =>
    rw [Arithmetic.onIntegers]
    split_ifs
    · exact h
    · trivial
  | _ => trivial

theorem meets_onDecimals (a b : Decimal) :
    Meets fails (fun _ => True) (operator.onDecimals a b) := by
  cases operator with
  | divide =>
    rw [Arithmetic.onDecimals, Decimal.divide]
    split_ifs
    · exact h
    · trivial
  | _ => trivial

end Arithmetic

/-- The arguments can stand in the place of the parameters, as far as both go. -/
def ValuesFit (holds : TypeId → Value → Prop) (parameters : List TypeId) (values : List Value) :
    Prop :=
  ∀ i : Nat, ∀ parameter ∈ parameters[i]?, ∀ value ∈ values[i]?,
    ∃ type, Assignable parameter type ∧ holds type value

/-- The meaning of types and the errors to allow for, with what each operation has to keep. -/
structure Discipline (r : Registry) where
  dialect : Dialect
  /-- The values that a type allows for. -/
  holds : TypeId → Value → Prop
  /-- The types that variables may be declared with. -/
  admits : TypeId → Prop
  /-- The errors that may stop a run. -/
  fails : Error → Prop
  admits_any : admits .any
  admits_of_holds {type : TypeId} {v : Value} (h : holds type v) : admits type
  admits_of_name {name : String} {type : TypeId} (hd : dialect.names name)
    (h : r.typeNamed? name = some type) : admits type
  holds_of_assignable {target source : TypeId} {v : Value} (h : Assignable target source)
    (ha : admits target) (hv : holds source v) : holds target v
  holds_literal {value : Literal} {type : TypeId} (h : LiteralTyped value type) :
    holds type (.of value.datum)
  holds_boolean (b : Bool) : holds .boolean (.boolean b)
  holds_nil : holds .nil .nil
  holds_omitted {type : TypeId} (hd : dialect.omits) (ha : admits type) : holds type .nil
  truth {v : Value} (hv : holds .boolean v) : Meets fails (fun _ => True) v.datum.toBool
  relate {type : TypeId} {v w : Value} (operator : Relation) (h : Assignable .comparable type)
    (hv : holds type v) (hw : holds type w) :
    Meets fails (fun _ => True) (operator.apply v.datum w.datum)
  calculate {left right type : TypeId} {v w : Value} {operator : Arithmetic}
    (h : OperatorTyped (.arithmetic operator) left right type) (hv : holds left v)
    (hw : holds right w) :
    Meets fails (fun d => holds type (.of d)) (operator.apply v.datum w.datum)
  items {v : Value} {items : List Value} (hv : holds .integerIterable v)
    (h : v.datum = .sequence items) : ∀ item ∈ items, holds .integer item
  notItems {v : Value} (hv : holds .integerIterable v) (h : ∀ items, v.datum ≠ .sequence items) :
    fails (.typeMismatch "sequence" v.datum.className)
  output (reason : String) : fails (.outputFailed reason)
  members {type : TypeId} {v : Value} (hv : holds type v) : v.members = none
  field {type : TypeId} {name : String} {field : FieldMember} {v : Value} (hd : dialect.receivers)
    (h : r.field type name = .ok field) (hv : holds type v) :
    Meets fails (fun found => Meets fails (holds field.type) (found.answer field.name v))
      (r.field v.type field.name)
  method {type : TypeId} {name : String} {method : MethodMember} {v : Value} {values : List Value}
    (hd : dialect.receivers) (h : r.method type name values.length = .ok method)
    (harity : method.arity = Function.withReceiver values.length) (hv : holds type v)
    (hvalues : ValuesFit holds (method.parameters.drop 1) values) :
    Meets fails (fun found => Meets fails (holds method.result) (found.answer method.name v values))
      (r.method v.type method.name values.length)
  memberTarget (name : String) (hd : dialect.memberTargets) : fails (.unknownVariable name)

namespace Discipline

open Exec

variable {r : Registry} (D : Discipline r) {x : Context} {serves : Function → Callable → Prop}
  {top : Scope Variable Callable} {plan : Plan} {s : ScopeId} {env : Environment} {m : Machine}

/-- The machine fits the plan and is in this scope, with this outermost scope around it. -/
structure Stands (top : Scope Variable Callable) (plan : Plan) (s : ScopeId) (m : Machine) :
    Prop extends m.Stands D.holds plan s where
  rooted : plan.get? Machine.root = some top

/-- What serves a function can be called with arguments that its parameters allow for, wherever
the machine stands, and gives a value that its result type allows for. -/
structure Serving (x : Context) (top : Scope Variable Callable)
    (serves : Function → Callable → Prop) : Prop where
  admits {f : Function} {callable : Callable} (h : serves f callable) :
    ∀ type ∈ f.parameters, D.admits type
  safe {f : Function} {callable : Callable} (h : serves f callable) {values : List Value}
    (hvalues : List.Forall₂ D.holds f.parameters values) {plan : Plan} {s : ScopeId} {m : Machine}
    (hm : D.Stands top plan s m) :
    Safe D.fails (x.invoke callable values) m fun v m' =>
      D.holds f.result v ∧ D.Stands top plan s m'

def HoldAll (ts : List Typed.Expr) (values : List Value) : Prop :=
  List.Forall₂ (fun t v => D.holds t.type v) ts values

theorem valuesFit : ∀ {parameters : List TypeId} {ts : List Typed.Expr} {values : List Value},
    ArgumentsFit parameters ts → D.HoldAll ts values → ValuesFit D.holds parameters values
  | [], _, _, _, _ => by
    intro i _ h
    simp at h
  | _ :: _, _, _, _, .nil => by
    intro i _ _ _ h
    simp at h
  | _ :: _, _ :: _, _ :: _, h, .cons hv hs => by
    rintro (_ | i)
    · rintro _ ⟨⟩ _ ⟨⟩
      exact ⟨_, h 0 _ rfl _ rfl, hv⟩
    · exact valuesFit (fun j => h (j + 1)) hs i

theorem holds_arguments : ∀ {parameters : List TypeId} {ts : List Typed.Expr}
    {values : List Value}, parameters.length = ts.length → ArgumentsFit parameters ts →
    (∀ type ∈ parameters, D.admits type) → D.HoldAll ts values →
    List.Forall₂ D.holds parameters values
  | [], [], _, _, _, _, .nil => .nil
  | _ :: _, _ :: _, _ :: _, hl, h, ha, .cons hv hs =>
    .cons (D.holds_of_assignable (h 0 _ rfl _ rfl) (ha _ (.head _)) hv)
      (holds_arguments (Nat.succ.inj hl) (fun j => h (j + 1)) (fun _ ht => ha _ (.tail _ ht)) hs)

end Discipline

end TypedImp
