import TypedImp.Machine.Evaluate

/-!
# Executing statements

Statements run in order until one returns. Bodies run in scopes of their own, a loop's in a new
one every time round.
-/

namespace TypedImp

inductive Flow where
  | normal
  | returned (value : Value)

namespace Exec

/-- Runs a step for every item until one of the steps returns. -/
def forEach (step : Value → Exec Flow) : List Value → Exec Flow
  | [] => return .normal
  | item :: items => do
    match ← step item with
    | .normal => forEach step items
    | .returned value => return .returned value

/-- Runs the body as long as the condition holds and the body does not return. Without an end
after `rounds` tests of the condition, the budget is used up. -/
def repeatWhile (condition : Exec Bool) (body : Exec Flow) : (rounds : Nat) → Exec Flow
  | 0 => exhausted
  | rounds + 1 => do
    if ← condition then
      match ← body with
      | .normal => repeatWhile condition body rounds
      | .returned value => return .returned value
    else
      return .normal

end Exec

namespace Context

def initialValue (x : Context) : Option Typed.Expr → Exec Value
  | some value => x.evaluate value
  | none => return .nil

def condition (x : Context) (e : Typed.Expr) : Exec Bool := do
  (← x.evaluate e).datum.toBool

/-- Assigns to a variable, or to a field that an object has of its own. The object is evaluated
before the value. -/
def assign (x : Context) (value : Typed.Expr) : Typed.Expr → Exec Unit
  | .var target _ => do
    let value ← x.evaluate value
    Exec.setVariable (← get).current target.name value
  | .field receiver target _ => do
    let object ← x.evaluate receiver
    let value ← x.evaluate value
    let members ← Machine.memberScope object target.name
    Exec.setVariable members target.name value
  | _ => throw (.invalidStatement "only variables and fields may be assigned")

mutual

def execute (x : Context) : Typed.Stmt → Exec Flow
  | .expression e => do
    let _ ← x.evaluate e
    return .normal
  | .declaration target value => do
    Exec.defineVariable target.name (← x.initialValue value)
    return .normal
  | .assignment target value => do
    x.assign value target
    return .normal
  | .conditional condition thenBody elseBody => do
    if ← x.condition condition then Exec.inBlock (x.executeBlock thenBody)
    else Exec.inBlock (x.executeBlock elseBody)
  | .each target items body => do
    match (← x.evaluate items).datum with
    | .sequence items =>
      Exec.forEach (fun item => Exec.inBlock do
        Exec.defineVariable target.name item
        x.executeBlock body) items
    | other => throw (.typeMismatch "sequence" other.className)
  | .loop condition body =>
    Exec.repeatWhile (x.condition condition) (Exec.inBlock (x.executeBlock body)) x.rounds
  | .ret value => do
    return .returned (← x.evaluate value)

def executeBlock (x : Context) : List Typed.Stmt → Exec Flow
  | [] => return .normal
  | s :: ss => do
    match ← x.execute s with
    | .normal => x.executeBlock ss
    | .returned value => return .returned value

end

end Context

end TypedImp
