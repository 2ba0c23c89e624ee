import TypedImp.Machine.Execute

/-!
# Running programs

A budget bounds how deep calls of the program's methods may nest and how often a loop may go
round. A run that ends within a budget ends in the same way within any larger one. The body of a
method runs in a scope inside the one that the method was defined in, and sees nothing of its
caller.
-/

namespace TypedImp

structure Budget where
  /-- How deep calls of the program's methods may nest. -/
  depth : Nat
  /-- How often each loop may test its condition. -/
  rounds : Nat

namespace Exec

def defineParameters : List String → List Value → Exec Unit
  | name :: names, value :: values => do
    defineVariable name value
    defineParameters names values
  | _, _ => pure ()

end Exec

/-- Runs a method of the program, with calls nested `depth` deep at most. A method that does not
return a value gives nil. -/
def callMethod (r : Registry) (rounds : Nat) :
    (depth : Nat) → Typed.Method → ScopeId → List Value → Exec Value
  | 0, _, _, _ => Exec.exhausted
  | depth + 1, method, closure, arguments => do
    if method.parameters.length ≠ arguments.length then
      throw (.arityMismatch method.function.name [method.parameters.length] arguments.length)
    Exec.inScope closure do
      Exec.defineParameters method.parameters arguments
      let x : Context := ⟨r, callMethod r rounds depth, rounds⟩
      match ← x.executeBlock method.body with
      | .returned value => return value
      | .normal => return .nil

/-- What a run within a budget takes for given. -/
def Context.within (r : Registry) (budget : Budget) : Context :=
  ⟨r, callMethod r budget.rounds budget.depth, budget.rounds⟩

def evaluate (r : Registry) (budget : Budget) (e : Typed.Expr) : Exec Value :=
  (Context.within r budget).evaluate e

def execute (r : Registry) (budget : Budget) (s : Typed.Stmt) : Exec Flow :=
  (Context.within r budget).execute s

namespace Context

def defineFields (x : Context) : List Typed.Field → Exec Unit
  | [] => pure ()
  | field :: fields => do
    let value ← x.initialValue field.value
    set (← (← get).defineVariable field.target.name value)
    x.defineFields fields

/-- Defines the methods of a program in the outermost scope, by the number of their parameter
names. -/
def defineMethods : List Typed.Method → Exec Unit
  | [] => pure ()
  | method :: methods => do
    set (← (← get).defineFunction method.function.name method.parameters.length
      (.method method Machine.root))
    defineMethods methods

/-- Defines the fields and methods of a program and calls `main`. -/
def run (x : Context) (program : Typed.Program) : Exec Value := do
  x.defineFields program.fields
  defineMethods program.methods
  let main ← (← get).scopes.lookupFunction Machine.root "main" 0
  x.invoke main []

end Context

def run (r : Registry) (budget : Budget) (program : Typed.Program) : Exec Value :=
  (Context.within r budget).run program

end TypedImp
