import TypedImp.Typed.Program
import TypedImp.Types.Registry

/-!
# The state of a check

A check goes through a program once. It knows the scopes around the place it has reached and the
result type of the method it is in. A check that fails still leaves a state: scopes that it
entered are left, and what it defined before stays defined.
-/

namespace TypedImp

/-- What is known at the place that a check has reached. -/
structure Checker where
  scopes : Arena Variable Function
  current : ScopeId
  /-- The result type of the method around this place. -/
  result : Option TypeId

/-- A step of a check: fails or succeeds, and changes the state either way. -/
abbrev Check := ExceptT Error (StateM Checker)

namespace Checker

def root : ScopeId :=
  ⟨0⟩

/-- The function that every program can print with. -/
def print : Function :=
  ⟨"print", "System.out.println", [.any], .nil⟩

/-- Knows `print` and nothing else. -/
def initial : Checker where
  scopes := (Arena.empty.enter none).bindFunction root print.name print.arity print
  current := root
  result := none

def defineVariable (c : Checker) (v : Variable) : Except Error Checker := do
  return { c with scopes := ← c.scopes.defineVariable root v.name v }

def defineFunction (c : Checker) (f : Function) : Except Error Checker := do
  return { c with scopes := ← c.scopes.defineFunction root f.name f.arity f }

def lookupVariable (c : Checker) (name : String) : Except Error Variable :=
  c.scopes.lookupVariable c.current name

def lookupFunction (c : Checker) (name : String) (arity : Nat) : Except Error Function :=
  c.scopes.lookupFunction c.current name arity

end Checker

namespace Check

variable {α : Type}

def defineVariable (v : Variable) : Check Unit := do
  let c ← get
  set { c with scopes := ← c.scopes.defineVariable c.current v.name v }

def defineFunction (f : Function) : Check Unit := do
  let c ← get
  set { c with scopes := ← c.scopes.defineFunction c.current f.name f.arity f }

/-- Goes through `body` in a new scope inside the current one, and leaves that scope whatever the
outcome. -/
def inScope (body : Check α) : Check α :=
  ExceptT.mk fun c =>
    let inner := c.scopes.next
    let (outcome, c') :=
      body.run { c with scopes := c.scopes.enter (some c.current), current := inner }
    (outcome, { c' with scopes := c'.scopes.exit inner, current := c.current })

/-- Goes through `body` as the body of a method with this result type. -/
def inMethod (result : TypeId) (body : Check α) : Check α :=
  ExceptT.mk fun c =>
    let (outcome, c') := body.run { c with result := some result }
    (outcome, { c' with result := c.result })

end Check

end TypedImp
