import TypedImp.Typed.Program
import TypedImp.Types.Registry

/-!
# The machine

A machine holds the scopes of a running program, the scope that execution is in and what has been
printed. A step of a run fails or succeeds and changes the machine either way, or does not end
within its budget. Scopes that a step enters are left again whatever its outcome, so the only
scopes that stay are those of objects.
-/

namespace TypedImp

/-- What can be called: a body, `print`, or a method of the program with the scope around it. -/
inductive Callable where
  | body (body : Body)
  | print
  | method (method : Typed.Method) (closure : ScopeId)

/-- Where printed lines go. A sink may refuse a line and says why; it may decide by what it took
before. -/
structure Sink where
  refuse : (taken line : String) → Option String

namespace Sink

def unlimited : Sink :=
  ⟨fun _ _ => none⟩

def closed (reason : String) : Sink :=
  ⟨fun _ _ => some reason⟩

end Sink

structure Machine where
  scopes : Arena Value Callable
  current : ScopeId
  sink : Sink
  output : String

/-- A step of a run. -/
abbrev Exec := ExceptT Error (StateT Machine Option)

namespace Machine

def root : ScopeId :=
  ⟨0⟩

def initial : Machine where
  scopes := (Arena.empty.enter none).bindFunction root "print" 1 .print
  current := root
  sink := .unlimited
  output := ""

def redirect (m : Machine) (sink : Sink) : Machine :=
  { m with scopes := m.scopes.bindFunction root "print" 1 .print, sink, output := "" }

def defineVariable (m : Machine) (name : String) (value : Value) : Except Error Machine := do
  return { m with scopes := ← m.scopes.defineVariable root name value }

def defineFunction (m : Machine) (name : String) (arity : Nat) (callable : Callable) :
    Except Error Machine := do
  return { m with scopes := ← m.scopes.defineFunction root name arity callable }

def lookupVariable (m : Machine) (name : String) : Except Error Value :=
  m.scopes.lookupVariable m.current name

def lookupFunction (m : Machine) (name : String) (arity : Nat) : Except Error Callable :=
  m.scopes.lookupFunction m.current name arity

/-- Makes an object without members. Objects are to be made while no program runs. -/
def createObject (m : Machine) (type : TypeId) (datum : Datum) : Value × Machine :=
  (.object type datum m.scopes.next, { m with scopes := m.scopes.enter none })

/-- The scope of an object's members; a value without members has no field of this name. -/
def memberScope (object : Value) (name : String) : Except Error ScopeId :=
  match object.members with
  | some members => .ok members
  | none => .error (.unknownVariable name)

def defineMemberVariable (m : Machine) (object : Value) (name : String) (value : Value) :
    Except Error Machine := do
  let members ← memberScope object name
  return { m with scopes := ← m.scopes.defineVariable members name value }

/-- Gives an object a method with a number of explicit arguments. -/
def defineMemberFunction (m : Machine) (object : Value) (name : String) (arity : Nat)
    (body : Body) : Except Error Machine := do
  let members ← memberScope object name
  let scopes ←
    m.scopes.defineFunction members name (Function.withReceiver arity) (.body body)
  return { m with scopes }

/-- The field of a receiver: one of its own, or one that its type computes. -/
def readField (m : Machine) (r : Registry) (receiver : Value) (name : String) :
    Except Error Value :=
  match receiver.members.map (m.scopes.lookupVariable · name) with
  | some (.ok value) => .ok value
  | _ => do
    match (← r.field receiver.type name).getter with
    | some getter => getter [receiver]
    | none => .error (.unknownVariable name)

/-- The method of a receiver: one of its own, or one of its type that has a body. -/
def resolveMethod (m : Machine) (r : Registry) (receiver : Value) (name : String)
    (arity : Nat) : Except Error Callable :=
  match receiver.members.map (m.scopes.lookupFunction · name (Function.withReceiver arity)) with
  | some (.ok callable) => .ok callable
  | _ => do
    match (← r.method receiver.type name arity).body with
    | some body => .ok (.body body)
    | none => .error (.unknownFunction name arity)

end Machine

namespace Exec

variable {α : Type}

def exhausted : Exec α :=
  ExceptT.mk fun _ => none

def defineVariable (name : String) (value : Value) : Exec Unit := do
  let m ← get
  set { m with scopes := ← m.scopes.defineVariable m.current name value }

/-- Replaces the value of the variable that a name means from a scope. -/
def setVariable (s : ScopeId) (name : String) (value : Value) : Exec Unit := do
  let m ← get
  let (_, scopes) ← m.scopes.setVariable s name value
  set { m with scopes }

/-- Runs `body` in a new scope inside `parent`. Whatever the outcome, that scope is left and
execution is back where it was. -/
def inScope (parent : ScopeId) (body : Exec α) : Exec α :=
  ExceptT.mk fun m => do
    let inner := m.scopes.next
    let (outcome, m') ←
      body.run { m with scopes := m.scopes.enter (some parent), current := inner }
    return (outcome, { m' with scopes := m'.scopes.exit inner, current := m.current })

def inBlock (body : Exec α) : Exec α := do
  inScope (← get).current body

def print : List Value → Exec Value
  | [] => throw (.arityMismatch "print" [1] 0)
  | value :: _ => do
    let m ← get
    let line := value.toText ++ "\n"
    match m.sink.refuse m.output line with
    | some reason => throw (.outputFailed reason)
    | none =>
      set { m with output := m.output ++ line }
      return .nil

end Exec

end TypedImp
