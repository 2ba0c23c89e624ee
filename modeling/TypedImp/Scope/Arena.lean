import TypedImp.Error
import TypedImp.Scope.Table

/-!
# Scopes

The scopes of one scope tree lie in an arena in the order in which they were entered, and a scope
is named by its place. A name is looked up along the chain of parent links. Leaving a scope
discards it and all that were entered after it, so a name kept too long may come to mean a newer
scope or none. Parents may run in a circle then; a lookup that would go round in it for ever is
answered with an error (`Arena.notFound`).
-/

namespace TypedImp

/-- The place of a scope in its arena. -/
structure ScopeId where
  index : Nat
  deriving DecidableEq, Inhabited, Repr

/-- One frame of bindings. Functions are told apart by name and number of parameters. -/
structure Scope (V F : Type) where
  vars : Table String V
  funs : Table (String × Nat) F
  parent : Option ScopeId

structure Arena (V F : Type) where
  scopes : Array (Scope V F)

namespace Scope

variable {V F : Type}

def empty (parent : Option ScopeId) : Scope V F :=
  ⟨[], [], parent⟩

def bindVariable (scope : Scope V F) (name : String) (value : V) : Scope V F :=
  { scope with vars := scope.vars.insert name value }

/-- Binds a function, replacing the former binding of its name and arity. -/
def bindFunction (scope : Scope V F) (name : String) (arity : Nat) (function : F) : Scope V F :=
  { scope with funs := scope.funs.insert (name, arity) function }

def arities (scope : Scope V F) (name : String) : List Nat :=
  (scope.funs.keys.filter (·.1 = name)).map Prod.snd

end Scope

/-- Why a chain of parent links goes no further. -/
inductive ChainEnd where
  /-- The last scope has no parent. -/
  | root
  /-- The last scope's parent is not live, or the chain starts nowhere. -/
  | stale (scope : ScopeId)
  /-- The budget for following links is used up: they run in a circle. -/
  | cut
  deriving DecidableEq, Repr

/-- The scopes from one scope up to the outermost, innermost first. -/
structure Chain (V F : Type) where
  scopes : List (ScopeId × Scope V F)
  ending : ChainEnd

/-- The numbers of a list in increasing order, each once. -/
def increasing (ns : List Nat) : List Nat :=
  ns.foldr insertOnce []
where
  /-- Puts a number into its place in an increasing list, unless it is there. -/
  insertOnce (n : Nat) : List Nat → List Nat
    | [] => [n]
    | m :: ms =>
      if n < m then n :: m :: ms
      else if n = m then m :: ms
      else m :: insertOnce n ms

namespace Arena

variable {V F : Type}

def empty : Arena V F :=
  ⟨#[]⟩

def size (a : Arena V F) : Nat :=
  a.scopes.size

def get? (a : Arena V F) (s : ScopeId) : Option (Scope V F) :=
  a.scopes[s.index]?

def parent? (a : Arena V F) (s : ScopeId) : Option ScopeId :=
  (a.get? s).bind (·.parent)

/-- The place that the next scope will take. -/
def next (a : Arena V F) : ScopeId :=
  ⟨a.size⟩

/-- Adds a scope without bindings, at `next`. -/
def enter (a : Arena V F) (parent : Option ScopeId) : Arena V F :=
  ⟨a.scopes.push (.empty parent)⟩

/-- Discards a scope and every scope entered after it. -/
def exit (a : Arena V F) (s : ScopeId) : Arena V F :=
  ⟨a.scopes.take s.index⟩

def modify (a : Arena V F) (s : ScopeId) (f : Scope V F → Scope V F) : Arena V F :=
  ⟨a.scopes.modify s.index f⟩

/-- The error for a scope that is not live. -/
def notLive (s : ScopeId) : Error :=
  .inconsistent s!"scope {s.index} is not live"

/-- Binds a variable in a live scope, replacing its former binding. -/
def bindVariable (a : Arena V F) (s : ScopeId) (name : String) (value : V) : Arena V F :=
  a.modify s (·.bindVariable name value)

/-- Binds a function in a live scope, replacing the former binding of its name and arity. -/
def bindFunction (a : Arena V F) (s : ScopeId) (name : String) (arity : Nat) (function : F) :
    Arena V F :=
  a.modify s (·.bindFunction name arity function)

/-- Binds a variable that the scope itself does not bind yet. -/
def defineVariable (a : Arena V F) (s : ScopeId) (name : String) (value : V) :
    Except Error (Arena V F) :=
  match a.get? s with
  | none => .error (notLive s)
  | some scope =>
    if (scope.vars.get? name).isSome then .error (.duplicateVariable name)
    else .ok (a.bindVariable s name value)

/-- Binds a function whose name and arity the scope itself does not bind yet. -/
def defineFunction (a : Arena V F) (s : ScopeId) (name : String) (arity : Nat) (function : F) :
    Except Error (Arena V F) :=
  match a.get? s with
  | none => .error (notLive s)
  | some scope =>
    if (scope.funs.get? (name, arity)).isSome then .error (.duplicateFunction name arity)
    else .ok (a.bindFunction s name arity function)

/-- The chain from a scope on, of at most `budget` scopes. -/
def climb (a : Arena V F) : Nat → ScopeId → Chain V F
  | 0, _ => ⟨[], .cut⟩
  | budget + 1, s =>
    match a.get? s with
    | none => ⟨[], .stale s⟩
    | some scope =>
      match scope.parent with
      | none => ⟨[(s, scope)], .root⟩
      | some parent =>
        let rest := a.climb budget parent
        ⟨(s, scope) :: rest.scopes, rest.ending⟩

/-- The chain of a scope. A budget beyond the number of live scopes is used up only if the links
run in a circle. -/
def chain (a : Arena V F) (s : ScopeId) : Chain V F :=
  a.climb (a.size + 1) s

/-- The error for a name that is on no scope of a chain: `otherwise`, if the chain has an end. A
chain that runs in a circle has none: a lookup along it never comes back, and the error given for it
here stands for that. -/
def notFound (s : ScopeId) (ending : ChainEnd) (otherwise : Error) : Error :=
  match ending with
  | .cut => .inconsistent s!"the parents of scope {s.index} run in a circle"
  | _ => otherwise

/-- The nearest binding of a variable and the scope that holds it. -/
def findVariable? (a : Arena V F) (s : ScopeId) (name : String) : Option (ScopeId × V) :=
  (a.chain s).scopes.findSome? fun (t, scope) => (scope.vars.get? name).map (t, ·)

/-- The nearest binding of a function with this arity. -/
def findFunction? (a : Arena V F) (s : ScopeId) (name : String) (arity : Nat) : Option F :=
  (a.chain s).scopes.findSome? fun (_, scope) => scope.funs.get? (name, arity)

/-- The arities that a name is bound with along the chain of a scope, in increasing order. -/
def arities (a : Arena V F) (s : ScopeId) (name : String) : List Nat :=
  increasing ((a.chain s).scopes.flatMap fun (_, scope) => scope.arities name)

def lookupVariable (a : Arena V F) (s : ScopeId) (name : String) : Except Error V :=
  match a.findVariable? s name with
  | some (_, value) => .ok value
  | none => .error (notFound s (a.chain s).ending (.unknownVariable name))

/-- Goes up from a scope to the first one that binds a variable, over at most `budget` scopes. -/
def holder (a : Arena V F) (name : String) : Nat → ScopeId → Except ChainEnd ScopeId
  | 0, _ => .error .cut
  | budget + 1, s =>
    match a.get? s with
    | none => .error (.stale s)
    | some scope =>
      if (scope.vars.get? name).isSome then .ok s
      else
        match scope.parent with
        | none => .error .root
        | some parent => a.holder name budget parent

/-- The error for a scope that is found to bind a variable, and then does not. -/
def vanished (name : String) : Error :=
  .inconsistent s!"variable `{name}` vanished during lookup"

/-- The nearest binding of a variable, to be written to: the scope that holds it and its value. The
chain has to end at the root. -/
def slot (a : Arena V F) (s : ScopeId) (name : String) : Except Error (ScopeId × V) :=
  match a.holder name (a.size + 1) s with
  | .ok t =>
    match a.get? t with
    | none => .error (notLive t)
    | some scope =>
      match scope.vars.get? name with
      | some value => .ok (t, value)
      | none => .error (vanished name)
  | .error (.stale t) => .error (notLive t)
  | .error ending => .error (notFound s ending (.unknownVariable name))

/-- Replaces the value of the nearest binding of a variable; also gives the value it had. -/
def setVariable (a : Arena V F) (s : ScopeId) (name : String) (value : V) :
    Except Error (V × Arena V F) :=
  (a.slot s name).map fun (t, old) => (old, a.bindVariable t name value)

/-- The nearest binding of a function with this arity. A name that is bound with other arities
only is reported with those. -/
def lookupFunction (a : Arena V F) (s : ScopeId) (name : String) (arity : Nat) :
    Except Error F :=
  match a.findFunction? s name arity with
  | some function => .ok function
  | none =>
    .error <| notFound s (a.chain s).ending <|
      match a.arities s name with
      | [] => .unknownFunction name arity
      | available => .arityMismatch name available arity

end Arena

end TypedImp
