import TypedImp.Types.Builtin

/-!
# Building a registry

A host builds a registry call by call. Each call checks what it is given and then writes to the
parts of the registry, its member scopes, its types and their names, one after the other
(`Ledger`). The passes only read what has been built (`Ledger.registry`).
-/

namespace TypedImp

/-- The parts of a registry that is being built. -/
structure Ledger where
  types : Array TypeInfo
  names : Table String TypeId
  members : Arena FieldMember MethodMember

/-- A call on a ledger. One that fails leaves the ledger as it is at that moment. -/
abbrev Edit (α : Type) := ExceptT Error (StateM Ledger) α

namespace Ledger

def empty : Ledger :=
  ⟨#[], [], .empty⟩

def registry (l : Ledger) : Registry :=
  ⟨l.types, l.members⟩

def typeNamed (l : Ledger) (name : String) : Except Error TypeId :=
  match l.names.get? name with
  | some type => .ok type
  | none => .error (.unknownType name)

def enter (parent : Option ScopeId) : Edit ScopeId :=
  modifyGet fun l => (l.members.next, { l with members := l.members.enter parent })

/-- Issues a type behind all others, with a new member scope. -/
def addType (name target : String) (parent : Option ScopeId) : Edit TypeId := do
  let type : TypeId := ⟨(← get).types.size⟩
  let members ← enter parent
  modify fun l => { l with types := l.types.push ⟨name, target, members⟩ }
  modify fun l => { l with names := l.names.insert name type }
  return type

/-- Issues a type whose members inherit from those of `parent`, or of `any` without one. -/
def registerType (name target : String) (parent : Option TypeId) : Edit TypeId := do
  if !isTypeName name then
    throw (.invalidTypeName name)
  if ((← get).names.get? name).isSome then
    throw (.duplicateType name)
  let info ← (← get).registry.info (parent.getD .any)
  addType name target (some info.members)

/-- Lets a type define a member in its own scope. -/
def define (type : TypeId) (member : Arena FieldMember MethodMember → ScopeId →
    Except Error (Arena FieldMember MethodMember)) : Edit Unit := do
  let info ← (← get).registry.info type
  let members ← member (← get).members info.members
  modify fun l => { l with members }

def defineField (type : TypeId) (field : FieldMember) : Edit Unit :=
  define type fun a s => a.defineVariable s field.name field

def defineMethod (type : TypeId) (method : MethodMember) : Edit Unit :=
  define type fun a s => a.defineFunction s method.name method.arity method

/-! ## The built-in types -/

def lattice : Ledger :=
  Builtin.types.foldl (fun l (name, target, parent) =>
    ((addType name target (parent.map Registry.builtinScope)).run l).2) empty

def bindMethod (l : Ledger) (type : TypeId) (method : MethodMember) : Ledger :=
  { l with members := (l.registry.bindMethod type method).members }

def bindField (l : Ledger) (type : TypeId) (field : FieldMember) : Ledger :=
  { l with members := (l.registry.bindField type field).members }

def builtin : Ledger :=
  let l := Builtin.methods.foldl (fun l (type, method) => l.bindMethod type method) lattice
  Builtin.fields.foldl (fun l (type, field) => l.bindField type field) l

end Ledger

end TypedImp
