import TypedImp.Types.Body

/-!
# The registry

A registry issues types in order and keeps the members of each in a scope of its own. The member
scope of a type chains to that of its parent, so members are inherited; type number `n` has member
scope number `n`.
-/

namespace TypedImp

structure TypeInfo where
  name : String
  target : String
  members : ScopeId
  deriving DecidableEq, Inhabited, Repr

/-- A field of a type. Only a field with a getter can be read from a value without members of its
own. -/
structure FieldMember extends Variable where
  getter : Option Body

/-- A method of a type. A method without a body is for the checker only. -/
structure MethodMember extends Function where
  body : Option Body

structure Registry where
  types : Array TypeInfo
  members : Arena FieldMember MethodMember

/-- A letter or underscore, then letters, digits and underscores. -/
def isTypeName (name : String) : Bool :=
  match name.toList with
  | [] => false
  | c :: cs => (c.isAlpha || c == '_') && cs.all fun c => c.isAlphanum || c == '_'

namespace Registry

def empty : Registry :=
  ⟨#[], .empty⟩

/-- The type that is issued next. -/
def next (r : Registry) : TypeId :=
  ⟨r.types.size⟩

/-- Issues `next`, with a new member scope. -/
def addType (r : Registry) (name target : String) (parent : Option ScopeId) : Registry :=
  ⟨r.types.push ⟨name, target, r.members.next⟩, r.members.enter parent⟩

def typeNamed? (r : Registry) (name : String) : Option TypeId :=
  (r.types.toList.findIdx? (·.name = name)).map TypeId.mk

def typeNamed (r : Registry) (name : String) : Except Error TypeId :=
  match r.typeNamed? name with
  | some type => .ok type
  | none => .error (.unknownType name)

def info (r : Registry) (type : TypeId) : Except Error TypeInfo :=
  match r.types[type.number]? with
  | some info => .ok info
  | none => .error (.inconsistent s!"type id {type.number} was not issued by this registry")

def nameOf (r : Registry) (type : TypeId) : String :=
  match r.types[type.number]? with
  | some info => info.name
  | none => s!"<type {type.number}>"

/-- Issues a type whose members inherit from those of `parent`. -/
def registerType (r : Registry) (name target : String) (parent : TypeId) :
    Except Error Registry :=
  if !isTypeName name then .error (.invalidTypeName name)
  else if (r.typeNamed? name).isSome then .error (.duplicateType name)
  else do
    let parent ← r.info parent
    return r.addType name target (some parent.members)

def defineField (r : Registry) (type : TypeId) (field : FieldMember) : Except Error Registry := do
  let info ← r.info type
  return { r with members := ← r.members.defineVariable info.members field.name field }

def defineMethod (r : Registry) (type : TypeId) (method : MethodMember) :
    Except Error Registry := do
  let info ← r.info type
  let members ← r.members.defineFunction info.members method.name method.arity method
  return { r with members }

/-- The field that a type has or inherits under a name. -/
def field (r : Registry) (type : TypeId) (name : String) : Except Error FieldMember := do
  let info ← r.info type
  r.members.lookupVariable info.members name

/-- Counts arities as a caller of methods does, without the receiver. -/
def withoutReceiver (arity : Nat) : Error → Error
  | .arityMismatch name available _ => .arityMismatch name (available.map (· - 1)) arity
  | .unknownFunction name _ => .unknownFunction name arity
  | error => error

/-- The method that a type has or inherits under a name for a number of explicit arguments. -/
def method (r : Registry) (type : TypeId) (name : String) (arity : Nat) :
    Except Error MethodMember := do
  let info ← r.info type
  (r.members.lookupFunction info.members name (Function.withReceiver arity)).mapError
    (withoutReceiver arity)

/-- A value of type `source` may be stored where `target` is declared. -/
def requireAssignable (r : Registry) (target source : TypeId) : Except Error Unit :=
  if target.accepts source then .ok ()
  else .error (.typeMismatch (r.nameOf target) (r.nameOf source))

end Registry

end TypedImp
