import TypedImp.Types.Registry

/-!
# The built-in types and their members

Every type inherits `stringify` from `Any`. The ordered types have `compare`, whose answer is of
the receiver's own class, and strings have `length` and `slice`, which count characters.
-/

namespace TypedImp

namespace Builtin

def argument (arguments : List Value) (i : Nat) : Except Error Value :=
  match arguments[i]? with
  | some value => .ok value
  | none => .error (.inconsistent s!"built-in member called without argument {i}")

def stringArgument (arguments : List Value) (i : Nat) : Except Error String := do
  match (← argument arguments i).datum with
  | .string text => return text
  | other => throw (.typeMismatch "string" other.className)

def integerArgument (arguments : List Value) (i : Nat) : Except Error Int := do
  match (← argument arguments i).datum with
  | .integer value => return value
  | other => throw (.typeMismatch "integer" other.className)

def stringify : Body := fun arguments => do
  return .string (← argument arguments 0).toText

/-- Less, equal and greater as -1, 0 and 1. -/
def sign : Ordering → Int
  | .lt => -1
  | .eq => 0
  | .gt => 1

def signCharacter : Ordering → Char
  | .lt => '-'
  | .eq => '0'
  | .gt => '+'

/-- The sign of a comparison in the class of its receiver. -/
def signIn (receiver : Datum) (ordering : Ordering) : Value :=
  match receiver with
  | .decimal _ => .decimal (.ofInt (sign ordering))
  | .character _ => .character (signCharacter ordering)
  | .string _ => .string (toString (sign ordering))
  | _ => .integer (sign ordering)

def comparison : Body := fun arguments => do
  let receiver ← argument arguments 0
  let other ← argument arguments 1
  match receiver.datum.compare? other.datum with
  | some ordering => return signIn receiver.datum ordering
  | none => throw (.operandMismatch "compare" other.datum.className)

def length : Body := fun arguments => do
  return .integer (← stringArgument arguments 0).length

def slice : Body := fun arguments => do
  let text ← stringArgument arguments 0
  let start ← integerArgument arguments 1
  let stop ← integerArgument arguments 2
  if 0 ≤ start && start ≤ stop && stop ≤ text.length then
    return .string
      (String.ofList ((text.toList.drop start.toNat).take (stop.toNat - start.toNat)))
  else
    throw (.indexOutOfBounds (toString start) (toString stop) text.length)

/-- Names, spellings and parents of the built-in types, in the order of their numbers. -/
def types : List (String × String × Option TypeId) :=
  [("Any", "Object", none),
   ("Nil", "Void", some .any),
   ("IntegerIterable", "Iterable<Integer>", some .any),
   ("Comparable", "Comparable", some .any),
   ("Boolean", "boolean", some .any),
   ("Integer", "int", some .comparable),
   ("Decimal", "double", some .comparable),
   ("Character", "char", some .comparable),
   ("String", "String", some .comparable)]

def methods : List (TypeId × MethodMember) :=
  (.any, ⟨⟨"stringify", "toString", [.any], .string⟩, some stringify⟩) ::
  ([.comparable, .integer, .decimal, .character, .string].map fun type =>
    (type, ⟨⟨"compare", "compareTo", [.any, type], type⟩, some comparison⟩)) ++
  [(.string, ⟨⟨"slice", "substring", [.any, .integer, .integer], .string⟩, some slice⟩)]

def fields : List (TypeId × FieldMember) :=
  [(.string, ⟨⟨"length", "length()", .integer⟩, some length⟩)]

end Builtin

namespace Registry

def builtinScope (type : TypeId) : ScopeId :=
  ⟨type.number⟩

def lattice : Registry :=
  Builtin.types.foldl
    (fun r (name, target, parent) => r.addType name target (parent.map builtinScope)) empty

def bindMethod (r : Registry) (type : TypeId) (method : MethodMember) : Registry :=
  { r with
    members := r.members.bindFunction (builtinScope type) method.name method.arity method }

def bindField (r : Registry) (type : TypeId) (field : FieldMember) : Registry :=
  { r with members := r.members.bindVariable (builtinScope type) field.name field }

def builtin : Registry :=
  let r := Builtin.methods.foldl (fun r (type, method) => r.bindMethod type method) lattice
  Builtin.fields.foldl (fun r (type, field) => r.bindField type field) r

end Registry

end TypedImp
