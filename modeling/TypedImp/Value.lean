import TypedImp.Decimal.Text
import TypedImp.Scope.Arena
import TypedImp.Types.Basic

/-!
# Values

A value is a datum with a type, and for an object the scope that holds its members. Values are
compared and shown by their datum alone. Equality tells decimals of one value apart when their
scales differ; the order does not.
-/

namespace TypedImp

mutual

inductive Datum where
  | nil
  | boolean (value : Bool)
  | integer (value : Int)
  | decimal (value : Decimal)
  | character (value : Char)
  | string (value : String)
  | sequence (items : List Value)

/-- A datum with its type. An object's members live in a scope of the machine that made it. -/
inductive Value where
  | mk (type : TypeId) (datum : Datum) (members : Option ScopeId)

end

instance : Inhabited Datum := ⟨.nil⟩

namespace Value

def type : Value → TypeId
  | mk type _ _ => type

def datum : Value → Datum
  | mk _ datum _ => datum

/-- The scope of an object's members. -/
def members : Value → Option ScopeId
  | mk _ _ members => members

end Value

namespace Datum

def type : Datum → TypeId
  | nil => .nil
  | boolean _ => .boolean
  | integer _ => .integer
  | decimal _ => .decimal
  | character _ => .character
  | string _ => .string
  | sequence _ => .integerIterable

def className : Datum → String
  | nil => "nil"
  | boolean _ => "boolean"
  | integer _ => "integer"
  | decimal _ => "decimal"
  | character _ => "character"
  | string _ => "string"
  | sequence _ => "sequence"

def compare? : Datum → Datum → Option Ordering
  | boolean a, boolean b => some (compare a b)
  | integer a, integer b => some (compare a b)
  | decimal a, decimal b => some (compare a b)
  | character a, character b => some (compare a b)
  | string a, string b => some (compare a b)
  | _, _ => none

end Datum

mutual

def Datum.same : Datum → Datum → Bool
  | .nil, .nil => true
  | .boolean a, .boolean b => a == b
  | .integer a, .integer b => a == b
  | .decimal a, .decimal b => a == b
  | .character a, .character b => a == b
  | .string a, .string b => a == b
  | .sequence a, .sequence b => sameItems a b
  | _, _ => false

def Value.same : Value → Value → Bool
  | .mk _ a _, .mk _ b _ => a.same b

def sameItems : List Value → List Value → Bool
  | [], [] => true
  | a :: as, b :: bs => a.same b && sameItems as bs
  | _, _ => false

end

mutual

def Datum.toText : Datum → String
  | .nil => "nil"
  | .boolean b => if b then "true" else "false"
  | .integer n => toString n
  | .decimal d => d.toText
  | .character c => c.toString
  | .string s => s
  | .sequence items => "[" ++ ", ".intercalate (itemTexts items) ++ "]"

def Value.toText : Value → String
  | .mk _ datum _ => datum.toText

def itemTexts : List Value → List String
  | [] => []
  | v :: vs => v.toText :: itemTexts vs

end

instance : BEq Datum := ⟨Datum.same⟩

instance : BEq Value := ⟨Value.same⟩

instance : ToString Value := ⟨Value.toText⟩

namespace Value

def of (datum : Datum) : Value :=
  mk datum.type datum none

/-- An object of a given type, with the scope of its members. -/
def object (type : TypeId) (datum : Datum) (members : ScopeId) : Value :=
  mk type datum (some members)

def nil : Value :=
  of .nil

instance : Inhabited Value := ⟨nil⟩

def boolean (b : Bool) : Value :=
  of (.boolean b)

def integer (n : Int) : Value :=
  of (.integer n)

def decimal (d : Decimal) : Value :=
  of (.decimal d)

def character (c : Char) : Value :=
  of (.character c)

def string (s : String) : Value :=
  of (.string s)

end Value

end TypedImp
