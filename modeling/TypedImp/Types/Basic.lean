/-!
# Types, variables and functions

Types are nominal: a type is the number that its registry gave it. The first nine numbers are the
built-in types. Assignability relates types by number alone: a type accepts itself, `any` accepts
all, and `comparable` accepts the ordered types.
-/

namespace TypedImp

/-- A type, by its number in order of registration. -/
structure TypeId where
  number : Nat
  deriving DecidableEq, Inhabited, Repr

namespace TypeId

/-- Accepts every value. -/
def any : TypeId := ⟨0⟩

/-- The type of the one value that stands for nothing. -/
def nil : TypeId := ⟨1⟩

/-- Sequences to iterate over. -/
def integerIterable : TypeId := ⟨2⟩

/-- Accepts the values of the ordered types. -/
def comparable : TypeId := ⟨3⟩

def boolean : TypeId := ⟨4⟩

def integer : TypeId := ⟨5⟩

def decimal : TypeId := ⟨6⟩

def character : TypeId := ⟨7⟩

def string : TypeId := ⟨8⟩

/-- The types that `comparable` accepts. -/
def isComparable (t : TypeId) : Bool :=
  t = integer || t = decimal || t = character || t = string

def isNumeric (t : TypeId) : Bool :=
  t = integer || t = decimal

/-- A value of type `source` may be stored where `target` is declared. -/
def accepts (target source : TypeId) : Bool :=
  target = source || target = any || (target = comparable && source.isComparable)

end TypeId

/-- A variable or field, with its spelling in generated text. -/
structure Variable where
  name : String
  target : String
  type : TypeId
  deriving DecidableEq, Inhabited, Repr

/-- A function or method, with its spelling in generated text. The first parameter of a method is
its receiver. -/
structure Function where
  name : String
  target : String
  parameters : List TypeId
  result : TypeId
  deriving DecidableEq, Inhabited, Repr

namespace Variable

def plain (name : String) (type : TypeId) : Variable :=
  ⟨name, name, type⟩

end Variable

namespace Function

/-- The number of parameters, the receiver of a method included. -/
def arity (f : Function) : Nat :=
  f.parameters.length

/-- The number of parameters of a method that is called with `arguments` explicit arguments: one
more, for the receiver. Arities have 64 bits and wrap around. -/
def withReceiver (arguments : Nat) : Nat :=
  (arguments + 1) % 18446744073709551616

def plain (name : String) (parameters : List TypeId) (result : TypeId) : Function :=
  ⟨name, name, parameters, result⟩

end Function

end TypedImp
