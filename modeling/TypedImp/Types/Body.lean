import TypedImp.Value

/-!
# Bodies

A body computes the value of a built-in or supplied function from its arguments; that of a member
gets the receiver first. Bodies know the built-in types by number and nothing of a registry.
-/

namespace TypedImp

/-- What a function computes from its arguments. -/
abbrev Body := List Value → Except Error Value

namespace Body

def const (value : Value) : Body :=
  fun _ => .ok value

def argument (i : Nat) : Body :=
  fun arguments => .ok (arguments[i]?.getD .nil)

def count : Body :=
  fun arguments => .ok (.integer arguments.length)

def join (separator : String) : Body :=
  fun arguments => .ok (.string (separator.intercalate (arguments.map Value.toText)))

def fail (error : Error) : Body :=
  fun _ => .error error

end Body

end TypedImp
