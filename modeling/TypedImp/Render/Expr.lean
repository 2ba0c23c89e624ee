import TypedImp.Render.Literal
import TypedImp.Typed.Program

/-!
# Expressions as text

An expression is written on one line, with the spellings of the variables and functions that it
means. Parentheses are written where the program has them and nowhere else.
-/

namespace TypedImp.Render

def operator : Operator → String
  | .connective .and => "&&"
  | .connective .or => "||"
  | other => other.symbol

mutual

def expr : Typed.Expr → String
  | .literal value _ => literal value
  | .group inner _ => "(" ++ expr inner ++ ")"
  | .binary op left right _ => expr left ++ " " ++ operator op ++ " " ++ expr right
  | .var target _ => target.target
  | .field receiver target _ => expr receiver ++ "." ++ target.target
  | .call function arguments _ =>
    function.target ++ "(" ++ ", ".intercalate (exprs arguments) ++ ")"
  | .method receiver function arguments _ =>
    expr receiver ++ "." ++ function.target ++ "(" ++ ", ".intercalate (exprs arguments) ++ ")"

def exprs : List Typed.Expr → List String
  | [] => []
  | e :: es => expr e :: exprs es

end

end TypedImp.Render
