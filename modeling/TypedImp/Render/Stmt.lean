import TypedImp.Render.Expr
import TypedImp.Render.Page

/-!
# Statements as text

A statement starts where the page stands. The statements of a body have a line each, one level
deeper than the line that opens the body.
-/

namespace TypedImp.Render

def declaration (r : Registry) (target : Variable) (value : Option Typed.Expr) :
    Render Unit := do
  let type ← typeName r target.type
  write (type ++ " " ++ target.target)
  match value with
  | some value => write (" = " ++ expr value ++ ";")
  | none => write ";"

mutual

def stmt (r : Registry) (layout : Layout) : Typed.Stmt → Render Unit
  | .expression e => write (expr e ++ ";")
  | .declaration target value => declaration r target value
  | .assignment target value => write (expr target ++ " = " ++ expr value ++ ";")
  | .conditional condition thenBody elseBody => do
    write ("if (" ++ expr condition ++ ") ")
    body r layout thenBody
    if !elseBody.isEmpty then
      write " else "
      body r layout elseBody
  | .each target items loopBody => do
    write ("for (int " ++ target.target ++ " : " ++ expr items ++ ") ")
    body r layout loopBody
  | .loop condition loopBody => do
    write ("while (" ++ expr condition ++ ") ")
    body r layout loopBody
  | .ret value => write ("return " ++ expr value ++ ";")

def body (r : Registry) (layout : Layout) : List Typed.Stmt → Render Unit
  | [] => write "\x7b\x7d"
  | s :: ss => do
    write "\x7b"
    indent
    newline layout
    stmt r layout s
    lines r layout ss
    dedent
    newline layout
    write "\x7d"

def lines (r : Registry) (layout : Layout) : List Typed.Stmt → Render Unit
  | [] => pure ()
  | s :: ss => do
    newline layout
    stmt r layout s
    lines r layout ss

end

end TypedImp.Render
