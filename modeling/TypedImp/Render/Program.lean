import TypedImp.Render.Stmt

/-!
# Programs as text

A program becomes a class: its fields, an entry that calls `main` and ends with its result, and
its methods.
-/

namespace TypedImp.Render

def field (r : Registry) (field : Typed.Field) : Render Unit :=
  declaration r field.target field.value

def parameters (r : Registry) : List String → List TypeId → Except Error (List String)
  | name :: names, type :: types => do
    let type ← typeName r type
    let rest ← parameters r names types
    return (type ++ " " ++ name) :: rest
  | _, _ => .ok []

/-- The spelling of a result type; a method without a value gives `void`. -/
def resultName (r : Registry) (type : TypeId) : Except Error String :=
  if type = .nil then .ok "void" else typeName r type

def method (r : Registry) (layout : Layout) (method : Typed.Method) : Render Unit := do
  let result ← resultName r method.function.result
  let parameters ← parameters r method.parameters method.function.parameters
  write (result ++ " " ++ method.function.target ++ "(" ++ ", ".intercalate parameters ++ ") ")
  body r layout method.body

def fields (r : Registry) (layout : Layout) : List Typed.Field → Render Unit
  | [] => pure ()
  | f :: fs => do
    newline layout
    field r f
    fields r layout fs

def methods (r : Registry) (layout : Layout) : List Typed.Method → Render Unit
  | [] => pure ()
  | m :: ms => do
    blankLine
    newline layout
    method r layout m
    methods r layout ms

/-- Writes the entry that calls `main`. -/
def entry (layout : Layout) : Render Unit := do
  write "public static void main(String[] args) \x7b"
  indent
  newline layout
  write ("System.exit(new " ++ layout.className ++ "().main());")
  dedent
  newline layout
  write "\x7d"

def program (r : Registry) (layout : Layout) (program : Typed.Program) : Render Unit := do
  write ("public class " ++ layout.className ++ " \x7b")
  blankLine
  indent
  if !program.fields.isEmpty then
    fields r layout program.fields
    blankLine
  newline layout
  entry layout
  methods r layout program.methods
  dedent
  blankLine
  newline layout
  write "\x7d"

/-- What a step writes on an empty page, if it does not fail. -/
def onEmptyPage (step : Render Unit) : Except Error String :=
  let (outcome, page) := step.run Page.empty
  outcome.map fun _ => page.text

end TypedImp.Render

namespace TypedImp

open Render (onEmptyPage)

def generate (r : Registry) (p : Typed.Program) : Except Error String :=
  onEmptyPage (Render.program r .standard p)

def generateStmt (r : Registry) (s : Typed.Stmt) : Except Error String :=
  onEmptyPage (Render.stmt r .standard s)

def generateExpr (e : Typed.Expr) : String :=
  Render.expr e

end TypedImp
