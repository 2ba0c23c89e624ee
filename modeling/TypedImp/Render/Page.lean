import TypedImp.Types.Registry

/-!
# Pages

Text is written to a page from top to bottom. Each new line starts with the indentation of the
depth that the page is at. Writing that fails leaves what it wrote and the depth it was at.
-/

namespace TypedImp

/-- The choices that a page is laid out by. -/
structure Layout where
  /-- The name of the class that a program becomes. -/
  className : String
  /-- What stands in front of a line, once for each level of depth. -/
  indentation : String

def Layout.standard : Layout :=
  ⟨"Main", "    "⟩

/-- What has been written, and the depth that new lines start at. -/
structure Page where
  text : String
  depth : Nat
  deriving DecidableEq, Inhabited, Repr

def Page.empty : Page :=
  ⟨"", 0⟩

/-- A step of writing: fails or succeeds, and changes the page either way. -/
abbrev Render := ExceptT Error (StateM Page)

namespace Render

def write (text : String) : Render Unit :=
  modify fun page => { page with text := page.text ++ text }

def newline (layout : Layout) : Render Unit :=
  modify fun page =>
    { page with
      text := page.text ++ "\n" ++ String.join (List.replicate page.depth layout.indentation) }

def blankLine : Render Unit :=
  write "\n"

def indent : Render Unit :=
  modify fun page => { page with depth := page.depth + 1 }

/-- Makes the lines that follow one level less deep; there is no level above the first. -/
def dedent : Render Unit :=
  modify fun page => { page with depth := page.depth - 1 }

def typeName (r : Registry) (type : TypeId) : Except Error String := do
  return (← r.info type).target

end Render

end TypedImp
