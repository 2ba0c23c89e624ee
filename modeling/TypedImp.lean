import TypedImp.Decimal.Basic
import TypedImp.Decimal.Division
import TypedImp.Decimal.Range
import TypedImp.Decimal.Text
import TypedImp.Error
import TypedImp.Machine.Basic
import TypedImp.Machine.Evaluate
import TypedImp.Machine.Execute
import TypedImp.Machine.Operation
import TypedImp.Machine.Run
import TypedImp.Proofs.Outcome
import TypedImp.Proofs.Scope.Chain
import TypedImp.Proofs.Scope.Bindings
import TypedImp.Proofs.Typing.Judgement
import TypedImp.Proofs.Typing.Step
import TypedImp.Render.Expr
import TypedImp.Render.Literal
import TypedImp.Render.Page
import TypedImp.Render.Program
import TypedImp.Render.Stmt
import TypedImp.Scope.Arena
import TypedImp.Scope.Table
import TypedImp.Source.Operator
import TypedImp.Source.Program
import TypedImp.Text.Glyphless
import TypedImp.Text.Numeral
import TypedImp.Text.Quoted
import TypedImp.Typed.Program
import TypedImp.Types.Basic
import TypedImp.Types.Body
import TypedImp.Types.Builtin
import TypedImp.Types.Registry
import TypedImp.Typing.Checker
import TypedImp.Typing.Expr
import TypedImp.Typing.Program
import TypedImp.Typing.Stmt
import TypedImp.Value
import TypedImp.Proofs.Types.Reachable
import TypedImp.Proofs.Typing.Expression
import TypedImp.Proofs.Typing.Statement
import TypedImp.Proofs.Typing.Program
import TypedImp.Proofs.Machine.Plan
import TypedImp.Proofs.Machine.Safe
import TypedImp.Proofs.Machine.Place
import TypedImp.Proofs.Machine.Discipline
import TypedImp.Proofs.Machine.Evaluation
import TypedImp.Proofs.Machine.Execution
import TypedImp.Proofs.Machine.Calling
import TypedImp.Proofs.Machine.Running
import TypedImp.Proofs.Machine.Globals
import TypedImp.Proofs.Machine.Soundness
import TypedImp.Proofs.Types.Memberless
import TypedImp.Proofs.Types.Issued
import TypedImp.Proofs.Machine.Mirroring
import TypedImp.Proofs.Decimal.Reading
import TypedImp.Proofs.Render.Token
import TypedImp.Proofs.Render.Parentheses
import TypedImp.Proofs.Render.Spelling
import TypedImp.Proofs.Render.Unique
import TypedImp.Proofs.Render.Ambiguity
import TypedImp.Proofs.Machine.Parts
import TypedImp.Proofs.Machine.Step
import TypedImp.Proofs.Machine.Stock
import TypedImp.Proofs.Machine.Effect
import TypedImp.Proofs.Machine.Scopes
import TypedImp.Proofs.Machine.Passage
import TypedImp.Proofs.Machine.Layout
import TypedImp.Proofs.Machine.Session
import TypedImp.Proofs.Machine.Simulation
import TypedImp.Proofs.Machine.Isolation
import TypedImp.Proofs.Machine.Objects
import TypedImp.Proofs.Typing.Calls
import TypedImp.Proofs.Typing.Proper
import TypedImp.Proofs.Typing.Decoration
import TypedImp.Proofs.Render.Spelled
import TypedImp.Proofs.Machine.Ending
import TypedImp.Proofs.Machine.Termination
import TypedImp.Proofs.Types.Extension
import TypedImp.Proofs.Typing.Transfer
import TypedImp.Proofs.Typing.Extension
import TypedImp.Proofs.Machine.Extension
import TypedImp.Proofs.Typing.Order
import TypedImp.Proofs.Scope.Refit
import TypedImp.Proofs.Machine.Refit
import TypedImp.Proofs.Machine.Reordering
import TypedImp.Proofs.Scope.History
import TypedImp.Proofs.Scope.Environment
import TypedImp.Proofs.Scope.Walk
import TypedImp.Types.Ledger
import TypedImp.Proofs.Types.Alignment
import TypedImp.Proofs.Types.Ledger
import TypedImp.Proofs.Machine.Bare
import TypedImp.Proofs.Scope.Relabel
import TypedImp.Proofs.Machine.Annotation
import TypedImp.Proofs.Decimal.Value
import TypedImp.Proofs.Decimal.Range
import TypedImp.Proofs.Decimal.Rounding
import TypedImp.Proofs.Decimal.Cancellation
import TypedImp.Proofs.Scope.Overloads
import TypedImp.Proofs.Types.Overloads
import TypedImp.Proofs.Typing.Keeping
import TypedImp.Proofs.Typing.Inheritance
import TypedImp.Proofs.Scope.Resolution
import TypedImp.Proofs.Scope.Assignment
import TypedImp.Proofs.Render.Scanner
import TypedImp.Proofs.Render.Depth
import TypedImp.Proofs.Value.Order
import TypedImp.Proofs.Value.Equality
import TypedImp.Proofs.Value.Slice
import TypedImp.Proofs.Typing.Arity
import TypedImp.Proofs.Typing.Visits
import TypedImp.Proofs.Typing.Visited
