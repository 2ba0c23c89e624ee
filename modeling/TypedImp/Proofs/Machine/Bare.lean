import TypedImp.Machine.Run
import TypedImp.Proofs.Typing.Decoration

/-!
# Programs with bare annotations

A written program can be decorated with annotations that say nothing: every type is `any`, and every
spelling is the name itself. Expressions and statements run as they do with these annotations in the
place of their own (`evaluate_bare`, `execute_bare`), and so do the bodies of methods
(`callMethod_bare`).
-/

namespace TypedImp

namespace Source

mutual

def Expr.bare : Expr → Typed.Expr
  | .literal value => .literal value .any
  | .group inner => .group inner.bare .any
  | .binary operator left right => .binary operator left.bare right.bare .any
  | .var name => .var (.plain name .any) .any
  | .field receiver name => .field receiver.bare (.plain name .any) .any
  | .call name arguments => .call (.plain name [] .any) (exprsBare arguments) .any
  | .method receiver name arguments =>
    .method receiver.bare (.plain name [] .any) (exprsBare arguments) .any

def exprsBare : List Expr → List Typed.Expr
  | [] => []
  | e :: es => e.bare :: exprsBare es

end

mutual

def Stmt.bare : Stmt → Typed.Stmt
  | .expression e => .expression e.bare
  | .declaration name _ value => .declaration (.plain name .any) (value.map Expr.bare)
  | .assignment target value => .assignment target.bare value.bare
  | .conditional condition thenBody elseBody =>
    .conditional condition.bare (blockBare thenBody) (blockBare elseBody)
  | .each name items body => .each (.plain name .any) items.bare (blockBare body)
  | .loop condition body => .loop condition.bare (blockBare body)
  | .ret value => .ret value.bare

def blockBare : List Stmt → List Typed.Stmt
  | [] => []
  | s :: ss => s.bare :: blockBare ss

end

def Field.bare (f : Field) : Typed.Field :=
  ⟨.plain f.name .any, f.value.map Expr.bare⟩

def Method.bare (m : Method) : Typed.Method :=
  ⟨.plain m.name [] .any, m.parameters, blockBare m.body⟩

def Program.bare (p : Program) : Typed.Program :=
  ⟨p.fields.map Field.bare, p.methods.map Method.bare⟩

end Source

open Source Typed

/-! ## What bare annotations leave -/

mutual

theorem Source.Expr.erase_bare : ∀ e : Source.Expr, e.bare.erase = e
  | .literal _ | .var _ => rfl
  | .group inner => congrArg Source.Expr.group (Source.Expr.erase_bare inner)
  | .binary operator left right =>
    congrArg₂ (Source.Expr.binary operator) (Source.Expr.erase_bare left)
      (Source.Expr.erase_bare right)
  | .field receiver name => congrArg (Source.Expr.field · name) (Source.Expr.erase_bare receiver)
  | .call name arguments => congrArg (Source.Expr.call name) (exprsErase_bare arguments)
  | .method receiver name arguments =>
    congrArg₂ (Source.Expr.method · name) (Source.Expr.erase_bare receiver)
      (exprsErase_bare arguments)

theorem Source.exprsErase_bare : ∀ es : List Source.Expr, exprsErase (exprsBare es) = es
  | [] => rfl
  | e :: es => congrArg₂ List.cons (Expr.erase_bare e) (exprsErase_bare es)

end

mutual

theorem Typed.Stmt.erase_bare : ∀ s : Typed.Stmt, s.erase.bare.erase = s.erase
  | .expression e | .ret e => by
    simp only [Typed.Stmt.erase, Source.Stmt.bare, Source.Expr.erase_bare]
  | .declaration target value => by
    simp only [Typed.Stmt.erase, Source.Stmt.bare, Option.map_map, Function.comp_def,
      Source.Expr.erase_bare, Variable.plain]
  | .assignment target value => by
    simp only [Typed.Stmt.erase, Source.Stmt.bare, Source.Expr.erase_bare]
  | .conditional condition thenBody elseBody => by
    simp only [Typed.Stmt.erase, Source.Stmt.bare, Source.Expr.erase_bare,
      blockErase_bare thenBody, blockErase_bare elseBody]
  | .each target items body => by
    simp only [Typed.Stmt.erase, Source.Stmt.bare, Source.Expr.erase_bare, Variable.plain,
      blockErase_bare body]
  | .loop condition body => by
    simp only [Typed.Stmt.erase, Source.Stmt.bare, Source.Expr.erase_bare, blockErase_bare body]

theorem Typed.blockErase_bare : ∀ ss : List Typed.Stmt,
    blockErase (blockBare (blockErase ss)) = blockErase ss
  | [] => rfl
  | s :: ss => congrArg₂ List.cons (Stmt.erase_bare s) (blockErase_bare ss)

end

/-- Methods are the same with bare annotations if and only if they are the same without them. -/
theorem Typed.Method.bare_inj {m m' : Typed.Method} :
    m.erase.bare = m'.erase.bare ↔ m.erase = m'.erase := by
  have herase (m : Typed.Method) : m.erase.bare.erase = m.erase := by
    simp only [Method.erase, Source.Method.bare, Function.plain, blockErase_bare]
  constructor
  · intro h
    rw [← herase m, h, herase m']
  · exact congrArg Source.Method.bare

/-! ## Runs with bare annotations -/

namespace Context

variable (x : Context)

mutual

theorem evaluate_bare : ∀ e : Typed.Expr, x.evaluate e.erase.bare = x.evaluate e
  | .literal value _ => by simp only [Typed.Expr.erase, Source.Expr.bare, evaluate]
  | .group inner _ => by
    simp only [Typed.Expr.erase, Source.Expr.bare, evaluate, evaluate_bare inner]
  | .binary operator left right _ => by
    cases operator <;> simp only [Typed.Expr.erase, Source.Expr.bare, evaluate,
      evaluate_bare left, evaluate_bare right]
  | .var target _ => by
    simp only [Typed.Expr.erase, Source.Expr.bare, evaluate, Variable.plain]
  | .field receiver target _ => by
    simp only [Typed.Expr.erase, Source.Expr.bare, evaluate, Variable.plain,
      evaluate_bare receiver]
  | .call function arguments _ => by
    simp only [Typed.Expr.erase, Source.Expr.bare, evaluate, Function.plain,
      evaluateAll_bare arguments]
  | .method receiver function arguments _ => by
    simp only [Typed.Expr.erase, Source.Expr.bare, evaluate, Function.plain,
      evaluate_bare receiver, evaluateAll_bare arguments]

theorem evaluateAll_bare : ∀ es : List Typed.Expr,
    x.evaluateAll (exprsBare (exprsErase es)) = x.evaluateAll es
  | [] => rfl
  | e :: es => by
    simp only [exprsErase, exprsBare, evaluateAll, evaluate_bare e, evaluateAll_bare es]

end

theorem initialValue_bare (value : Option Typed.Expr) :
    x.initialValue ((value.map Typed.Expr.erase).map Source.Expr.bare) = x.initialValue value := by
  cases value with
  | none => rfl
  | some e => exact x.evaluate_bare e

theorem condition_bare (e : Typed.Expr) : x.condition e.erase.bare = x.condition e := by
  rw [condition, evaluate_bare, condition]

theorem assign_bare (value target : Typed.Expr) :
    x.assign value.erase.bare target.erase.bare = x.assign value target := by
  cases target with
  | var target _ =>
    simp only [Typed.Expr.erase, Source.Expr.bare, assign, Variable.plain, evaluate_bare]
  | field receiver target _ =>
    simp only [Typed.Expr.erase, Source.Expr.bare, assign, Variable.plain, evaluate_bare]
  | literal _ _ | group _ _ | binary _ _ _ _ | call _ _ _ | method _ _ _ _ =>
    simp only [Typed.Expr.erase, Source.Expr.bare, assign]

mutual

theorem execute_bare : ∀ s : Typed.Stmt, x.execute s.erase.bare = x.execute s
  | .expression e => by simp only [Typed.Stmt.erase, Source.Stmt.bare, execute, evaluate_bare]
  | .declaration target value => by
    simp only [Typed.Stmt.erase, Source.Stmt.bare, execute, Variable.plain, initialValue_bare]
  | .assignment target value => by
    simp only [Typed.Stmt.erase, Source.Stmt.bare, execute, assign_bare]
  | .conditional condition thenBody elseBody => by
    simp only [Typed.Stmt.erase, Source.Stmt.bare, execute, condition_bare,
      executeBlock_bare thenBody, executeBlock_bare elseBody]
  | .each target items body => by
    simp only [Typed.Stmt.erase, Source.Stmt.bare, execute, Variable.plain, evaluate_bare,
      executeBlock_bare body]
  | .loop condition body => by
    simp only [Typed.Stmt.erase, Source.Stmt.bare, execute, condition_bare,
      executeBlock_bare body]
  | .ret value => by simp only [Typed.Stmt.erase, Source.Stmt.bare, execute, evaluate_bare]

theorem executeBlock_bare : ∀ ss : List Typed.Stmt,
    x.executeBlock (blockBare (blockErase ss)) = x.executeBlock ss
  | [] => rfl
  | s :: ss => by
    simp only [blockErase, blockBare, executeBlock, execute_bare s, executeBlock_bare ss]

end

end Context

theorem callMethod_bare (r : Registry) (rounds depth : Nat) (method : Typed.Method)
    (closure : ScopeId) (values : List Value) :
    callMethod r rounds depth method.erase.bare closure values =
      callMethod r rounds depth method closure values := by
  cases depth with
  | zero => rfl
  | succ depth =>
    simp only [callMethod, Typed.Method.erase, Source.Method.bare, Function.plain,
      Context.executeBlock_bare]

end TypedImp
