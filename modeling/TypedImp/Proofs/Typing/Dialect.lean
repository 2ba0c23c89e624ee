import TypedImp.Source.Program

/-!
# Dialects

A dialect says which constructs a program may contain.
-/

namespace TypedImp

structure Dialect where
  /-- Fields may be read and methods called. -/
  receivers : Prop
  /-- Fields may be assigned to. -/
  memberTargets : Prop
  /-- Declarations may be without a value, and a method that names its result may end without a
  return. -/
  omits : Prop
  /-- The types that may be named. -/
  names : String → Prop

namespace Source

variable (d : Dialect)

mutual

def Expr.Within : Expr → Prop
  | .literal _ | .var _ => True
  | .group inner => inner.Within
  | .binary _ left right => left.Within ∧ right.Within
  | .field receiver _ => d.receivers ∧ receiver.Within
  | .call _ arguments => ExprsWithin arguments
  | .method receiver _ arguments => d.receivers ∧ receiver.Within ∧ ExprsWithin arguments

def ExprsWithin : List Expr → Prop
  | [] => True
  | e :: es => e.Within ∧ ExprsWithin es

end

def Expr.TargetWithin : Expr → Prop
  | .field receiver _ => d.memberTargets ∧ receiver.Within d
  | e => e.Within d

def DeclarationWithin (type : Option String) (value : Option Expr) : Prop :=
  (∀ name ∈ type, d.names name) ∧ (∀ e ∈ value, e.Within d) ∧ (value = none → d.omits)

mutual

def Stmt.Within : Stmt → Prop
  | .expression e => e.Within d
  | .declaration _ type value => DeclarationWithin d type value
  | .assignment target value => target.TargetWithin d ∧ value.Within d
  | .conditional condition thenBody elseBody =>
    condition.Within d ∧ BlockWithin thenBody ∧ BlockWithin elseBody
  | .each _ items body => items.Within d ∧ BlockWithin body
  | .loop condition body => condition.Within d ∧ BlockWithin body
  | .ret value => value.Within d

def BlockWithin : List Stmt → Prop
  | [] => True
  | s :: ss => s.Within ∧ BlockWithin ss

end

def EndsInReturn (body : List Stmt) : Prop :=
  ∃ value, body.getLast? = some (.ret value)

structure Method.Within (method : Method) : Prop where
  types : ∀ name ∈ method.types, d.names name
  result : ∀ name ∈ method.result, d.names name ∧ (EndsInReturn method.body ∨ d.omits)
  body : BlockWithin d method.body

structure Program.Within (p : Program) : Prop where
  fields : ∀ field ∈ p.fields, DeclarationWithin d field.type field.value
  methods : ∀ method ∈ p.methods, method.Within d

structure Total : Prop where
  receivers : d.receivers
  memberTargets : d.memberTargets
  omits : d.omits
  names : ∀ name, d.names name

variable {d : Dialect}

mutual

theorem expr_within (h : Total d) : ∀ e : Expr, e.Within d
  | .literal _ | .var _ => by simp only [Expr.Within]
  | .group inner => by
    unfold Expr.Within
    exact expr_within h inner
  | .binary _ left right => by
    unfold Expr.Within
    exact ⟨expr_within h left, expr_within h right⟩
  | .field receiver _ => by
    unfold Expr.Within
    exact ⟨h.receivers, expr_within h receiver⟩
  | .call _ arguments => by
    unfold Expr.Within
    exact exprs_within h arguments
  | .method receiver _ arguments => by
    unfold Expr.Within
    exact ⟨h.receivers, expr_within h receiver, exprs_within h arguments⟩

theorem exprs_within (h : Total d) : ∀ es : List Expr, ExprsWithin d es
  | [] => by simp only [ExprsWithin]
  | e :: es => by
    unfold ExprsWithin
    exact ⟨expr_within h e, exprs_within h es⟩

end

theorem declaration_within (h : Total d) (type : Option String) (value : Option Expr) :
    DeclarationWithin d type value :=
  ⟨fun name _ => h.names name, fun e _ => expr_within h e, fun _ => h.omits⟩

theorem target_within (h : Total d) : ∀ e : Expr, e.TargetWithin d
  | .field receiver _ => ⟨h.memberTargets, expr_within h receiver⟩
  | .literal _ | .var _ | .group _ | .binary _ _ _ | .call _ _ | .method _ _ _ =>
    expr_within h _

mutual

theorem stmt_within (h : Total d) : ∀ s : Stmt, s.Within d
  | .expression e | .ret e => by
    unfold Stmt.Within
    exact expr_within h e
  | .declaration _ type value => by
    unfold Stmt.Within
    exact declaration_within h type value
  | .assignment target value => by
    unfold Stmt.Within
    exact ⟨target_within h target, expr_within h value⟩
  | .conditional condition thenBody elseBody => by
    unfold Stmt.Within
    exact ⟨expr_within h condition, block_within h thenBody, block_within h elseBody⟩
  | .each _ items body | .loop items body => by
    unfold Stmt.Within
    exact ⟨expr_within h items, block_within h body⟩

theorem block_within (h : Total d) : ∀ ss : List Stmt, BlockWithin d ss
  | [] => by simp only [BlockWithin]
  | s :: ss => by
    unfold BlockWithin
    exact ⟨stmt_within h s, block_within h ss⟩

end

theorem within_of_total (h : Total d) (p : Program) : p.Within d where
  fields field _ := declaration_within h field.type field.value
  methods method _ :=
    ⟨fun name _ => h.names name, fun name _ => ⟨h.names name, .inr h.omits⟩,
      block_within h method.body⟩

end Source

end TypedImp
