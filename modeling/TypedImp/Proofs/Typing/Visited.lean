import TypedImp.Proofs.Typing.Visits

/-!
# No call is left out

A check that succeeds has got to every call in what it gives, with that function and those
arguments (`visited_of_run`). So what holds wherever a check gets to holds of all of them.
-/

namespace TypedImp

namespace Typing

open Check
open Typed (Application)

variable {r : Registry} {c c' : Checker} {v w : Visit} {x y : Subject} {a : Application}

/-- From this visit on, the check gets to the call. -/
def Visited (r : Registry) (v : Visit) (a : Application) : Prop :=
  ∃ w, Relation.ReflTransGen (Leads r) v w ∧ w.Applies r a

theorem Leads.visited (h : Leads r v w) (ha : Visited r w a) : Visited r v a := by
  obtain ⟨u, hu, happlies⟩ := ha
  exact ⟨u, .head h hu, happlies⟩

theorem visited_of_part (h : y ∈ x.parts) (ha : Visited r ⟨y, c⟩ a) : Visited r ⟨x, c⟩ a :=
  (Leads.part h).visited ha

theorem after_of_gives {α : Type} {step : Check α} {t : α} (h : Gives step c t c') :
    after step c = c' := by
  rw [after, h]

/-! ## Expressions -/

mutual

theorem visited_expr : ∀ (e : Source.Expr) {t : Typed.Expr}, checkExpr r c e = .ok t →
    ∀ a ∈ t.applications, Visited r ⟨.expr e, c⟩ a
  | .literal value, t, ht, a, ha => by
    simp only [checkExpr, bind_eq_ok, pure_eq_ok] at ht
    obtain ⟨type, -, rfl⟩ := ht
    simp only [Typed.Expr.applications, List.not_mem_nil] at ha
  | .group inner, t, ht, a, ha => by
    unfold checkExpr at ht
    split at ht
    · cases ht
    · simp only [bind_eq_ok, pure_eq_ok] at ht
      obtain ⟨inner', hi, rfl⟩ := ht
      rw [Typed.Expr.applications] at ha
      exact visited_of_part (List.mem_singleton_self _) (visited_expr inner hi a ha)
  | .binary operator left right, t, ht, a, ha => by
    simp only [checkExpr, bind_eq_ok, pure_eq_ok] at ht
    obtain ⟨left', hl, right', hr, type, -, rfl⟩ := ht
    rw [Typed.Expr.applications, List.mem_append] at ha
    rcases ha with ha | ha
    · exact visited_of_part (by simp [Subject.parts]) (visited_expr left hl a ha)
    · exact visited_of_part (by simp [Subject.parts]) (visited_expr right hr a ha)
  | .var name, t, ht, a, ha => by
    simp only [checkExpr, bind_eq_ok, pure_eq_ok] at ht
    obtain ⟨target, -, rfl⟩ := ht
    simp only [Typed.Expr.applications, List.not_mem_nil] at ha
  | .field receiver name, t, ht, a, ha => by
    simp only [checkExpr, bind_eq_ok, pure_eq_ok] at ht
    obtain ⟨receiver', he, target, -, rfl⟩ := ht
    rw [Typed.Expr.applications] at ha
    exact visited_of_part (List.mem_singleton_self _) (visited_expr receiver he a ha)
  | .call name es, t, ht, a, ha => by
    simp only [checkExpr, bind_eq_ok, pure_eq_ok] at ht
    obtain ⟨ts, hs, f, hf, -, -, rfl⟩ := ht
    rw [Typed.Expr.applications, List.mem_cons] at ha
    rcases ha with rfl | ha
    · exact ⟨_, .refl, .call hs hf⟩
    · exact visited_of_part (List.mem_singleton_self _) (visited_exprs es hs a ha)
  | .method receiver name es, t, ht, a, ha => by
    simp only [checkExpr, bind_eq_ok, pure_eq_ok] at ht
    obtain ⟨receiver', he, ts, hs, method, hm, -, -, rfl⟩ := ht
    rw [Typed.Expr.applications, List.mem_cons, List.mem_append] at ha
    rcases ha with rfl | ha | ha
    · exact ⟨_, .refl, .method he hs hm⟩
    · exact visited_of_part (by simp [Subject.parts]) (visited_expr receiver he a ha)
    · exact visited_of_part (by simp [Subject.parts]) (visited_exprs es hs a ha)

theorem visited_exprs : ∀ (es : List Source.Expr) {ts : List Typed.Expr},
    checkExprs r c es = .ok ts → ∀ a ∈ Typed.exprsApplications ts, Visited r ⟨.exprs es, c⟩ a
  | [], ts, hs, a, ha => by
    cases hs
    simp only [Typed.exprsApplications, List.not_mem_nil] at ha
  | e :: es, ts, hs, a, ha => by
    simp only [checkExprs, bind_eq_ok, pure_eq_ok] at hs
    obtain ⟨t, ht, ts', hs, rfl⟩ := hs
    rw [Typed.exprsApplications, List.mem_append] at ha
    rcases ha with ha | ha
    · exact visited_of_part (by simp [Subject.parts]) (visited_expr e ht a ha)
    · exact visited_of_part (by simp [Subject.parts]) (visited_exprs es hs a ha)

end

/-! ## Statements -/

theorem gives_expression_iff {e : Source.Expr} {t : Typed.Expr} :
    Gives (expression r e) c t c' ↔ checkExpr r c e = .ok t ∧ c = c' := by
  rw [Gives, run_expression, Prod.mk.injEq]

theorem visited_condition {e : Source.Expr} {t : Typed.Expr}
    (h : Gives (checkCondition r e) c t c') :
    ∀ a ∈ t.applications, Visited r ⟨.expr e, c⟩ a := by
  simp only [checkCondition, gives_bind, gives_expression_iff, gives_pure] at h
  obtain ⟨t', _, ⟨ht, -⟩, _, _, -, rfl, -⟩ := h
  exact visited_expr e ht

theorem visited_declaration {name : String} {type : Option String} {value : Option Source.Expr}
    {p : Variable × Option Typed.Expr} (h : Gives (checkDeclaration r name type value) c p c') :
    ∀ a ∈ p.2.elim [] Typed.Expr.applications, ∃ e ∈ value, Visited r ⟨.expr e, c⟩ a := by
  simp only [checkDeclaration, gives_bind, gives_typeNamed] at h
  obtain ⟨declared, _, ⟨-, rfl⟩, value', _, hvalue, h⟩ := h
  -- a declaration passes its value on, wherever it has its type from
  have hp : p.2 = value' := by
    rcases declared with _ | d <;> rcases value' with _ | t <;>
      simp only [gives_bind, gives_throw, gives_pure] at h
    · obtain ⟨_, _, hfalse, -⟩ := h
      exact hfalse.elim
    · obtain ⟨_, _, -, _, _, -, rfl, -⟩ := h
      rfl
    · obtain ⟨_, _, -, _, _, -, rfl, -⟩ := h
      rfl
    · obtain ⟨_, _, -, _, _, -, _, _, -, rfl, -⟩ := h
      rfl
  rw [hp]
  intro a ha
  rcases gives_mapM_option.1 hvalue with ⟨-, rfl, -⟩ | ⟨e, t, rfl, rfl, ht⟩
  · cases ha
  · exact ⟨e, rfl, visited_expr e (gives_expression_iff.1 ht).1 a ha⟩

mutual

/-- Each statement is checked in the state that those before it leave, which `after` names. -/
theorem visited_stmt : ∀ (s : Source.Stmt) {c c' : Checker} {t : Typed.Stmt},
    Gives (checkStmt r s) c t c' → ∀ a ∈ t.applications, Visited r ⟨.stmt s, c⟩ a
  | .expression e, c, c', t, h, a, ha => by
    unfold checkStmt at h
    split at h
    · cases gives_throw.1 h
    simp only [gives_bind, gives_expression_iff, gives_pure] at h
    obtain ⟨t', _, ⟨ht, -⟩, rfl, -⟩ := h
    rw [Typed.Stmt.applications] at ha
    exact visited_of_part (List.mem_singleton_self _) (visited_expr e ht a ha)
  | .declaration name type value, c, c', t, h, a, ha => by
    simp only [checkStmt, gives_bind, gives_pure] at h
    obtain ⟨p, _, hp, rfl, -⟩ := h
    rw [Typed.Stmt.applications] at ha
    obtain ⟨e, rfl, hvisited⟩ := visited_declaration hp a ha
    exact visited_of_part (List.mem_singleton_self _) hvisited
  | .assignment target value, c, c', t, h, a, ha => by
    unfold checkStmt at h
    split at h
    · cases gives_throw.1 h
    simp only [gives_bind, gives_expression_iff, gives_pure] at h
    obtain ⟨target', _, ⟨ht, rfl⟩, value', _, ⟨hv, -⟩, _, _, -, rfl, -⟩ := h
    rw [Typed.Stmt.applications, List.mem_append] at ha
    rcases ha with ha | ha
    · exact visited_of_part (by simp [Subject.parts]) (visited_expr target ht a ha)
    · exact visited_of_part (by simp [Subject.parts]) (visited_expr value hv a ha)
  | .conditional condition thenBody elseBody, c, c', t, h, a, ha => by
    simp only [checkStmt, gives_bind, gives_requireBody, gives_pure] at h
    obtain ⟨t', _, hc, _, _, ⟨-, rfl⟩, ts, _, hthen, ts', _, helse, rfl, -⟩ := h
    have hcondition := after_of_gives hc
    have hafter := after_of_gives hthen
    subst hcondition hafter
    -- only now, as `Leads.elseBody` starts behind the whole scope of the first body
    rw [gives_inScope] at hthen helse
    obtain ⟨_, hthen, -⟩ := hthen
    obtain ⟨_, helse, -⟩ := helse
    rw [Typed.Stmt.applications, List.mem_append, List.mem_append] at ha
    rcases ha with ha | ha | ha
    · exact visited_of_part (List.mem_singleton_self _) (visited_condition hc a ha)
    · exact Leads.thenBody.visited (visited_block thenBody hthen a ha)
    · exact Leads.elseBody.visited (visited_block elseBody helse a ha)
  | .each name items body, c, c', t, h, a, ha => by
    simp only [checkStmt, gives_bind, gives_lift, gives_requireBody, gives_inScope, gives_pure] at h
    obtain ⟨t', _, hitems, _, _, ⟨-, rfl⟩, _, _, ⟨-, rfl⟩, ts, _, ⟨_, hround, -⟩, rfl, -⟩ := h
    obtain ⟨_, _, hdefine, hbody⟩ := hround
    have hafter := after_of_gives hitems
    have hdefined := after_of_gives hdefine
    subst hafter hdefined
    rw [Typed.Stmt.applications, List.mem_append] at ha
    rcases ha with ha | ha
    · have ht := (gives_expression_iff.1 hitems).1
      exact visited_of_part (List.mem_singleton_self _) (visited_expr items ht a ha)
    · exact Leads.round.visited (visited_block body hbody a ha)
  | .loop condition body, c, c', t, h, a, ha => by
    simp only [checkStmt, gives_bind, gives_inScope, gives_pure] at h
    obtain ⟨t', _, hc, ts, _, ⟨_, hbody, -⟩, rfl, -⟩ := h
    have hcondition := after_of_gives hc
    subst hcondition
    rw [Typed.Stmt.applications, List.mem_append] at ha
    rcases ha with ha | ha
    · exact visited_of_part (List.mem_singleton_self _) (visited_condition hc a ha)
    · exact Leads.loopBody.visited (visited_block body hbody a ha)
  | .ret value, c, c', t, h, a, ha => by
    simp only [checkStmt, gives_bind, gives_get] at h
    obtain ⟨_, _, ⟨rfl, rfl⟩, h⟩ := h
    split at h
    · cases gives_throw.1 h
    simp only [gives_bind, gives_expression_iff] at h
    obtain ⟨t', _, ⟨ht, rfl⟩, h⟩ := h
    split at h
    · obtain ⟨rfl, -⟩ := gives_pure.1 h
      rw [Typed.Stmt.applications] at ha
      exact visited_of_part (List.mem_singleton_self _) (visited_expr value ht a ha)
    · cases gives_throw.1 h

theorem visited_block : ∀ (ss : List Source.Stmt) {c c' : Checker} {ts : List Typed.Stmt},
    Gives (checkBlock r ss) c ts c' →
      ∀ a ∈ Typed.blockApplications ts, Visited r ⟨.block ss, c⟩ a
  | [], c, c', ts, h, a, ha => by
    rw [checkBlock, gives_pure] at h
    obtain ⟨rfl, -⟩ := h
    simp only [Typed.blockApplications, List.not_mem_nil] at ha
  | s :: ss, c, c', ts, h, a, ha => by
    simp only [checkBlock, gives_bind, gives_pure] at h
    obtain ⟨t, _, hs, ts', _, hss, rfl, -⟩ := h
    have hafter := after_of_gives hs
    subst hafter
    rw [Typed.blockApplications, List.mem_append] at ha
    rcases ha with ha | ha
    · exact visited_of_part (List.mem_singleton_self _) (visited_stmt s hs a ha)
    · exact Leads.nextStmt.visited (visited_block ss hss a ha)

end

/-! ## Programs -/

theorem visited_field {f : Source.Field} {t : Typed.Field} (h : Gives (checkField r f) c t c') :
    ∀ a ∈ t.applications, Visited r ⟨.field f, c⟩ a := by
  simp only [checkField, gives_bind, gives_pure] at h
  obtain ⟨p, _, hp, rfl, -⟩ := h
  intro a ha
  obtain ⟨e, he, hvisited⟩ := visited_declaration hp a ha
  exact visited_of_part (by simp [Subject.parts, Option.mem_def.1 he]) hvisited

theorem visited_fields : ∀ (fs : List Source.Field) {c c' : Checker} {ts : List Typed.Field},
    Gives (fs.mapM (checkField r)) c ts c' →
      ∀ a ∈ ts.flatMap Typed.Field.applications, Visited r ⟨.fields fs, c⟩ a
  | [], c, c', ts, h, a, ha => by
    rw [List.mapM_nil, gives_pure] at h
    obtain ⟨rfl, -⟩ := h
    cases ha
  | f :: fs, c, c', ts, h, a, ha => by
    simp only [List.mapM_cons, gives_bind, gives_pure] at h
    obtain ⟨t, _, hf, ts', _, hfs, rfl, -⟩ := h
    have hafter := after_of_gives hf
    subst hafter
    rw [List.flatMap_cons, List.mem_append] at ha
    rcases ha with ha | ha
    · exact visited_of_part (List.mem_singleton_self _) (visited_field hf a ha)
    · exact Leads.nextField.visited (visited_fields fs hfs a ha)

theorem visited_method {m : Source.Method} {t : Typed.Method}
    (h : Gives (checkMethod r m) c t c') : ∀ a ∈ t.applications, Visited r ⟨.method m, c⟩ a := by
  unfold checkMethod at h
  split at h
  · cases gives_throw.1 h
  simp only [gives_bind, gives_typesNamed, gives_lift, gives_inMethod, gives_inScope,
    gives_pure] at h
  obtain ⟨types, _, ⟨-, rfl⟩, result, _, ⟨-, rfl⟩, _, _, hdefine, body, _, ⟨_, ⟨_, h, -⟩, -⟩,
    rfl, -⟩ := h
  obtain ⟨_, _, hparameters, hbody⟩ := h
  have hafter := after_of_gives hdefine
  have hdefined := after_of_gives hparameters
  subst hafter hdefined
  exact fun a ha => Leads.body.visited (visited_block m.body hbody a ha)

theorem visited_methods : ∀ (ms : List Source.Method) {c c' : Checker} {ts : List Typed.Method},
    Gives (ms.mapM (checkMethod r)) c ts c' →
      ∀ a ∈ ts.flatMap Typed.Method.applications, Visited r ⟨.methods ms, c⟩ a
  | [], c, c', ts, h, a, ha => by
    rw [List.mapM_nil, gives_pure] at h
    obtain ⟨rfl, -⟩ := h
    cases ha
  | m :: ms, c, c', ts, h, a, ha => by
    simp only [List.mapM_cons, gives_bind, gives_pure] at h
    obtain ⟨t, _, hm, ts', _, hms, rfl, -⟩ := h
    have hafter := after_of_gives hm
    subst hafter
    rw [List.flatMap_cons, List.mem_append] at ha
    rcases ha with ha | ha
    · exact visited_of_part (List.mem_singleton_self _) (visited_method hm a ha)
    · exact Leads.nextMethod.visited (visited_methods ms hms a ha)

theorem visited_program {p : Source.Program} {t : Typed.Program}
    (h : Gives (checkProgram r p) c t c') : ∀ a ∈ t.applications, Visited r ⟨.program p, c⟩ a := by
  unfold checkProgram at h
  split at h
  · cases gives_throw.1 h
  simp only [gives_bind, gives_pure] at h
  obtain ⟨fields, _, hfields, methods, _, hmethods, rfl, -⟩ := h
  have hafter := after_of_gives hfields
  subst hafter
  intro a ha
  rcases List.mem_append.1 ha with ha | ha
  · exact visited_of_part (List.mem_singleton_self _) (visited_fields p.fields hfields a ha)
  · exact Leads.methods.visited (visited_methods p.methods hmethods a ha)

/-- A check that succeeds has got to every call in what it gives. -/
theorem visited_of_run (x : Subject) {t : x.Tree} (h : ((x.check r).run c).1 = .ok t) :
    ∀ a ∈ x.applications t, Visited r ⟨x, c⟩ a := by
  obtain ⟨c', h⟩ := run_eq_ok.1 h
  cases x with
  | expr e => exact visited_expr e (gives_expression_iff.1 h).1
  | exprs es =>
    obtain ⟨_, _, hget, hs⟩ := gives_bind.1 h
    obtain ⟨rfl, -⟩ := gives_get.1 hget
    exact visited_exprs es (gives_lift.1 hs).1
  | stmt s => exact visited_stmt s h
  | block ss => exact visited_block ss h
  | field f => exact visited_field h
  | fields fs => exact visited_fields fs h
  | method m => exact visited_method h
  | methods ms => exact visited_methods ms h
  | program p => exact visited_program h

end Typing

end TypedImp
