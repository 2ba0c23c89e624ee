import TypedImp.Proofs.Machine.Evaluation
import TypedImp.Proofs.Typing.Statement

/-!
# Execution keeps its types

A well typed statement, executed where its environment is, leaves the machine in its plan with the
variable that the statement declares, or returns a value that the result type allows for
(`safe_execute`). What a scope declares is gone when it is left (`safe_scoped`).
-/

namespace TypedImp

namespace Discipline

open Exec Source

variable {r : Registry} (D : Discipline r) {x : Context} {serves : Function → Callable → Prop}
  {top : Scope Variable Callable} {plan : Plan} {s : ScopeId} {env : Environment} {m : Machine}

/-! ## Scopes -/

theorem ne_root_of_next (hm : D.Stands top plan s m) : Machine.root ≠ plan.next := by
  intro h
  have hroot := hm.rooted
  rw [h, Arena.get?_next] at hroot
  cases hroot

theorem stands_entered (hm : D.Stands top plan s m) (parent : ScopeId) :
    D.Stands top (plan.enter (some parent)) plan.next (entered m parent) where
  fits := hm.fits.enter (some parent)
  current := hm.fits.next_eq.symm
  rooted := by
    rw [Arena.get?_enter, if_neg (D.ne_root_of_next hm)]
    exact hm.rooted

theorem stands_left {parent : ScopeId} {vs : List Variable} {m' : Machine}
    (hm : D.Stands top plan s m)
    (hm' : D.Stands top (Plan.declareAll (plan.enter (some parent)) plan.next vs) plan.next m') :
    D.Stands top plan s (left m m') where
  fits := by
    have hexit := hm'.fits.exit plan.next
    rw [Plan.leave, hm.fits.next_eq] at hexit
    exact hexit
  current := hm.current
  rooted := hm.rooted

theorem stands_declare {v : Variable} (hs : s ≠ Machine.root) (hm : D.Stands top plan s m)
    {scopes : Arena Value Callable}
    (h : ({ m with scopes } : Machine).Stands D.holds (plan.declare s v) s) :
    D.Stands top (plan.declare s v) s { m with scopes } where
  toStands := h
  rooted := by
    have hget : (plan.declare s v).get? Machine.root = plan.get? Machine.root :=
      Plan.get?_declareAll_of_ne hs.symm [v]
    exact hget.trans hm.rooted

theorem safe_defineVariable {v : Variable} {value : Value} (hs : s ≠ Machine.root)
    (hp : plan.Place serves s env) (hm : D.Stands top plan s m) (fresh : env.Fresh v.name)
    (hv : D.holds v.type value) :
    Safe D.fails (Exec.defineVariable v.name value) m fun _ m' =>
      D.Stands top (plan.declare s v) s m' := by
  obtain ⟨scopes, hdef, hstands⟩ := hm.define hp fresh hv
  refine safe_get_bind (safe_lift_bind ?_)
  rw [hdef]
  exact safe_set (D.stands_declare hs hm hstands)

/-- What runs in a scope of its own leaves the machine in its plan. -/
theorem safe_scoped {α : Type} {parent : ScopeId} {body : Exec α} {post : α → Prop}
    (hm : D.Stands top plan s m)
    (h : Safe D.fails body (entered m parent) fun a m' => post a ∧
      ∃ vs, D.Stands top (Plan.declareAll (plan.enter (some parent)) plan.next vs) plan.next m') :
    Safe D.fails (inScope parent body) m fun a m' => post a ∧ D.Stands top plan s m' := by
  refine safe_inScope (h.mono ?_)
  rintro a m' ⟨hpost, vs, hm'⟩
  exact ⟨hpost, D.stands_left hm hm'⟩

/-! ## Statements -/

def FlowHolds (env : Environment) : Flow → Prop
  | .normal => True
  | .returned v => ∃ type, env.result = some type ∧ D.holds type v

/-- Ends in the plan with the given variables added, or returns with some variables added. -/
abbrev Executes (top : Scope Variable Callable) (plan : Plan) (s : ScopeId) (env : Environment)
    (step : Exec Flow) (m : Machine) (declared : List Variable) : Prop :=
  Safe D.fails step m fun flow m' => D.FlowHolds env flow ∧
    ∃ vs, D.Stands top (plan.declareAll s vs) s m' ∧ (flow = .normal → vs = declared)

theorem Executes.of_scoped {step : Exec Flow}
    (h : Safe D.fails step m fun flow m' => D.FlowHolds env flow ∧ D.Stands top plan s m') :
    D.Executes top plan s env step m [] :=
  h.mono fun _ _ ⟨hflow, hm⟩ => ⟨hflow, [], hm, fun _ => rfl⟩

theorem safe_inBlock {body : Exec Flow} {declared : List Variable} (hm : D.Stands top plan s m)
    (h : ∀ m, D.Stands top (plan.enter (some s)) plan.next m →
      D.Executes top (plan.enter (some s)) plan.next env.nest body m declared) :
    Safe D.fails (inBlock body) m fun flow m' => D.FlowHolds env flow ∧ D.Stands top plan s m' := by
  refine safe_get_bind ?_
  rw [hm.current]
  refine D.safe_scoped hm ((h _ (D.stands_entered hm s)).mono ?_)
  rintro flow m' ⟨hflow, vs, hm', -⟩
  exact ⟨hflow, vs, hm'⟩

theorem declareAll_result : ∀ (vs : List Variable) (env : Environment),
    (env.declareAll vs).result = env.result
  | [], _ => rfl
  | v :: vs, env => declareAll_result vs (env.declare v)

/-- The variable of a declaration is fresh, and its value, or nil without one, is allowed for by its
type. -/
theorem safe_initialValue (hx : x.registry = r) (hserves : D.Serving x top serves) {name : String}
    {type : Option String} {value : Option Expr} {target : Variable} {value' : Option Typed.Expr}
    (ht : DeclarationTyped r env name type value target value')
    (hd : DeclarationWithin D.dialect type value) (hp : plan.Place serves s env)
    (hm : D.Stands top plan s m) :
    env.Fresh target.name ∧ D.Evaluates top plan s (x.initialValue value') m target.type := by
  cases ht with
  | typed hn fresh =>
    refine ⟨fresh, safe_pure ⟨D.holds_omitted (hd.2.2 rfl) ?_, hm⟩⟩
    exact D.admits_of_name (hd.1 _ rfl) hn
  | valued hv fresh => exact ⟨fresh, D.safe_evaluate hx hserves _ hv (hd.2.1 _ rfl) hp hm⟩
  | both hn hv h fresh =>
    refine ⟨fresh, (D.safe_evaluate hx hserves _ hv (hd.2.1 _ rfl) hp hm).mono ?_⟩
    rintro v m' ⟨hholds, hm'⟩
    exact ⟨D.holds_of_assignable h (D.admits_of_name (hd.1 _ rfl) hn) hholds, hm'⟩

theorem safe_condition (hx : x.registry = r) (hserves : D.Serving x top serves) {e : Expr}
    {t : Typed.Expr} (ht : ExprTyped r env e t) (h : Assignable .boolean t.type)
    (hd : e.Within D.dialect) (hp : plan.Place serves s env) (hm : D.Stands top plan s m) :
    Safe D.fails (x.condition t) m fun _ m' => D.Stands top plan s m' := by
  have hbool : t.type = .boolean := by
    generalize t.type = a at h
    cases h
    rfl
  refine safe_bind (D.safe_evaluate hx hserves e ht hd hp hm) fun v m' h => ?_
  rw [hbool] at h
  exact safe_lift ((D.truth h.1).mono fun _ _ => h.2)

theorem eq_integerIterable {type : TypeId} (h : Assignable .integerIterable type) :
    type = .integerIterable := by
  cases h
  rfl

theorem safe_assign (hx : x.registry = r) (hserves : D.Serving x top serves) {target value : Expr}
    {target' value' : Typed.Expr} (access : IsAccess target) (ht : ExprTyped r env target target')
    (hv : ExprTyped r env value value') (h : Assignable target'.type value'.type)
    (hd : target.TargetWithin D.dialect) (hdv : value.Within D.dialect)
    (hp : plan.Place serves s env) (hm : D.Stands top plan s m) :
    Safe D.fails (x.assign value' target') m fun _ m' => D.Stands top plan s m' := by
  cases access with
  | var name =>
    cases ht with
    | @var _ v hfind =>
      refine safe_bind (D.safe_evaluate hx hserves value hv hdv hp hm) fun w m₁ hw => ?_
      obtain ⟨hw, hm₁⟩ := hw
      obtain ⟨old, -, hold⟩ := hm₁.lookupVariable hp hfind
      have hholds : D.holds v.type w := D.holds_of_assignable h (D.admits_of_holds hold) hw
      obtain ⟨old, scopes, hset, hstands⟩ := hm₁.assign hp hfind hholds
      refine safe_get_bind (safe_get_bind (safe_lift_bind ?_))
      rw [hset]
      exact safe_set ⟨hstands, hm₁.rooted⟩
  | field receiver name =>
    cases ht with
    | field hr hfield =>
      refine safe_bind (D.safe_evaluate hx hserves receiver hr hd.2 hp hm) fun o m₁ ho => ?_
      obtain ⟨ho, hm₁⟩ := ho
      refine safe_bind (D.safe_evaluate hx hserves value hv hdv hp hm₁) fun w m₂ _ => ?_
      refine safe_lift_bind ?_
      rw [Machine.memberScope, D.members ho]
      exact D.memberTarget _ hd.1

/-- A loop variable and what the body declares are in one scope. -/
theorem safe_round {serves : Function → Callable → Prop} {name : String} {value : Value}
    {body : Exec Flow} {declared : List Variable} (hp : plan.Place serves s env)
    (hm : D.Stands top plan s m) (hv : D.holds .integer value)
    (h : ∀ m,
      D.Stands top (Plan.declare (plan.enter (some s)) plan.next (.plain name .integer)) plan.next
        m →
      D.Executes top (Plan.declare (plan.enter (some s)) plan.next (.plain name .integer)) plan.next
        (env.nest.declare (.plain name .integer)) body m declared) :
    Safe D.fails (inBlock do Exec.defineVariable name value; body) m fun flow m' =>
      D.FlowHolds env flow ∧ D.Stands top plan s m' := by
  have hne : plan.next ≠ Machine.root := (D.ne_root_of_next hm).symm
  refine @safe_inBlock r D top plan s env m _ (.plain name .integer :: declared) hm fun m hm => ?_
  refine safe_bind (D.safe_defineVariable hne hp.enter hm (env.fresh_nest name)
    (v := .plain name .integer) hv) fun _ m hm => (h m hm).mono ?_
  rintro flow m' ⟨hflow, vs, hm', hvs⟩
  exact ⟨hflow, .plain name .integer :: vs, hm', fun hn => by rw [hvs hn]⟩

mutual

/-- A well typed statement declares its variable, or returns a value that the result type allows
for. -/
theorem safe_execute (hx : x.registry = r) (hserves : D.Serving x top serves) :
    ∀ (st : Stmt) {t : Typed.Stmt} {plan : Plan} {s : ScopeId} {env : Environment} {m : Machine},
      StmtTyped r env st t → st.Within D.dialect → plan.Place serves s env → s ≠ Machine.root →
      D.Stands top plan s m →
      D.Executes top plan s env (x.execute t) m t.declared.toList
  | .expression e, t, plan, s, env, m, ht, hd, hp, hs, hm => by
    cases ht with
    | expression _ h =>
      unfold Context.execute
      refine safe_bind (D.safe_evaluate hx hserves e h hd hp hm) fun _ m' ⟨_, hm'⟩ => ?_
      exact safe_pure ⟨trivial, [], hm', fun _ => rfl⟩
  | .declaration name type value, t, plan, s, env, m, ht, hd, hp, hs, hm => by
    cases ht with
    | declaration h =>
      obtain ⟨fresh, hvalue⟩ := D.safe_initialValue hx hserves h hd hp hm
      unfold Context.execute
      refine safe_bind hvalue fun v m₁ ⟨hv, hm₁⟩ => ?_
      refine safe_bind (D.safe_defineVariable hs hp hm₁ fresh hv) fun _ m₂ hm₂ => ?_
      exact safe_pure ⟨trivial, [_], hm₂, fun _ => rfl⟩
  | .assignment target value, t, plan, s, env, m, ht, hd, hp, hs, hm => by
    cases ht with
    | assignment access ht hv h =>
      unfold Context.execute
      refine safe_bind (D.safe_assign hx hserves access ht hv h hd.1 hd.2 hp hm) fun _ m' hm' => ?_
      exact safe_pure ⟨trivial, [], hm', fun _ => rfl⟩
  | .conditional condition thenBody elseBody, t, plan, s, env, m, ht, hd, hp, hs, hm => by
    unfold Stmt.Within at hd
    cases ht with
    | conditional hc h _ ht he =>
      unfold Context.execute
      refine safe_bind (D.safe_condition hx hserves hc h hd.1 hp hm) fun b m' hm' => ?_
      have hne : plan.next ≠ Machine.root := (D.ne_root_of_next hm).symm
      split_ifs
      · exact Executes.of_scoped D (D.safe_inBlock hm' fun m hm =>
          safe_executeBlock hx hserves thenBody ht hd.2.1 hp.enter hne hm)
      · exact Executes.of_scoped D (D.safe_inBlock hm' fun m hm =>
          safe_executeBlock hx hserves elseBody he hd.2.2 hp.enter hne hm)
  | .each name items body, t, plan, s, env, m, ht, hd, hp, hs, hm => by
    unfold Stmt.Within at hd
    cases ht with
    | @each _ _ _ _ _ body' hi h _ hb =>
      unfold Context.execute
      refine safe_bind (D.safe_evaluate hx hserves items hi hd.1 hp hm) fun v m₁ ⟨hv, hm₁⟩ => ?_
      rw [eq_integerIterable h] at hv
      have hne : plan.next ≠ Machine.root := (D.ne_root_of_next hm).symm
      split
      · rename_i values hvalues
        refine Executes.of_scoped D (safe_forEach trivial (fun w hw m hm => ?_) hm₁)
        exact D.safe_round hp hm (D.items hv hvalues w hw) fun m hm =>
          safe_executeBlock hx hserves body hb hd.2 (hp.enter.declare _) hne hm
      · rename_i hother
        exact safe_throw (D.notItems hv hother)
  | .loop condition body, t, plan, s, env, m, ht, hd, hp, hs, hm => by
    unfold Stmt.Within at hd
    cases ht with
    | loop hc h hb =>
      unfold Context.execute
      have hne : plan.next ≠ Machine.root := (D.ne_root_of_next hm).symm
      refine Executes.of_scoped D (safe_repeatWhile trivial ?_ ?_ hm)
      · exact fun m hm => D.safe_condition hx hserves hc h hd.1 hp hm
      · exact fun m hm => D.safe_inBlock hm fun m hm =>
          safe_executeBlock hx hserves body hb hd.2 hp.enter hne hm
  | .ret value, t, plan, s, env, m, ht, hd, hp, hs, hm => by
    cases ht with
    | ret hv h =>
      unfold Context.execute
      refine safe_bind (D.safe_evaluate hx hserves value hv hd hp hm) fun v m' ⟨hholds, hm'⟩ => ?_
      exact safe_pure ⟨⟨_, h, hholds⟩, [], hm', fun h => nomatch h⟩

theorem safe_executeBlock (hx : x.registry = r) (hserves : D.Serving x top serves) :
    ∀ (ss : List Stmt) {ts : List Typed.Stmt} {plan : Plan} {s : ScopeId} {env : Environment}
      {m : Machine}, BlockTyped r env ss ts → BlockWithin D.dialect ss →
      plan.Place serves s env → s ≠ Machine.root → D.Stands top plan s m →
      D.Executes top plan s env (x.executeBlock ts) m (Typing.declarations ts)
  | [], ts, plan, s, env, m, ht, _, _, _, hm => by
    cases ht
    unfold Context.executeBlock
    exact safe_pure ⟨trivial, [], hm, fun _ => rfl⟩
  | st :: ss, ts, plan, s, env, m, ht, hd, hp, hs, hm => by
    unfold BlockWithin at hd
    cases ht with
    | @cons _ _ t _ ts h hrest =>
      unfold Context.executeBlock
      refine safe_bind (safe_execute hx hserves st h hd.1 hp hs hm) ?_
      rintro flow m₁ ⟨hflow, vs, hm₁, hvs⟩
      cases flow with
      | returned v => exact safe_pure ⟨hflow, vs, hm₁, fun h => nomatch h⟩
      | normal =>
        obtain rfl := hvs rfl
        refine (safe_executeBlock hx hserves ss hrest hd.2 (hp.declareAll _) hs hm₁).mono ?_
        rintro flow m₂ ⟨hflow, ws, hm₂, hws⟩
        refine ⟨?_, t.declared.toList ++ ws, ?_, fun hn => ?_⟩
        · cases flow with
          | normal => trivial
          | returned v =>
            obtain ⟨type, hresult, hholds⟩ := hflow
            exact ⟨type, (declareAll_result _ env).symm.trans hresult, hholds⟩
        · rw [Plan.declareAll_append]
          exact hm₂
        · rw [hws hn, Typing.declarations_cons]

end

end Discipline

end TypedImp
