import Mathlib.Logic.Relation
import TypedImp.Proofs.Machine.Running

/-!
# The parts of a run

A run of a program consists of evaluating its expressions, each in the machine that what ran before
it has left (`Moment.Part`). In a run of a well typed program every part is well typed where it is
begun (`Discipline.sound_of_parts`), so every expression that is evaluated gives a value that its
type allows for (`Discipline.holds_of_parts`).
-/

namespace TypedImp

/-- What a run can be about to do. -/
inductive Task where
  | expr (e : Typed.Expr)
  | exprs (es : List Typed.Expr)
  | stmt (s : Typed.Stmt)
  | block (ss : List Typed.Stmt)
  | rounds (target : Variable) (items : List Value) (body : List Typed.Stmt)
  | body (method : Typed.Method) (closure : ScopeId) (values : List Value)
  | program (p : Typed.Program)

/-- A machine that is about to do something, with calls nested `depth` deep at most. -/
structure Moment where
  depth : Nat
  task : Task
  machine : Machine

namespace Moment

open Exec

variable (r : Registry) (rounds : Nat)

/-- What is about to be done at the first moment leads to the second one, with nothing in between
that has parts of its own and is not done. -/
inductive Part : Moment → Moment → Prop
  | inner {d : Nat} {m : Machine} {e : Typed.Expr} {type : TypeId} :
      Part ⟨d, .expr (.group e type), m⟩ ⟨d, .expr e, m⟩
  | left {d : Nat} {m : Machine} {operator : Operator} {e e' : Typed.Expr} {type : TypeId} :
      Part ⟨d, .expr (.binary operator e e' type), m⟩ ⟨d, .expr e, m⟩
  | right {d : Nat} {m m₁ : Machine} {operator : Operator} {e e' : Typed.Expr} {type : TypeId}
      {v : Value} (h : (evaluate r ⟨d, rounds⟩ e).run m = some (.ok v, m₁))
      (undecided : ∀ connective, operator = .connective connective →
        ∃ b, v.datum.toBool = .ok b ∧ connective.decidedBy b = false) :
      Part ⟨d, .expr (.binary operator e e' type), m⟩ ⟨d, .expr e', m₁⟩
  | receiver {d : Nat} {m : Machine} {e : Typed.Expr} {target : Variable} {type : TypeId} :
      Part ⟨d, .expr (.field e target type), m⟩ ⟨d, .expr e, m⟩
  | arguments {d : Nat} {m : Machine} {f : Function} {es : List Typed.Expr} {type : TypeId} :
      Part ⟨d, .expr (.call f es type), m⟩ ⟨d, .exprs es, m⟩
  | called {d : Nat} {m m₁ : Machine} {f : Function} {es : List Typed.Expr} {type : TypeId}
      {values : List Value} {method : Typed.Method} {closure : ScopeId}
      (h : ((Context.within r ⟨d, rounds⟩).evaluateAll es).run m = some (.ok values, m₁))
      (hf : m₁.lookupFunction f.name values.length = .ok (.method method closure)) :
      Part ⟨d, .expr (.call f es type), m⟩ ⟨d, .body method closure values, m₁⟩
  | methodReceiver {d : Nat} {m : Machine} {e : Typed.Expr} {f : Function} {es : List Typed.Expr}
      {type : TypeId} : Part ⟨d, .expr (.method e f es type), m⟩ ⟨d, .expr e, m⟩
  | methodArguments {d : Nat} {m m₁ : Machine} {e : Typed.Expr} {f : Function}
      {es : List Typed.Expr} {type : TypeId} {v : Value}
      (h : (evaluate r ⟨d, rounds⟩ e).run m = some (.ok v, m₁)) :
      Part ⟨d, .expr (.method e f es type), m⟩ ⟨d, .exprs es, m₁⟩
  | methodCalled {d : Nat} {m m₁ m₂ : Machine} {e : Typed.Expr} {f : Function}
      {es : List Typed.Expr} {type : TypeId} {v : Value} {values : List Value}
      {method : Typed.Method} {closure : ScopeId}
      (h : (evaluate r ⟨d, rounds⟩ e).run m = some (.ok v, m₁))
      (hs : ((Context.within r ⟨d, rounds⟩).evaluateAll es).run m₁ = some (.ok values, m₂))
      (hf : m₂.resolveMethod r v f.name values.length = .ok (.method method closure)) :
      Part ⟨d, .expr (.method e f es type), m⟩ ⟨d, .body method closure (v :: values), m₂⟩
  | first {d : Nat} {m : Machine} {e : Typed.Expr} {es : List Typed.Expr} :
      Part ⟨d, .exprs (e :: es), m⟩ ⟨d, .expr e, m⟩
  | rest {d : Nat} {m m₁ : Machine} {e : Typed.Expr} {es : List Typed.Expr} {v : Value}
      (h : (evaluate r ⟨d, rounds⟩ e).run m = some (.ok v, m₁)) :
      Part ⟨d, .exprs (e :: es), m⟩ ⟨d, .exprs es, m₁⟩
  | body {d : Nat} {m m₁ : Machine} {method : Typed.Method} {closure : ScopeId}
      {values : List Value} (hl : method.parameters.length = values.length)
      (h : (defineParameters method.parameters values).run (entered m closure) =
        some (.ok ⟨⟩, m₁)) :
      Part ⟨d + 1, .body method closure values, m⟩ ⟨d, .block method.body, m₁⟩
  | expression {d : Nat} {m : Machine} {e : Typed.Expr} :
      Part ⟨d, .stmt (.expression e), m⟩ ⟨d, .expr e, m⟩
  | declared {d : Nat} {m : Machine} {target : Variable} {e : Typed.Expr} :
      Part ⟨d, .stmt (.declaration target (some e)), m⟩ ⟨d, .expr e, m⟩
  | assigned {d : Nat} {m : Machine} {target : Variable} {type : TypeId} {e : Typed.Expr} :
      Part ⟨d, .stmt (.assignment (.var target type) e), m⟩ ⟨d, .expr e, m⟩
  | object {d : Nat} {m : Machine} {e e' : Typed.Expr} {target : Variable} {type : TypeId} :
      Part ⟨d, .stmt (.assignment (.field e target type) e'), m⟩ ⟨d, .expr e, m⟩
  | memberValue {d : Nat} {m m₁ : Machine} {e e' : Typed.Expr} {target : Variable}
      {type : TypeId} {v : Value} (h : (evaluate r ⟨d, rounds⟩ e).run m = some (.ok v, m₁)) :
      Part ⟨d, .stmt (.assignment (.field e target type) e'), m⟩ ⟨d, .expr e', m₁⟩
  | condition {d : Nat} {m : Machine} {e : Typed.Expr} {ss ss' : List Typed.Stmt} :
      Part ⟨d, .stmt (.conditional e ss ss'), m⟩ ⟨d, .expr e, m⟩
  | thenBody {d : Nat} {m m₁ : Machine} {e : Typed.Expr} {ss ss' : List Typed.Stmt}
      (h : ((Context.within r ⟨d, rounds⟩).condition e).run m = some (.ok true, m₁)) :
      Part ⟨d, .stmt (.conditional e ss ss'), m⟩ ⟨d, .block ss, entered m₁ m₁.current⟩
  | elseBody {d : Nat} {m m₁ : Machine} {e : Typed.Expr} {ss ss' : List Typed.Stmt}
      (h : ((Context.within r ⟨d, rounds⟩).condition e).run m = some (.ok false, m₁)) :
      Part ⟨d, .stmt (.conditional e ss ss'), m⟩ ⟨d, .block ss', entered m₁ m₁.current⟩
  | items {d : Nat} {m : Machine} {target : Variable} {e : Typed.Expr} {ss : List Typed.Stmt} :
      Part ⟨d, .stmt (.each target e ss), m⟩ ⟨d, .expr e, m⟩
  | allItems {d : Nat} {m m₁ : Machine} {target : Variable} {e : Typed.Expr}
      {ss : List Typed.Stmt} {v : Value} {items : List Value}
      (h : (evaluate r ⟨d, rounds⟩ e).run m = some (.ok v, m₁)) (hv : v.datum = .sequence items) :
      Part ⟨d, .stmt (.each target e ss), m⟩ ⟨d, .rounds target items ss, m₁⟩
  | round {d : Nat} {m m₁ : Machine} {target : Variable} {item : Value} {items : List Value}
      {ss : List Typed.Stmt}
      (h : (defineVariable target.name item).run (entered m m.current) = some (.ok ⟨⟩, m₁)) :
      Part ⟨d, .rounds target (item :: items) ss, m⟩ ⟨d, .block ss, m₁⟩
  | nextRound {d : Nat} {m m₁ : Machine} {target : Variable} {item : Value} {items : List Value}
      {ss : List Typed.Stmt}
      (h : (inBlock do
          defineVariable target.name item
          (Context.within r ⟨d, rounds⟩).executeBlock ss).run m = some (.ok .normal, m₁)) :
      Part ⟨d, .rounds target (item :: items) ss, m⟩ ⟨d, .rounds target items ss, m₁⟩
  | loopCondition {d : Nat} {m : Machine} {e : Typed.Expr} {ss : List Typed.Stmt} :
      Part ⟨d, .stmt (.loop e ss), m⟩ ⟨d, .expr e, m⟩
  | loopBody {d : Nat} {m m₁ : Machine} {e : Typed.Expr} {ss : List Typed.Stmt}
      (h : ((Context.within r ⟨d, rounds⟩).condition e).run m = some (.ok true, m₁)) :
      Part ⟨d, .stmt (.loop e ss), m⟩ ⟨d, .block ss, entered m₁ m₁.current⟩
  | loopAgain {d : Nat} {m m₁ m₂ : Machine} {e : Typed.Expr} {ss : List Typed.Stmt}
      (h : ((Context.within r ⟨d, rounds⟩).condition e).run m = some (.ok true, m₁))
      (hb : (inBlock ((Context.within r ⟨d, rounds⟩).executeBlock ss)).run m₁ =
        some (.ok .normal, m₂)) :
      Part ⟨d, .stmt (.loop e ss), m⟩ ⟨d, .stmt (.loop e ss), m₂⟩
  | returned {d : Nat} {m : Machine} {e : Typed.Expr} :
      Part ⟨d, .stmt (.ret e), m⟩ ⟨d, .expr e, m⟩
  | head {d : Nat} {m : Machine} {s : Typed.Stmt} {ss : List Typed.Stmt} :
      Part ⟨d, .block (s :: ss), m⟩ ⟨d, .stmt s, m⟩
  | tail {d : Nat} {m m₁ : Machine} {s : Typed.Stmt} {ss : List Typed.Stmt}
      (h : (execute r ⟨d, rounds⟩ s).run m = some (.ok .normal, m₁)) :
      Part ⟨d, .block (s :: ss), m⟩ ⟨d, .block ss, m₁⟩
  | fieldValue {d : Nat} {m : Machine} {target : Variable} {e : Typed.Expr}
      {fs : List Typed.Field} {ms : List Typed.Method} :
      Part ⟨d, .program ⟨⟨target, some e⟩ :: fs, ms⟩, m⟩ ⟨d, .expr e, m⟩
  | nextField {d : Nat} {m m₁ m₂ : Machine} {f : Typed.Field} {fs : List Typed.Field}
      {ms : List Typed.Method} {v : Value}
      (h : ((Context.within r ⟨d, rounds⟩).initialValue f.value).run m = some (.ok v, m₁))
      (hdef : m₁.defineVariable f.target.name v = .ok m₂) :
      Part ⟨d, .program ⟨f :: fs, ms⟩, m⟩ ⟨d, .program ⟨fs, ms⟩, m₂⟩
  | main {d : Nat} {m m₁ : Machine} {ms : List Typed.Method} {method : Typed.Method}
      {closure : ScopeId} (h : (Context.defineMethods ms).run m = some (.ok ⟨⟩, m₁))
      (hf : m₁.scopes.lookupFunction Machine.root "main" 0 = .ok (.method method closure)) :
      Part ⟨d, .program ⟨[], ms⟩, m⟩ ⟨d, .body method closure [], m₁⟩

end Moment

namespace Discipline

open Exec Source

variable {r : Registry} (D : Discipline r) {rounds d : Nat} {methods : List Typed.Method}
  {env : Environment} {s : ScopeId} {m m₁ : Machine}

/-! ## Places -/

/-- The machine is in this scope of a program with these methods, where the environment describes
what is known. -/
def Conforms (methods : List Typed.Method) (env : Environment) (s : ScopeId) (m : Machine) : Prop :=
  ∃ top plan, D.Hosts top methods ∧ plan.Place (Provides methods) s env ∧ D.Stands top plan s m

namespace Conforms

variable {D}

theorem evaluate (hm : D.Conforms methods env s m) {e : Source.Expr} {t : Typed.Expr}
    (ht : ExprTyped r env e t) (hd : e.Within D.dialect) {v : Value}
    (h : (TypedImp.evaluate r ⟨d, rounds⟩ t).run m = some (.ok v, m₁)) :
    D.holds t.type v ∧ D.Conforms methods env s m₁ := by
  obtain ⟨top, plan, hhosts, hp, hm⟩ := hm
  have hserves := D.serving_within hhosts rounds d
  obtain ⟨hv, hm₁⟩ := D.safe_evaluate rfl hserves e ht hd hp hm (.ok v) m₁ h
  exact ⟨hv, top, plan, hhosts, hp, hm₁⟩

theorem evaluateAll (hm : D.Conforms methods env s m) {es : List Source.Expr}
    {ts : List Typed.Expr} (ht : ExprsTyped r env es ts) (hd : ExprsWithin D.dialect es)
    {values : List Value}
    (h : ((Context.within r ⟨d, rounds⟩).evaluateAll ts).run m = some (.ok values, m₁)) :
    D.HoldAll ts values ∧ D.Conforms methods env s m₁ := by
  obtain ⟨top, plan, hhosts, hp, hm⟩ := hm
  have hserves := D.serving_within hhosts rounds d
  obtain ⟨hv, hm₁⟩ := D.safe_evaluateAll rfl hserves es ht hd hp hm (.ok values) m₁ h
  exact ⟨hv, top, plan, hhosts, hp, hm₁⟩

theorem condition (hm : D.Conforms methods env s m) {e : Source.Expr} {t : Typed.Expr}
    (ht : ExprTyped r env e t) (hb : Assignable .boolean t.type) (hd : e.Within D.dialect)
    {b : Bool} (h : ((Context.within r ⟨d, rounds⟩).condition t).run m = some (.ok b, m₁)) :
    D.Conforms methods env s m₁ := by
  obtain ⟨top, plan, hhosts, hp, hm⟩ := hm
  have hserves := D.serving_within hhosts rounds d
  exact ⟨top, plan, hhosts, hp, D.safe_condition rfl hserves ht hb hd hp hm (.ok b) m₁ h⟩

theorem execute (hm : D.Conforms methods env s m) (hs : s ≠ Machine.root) {st : Source.Stmt}
    {t : Typed.Stmt} (ht : StmtTyped r env st t) (hd : st.Within D.dialect)
    (h : (TypedImp.execute r ⟨d, rounds⟩ t).run m = some (.ok .normal, m₁)) :
    D.Conforms methods (env.after t) s m₁ := by
  obtain ⟨top, plan, hhosts, hp, hm⟩ := hm
  have hserves := D.serving_within hhosts rounds d
  obtain ⟨-, vs, hm₁, hvs⟩ := D.safe_execute rfl hserves st ht hd hp hs hm (.ok .normal) m₁ h
  obtain rfl := hvs rfl
  exact ⟨top, _, hhosts, hp.declareAll _, hm₁⟩

/-- A new scope inside the current one. -/
theorem entered (hm : D.Conforms methods env s m) : ∃ s', s' ≠ Machine.root ∧
    D.Conforms methods env.nest s' (Exec.entered m m.current) := by
  obtain ⟨top, plan, hhosts, hp, hm⟩ := hm
  refine ⟨plan.next, (D.ne_root_of_next hm).symm, top, _, hhosts, hp.enter, ?_⟩
  rw [hm.current]
  exact D.stands_entered hm s

theorem defineVariable (hm : D.Conforms methods env s m) (hs : s ≠ Machine.root) {v : Variable}
    {value : Value} (fresh : env.Fresh v.name) (hv : D.holds v.type value)
    (h : (Exec.defineVariable v.name value).run m = some (.ok ⟨⟩, m₁)) :
    D.Conforms methods (env.declare v) s m₁ := by
  obtain ⟨top, plan, hhosts, hp, hm⟩ := hm
  exact ⟨top, _, hhosts, hp.declare v, D.safe_defineVariable hs hp hm fresh hv (.ok ⟨⟩) m₁ h⟩

/-- A body that ran in a scope of its own has left that scope. -/
theorem inBlock (hm : D.Conforms methods env s m) {ss : List Source.Stmt} {ts : List Typed.Stmt}
    (ht : BlockTyped r env.nest ss ts) (hd : BlockWithin D.dialect ss) {flow : Flow}
    (h : (Exec.inBlock ((Context.within r ⟨d, rounds⟩).executeBlock ts)).run m =
      some (.ok flow, m₁)) : D.Conforms methods env s m₁ := by
  obtain ⟨top, plan, hhosts, hp, hm⟩ := hm
  have hserves := D.serving_within hhosts rounds d
  have hne : plan.next ≠ Machine.root := (D.ne_root_of_next hm).symm
  obtain ⟨-, hm₁⟩ := D.safe_inBlock hm (fun m hm => D.safe_executeBlock rfl hserves ss ht hd
    hp.enter hne hm) (.ok flow) m₁ h
  exact ⟨top, plan, hhosts, hp, hm₁⟩

theorem round (hm : D.Conforms methods env s m) {name : String} {item : Value}
    (hv : D.holds .integer item) {ss : List Source.Stmt} {ts : List Typed.Stmt}
    (ht : BlockTyped r (env.nest.declare (.plain name .integer)) ss ts)
    (hd : BlockWithin D.dialect ss) {flow : Flow}
    (h : (Exec.inBlock do
        Exec.defineVariable name item
        (Context.within r ⟨d, rounds⟩).executeBlock ts).run m = some (.ok flow, m₁)) :
    D.Conforms methods env s m₁ := by
  obtain ⟨top, plan, hhosts, hp, hm⟩ := hm
  have hserves := D.serving_within hhosts rounds d
  have hne : plan.next ≠ Machine.root := (D.ne_root_of_next hm).symm
  obtain ⟨-, hm₁⟩ := D.safe_round hp hm hv (fun m hm => D.safe_executeBlock rfl hserves ss ht hd
    (hp.enter.declare _) hne hm) (.ok flow) m₁ h
  exact ⟨top, plan, hhosts, hp, hm₁⟩

end Conforms

/-! ## Sound moments -/

/-- What is about to be done is well typed where the machine stands. -/
inductive Sound : Moment → Prop
  | expr {d : Nat} {m : Machine} {methods : List Typed.Method} {env : Environment} {s : ScopeId}
      {e : Source.Expr} {t : Typed.Expr} (hm : D.Conforms methods env s m)
      (ht : ExprTyped r env e t) (hd : e.Within D.dialect) : Sound ⟨d, .expr t, m⟩
  | exprs {d : Nat} {m : Machine} {methods : List Typed.Method} {env : Environment} {s : ScopeId}
      {es : List Source.Expr} {ts : List Typed.Expr} (hm : D.Conforms methods env s m)
      (ht : ExprsTyped r env es ts) (hd : ExprsWithin D.dialect es) : Sound ⟨d, .exprs ts, m⟩
  | stmt {d : Nat} {m : Machine} {methods : List Typed.Method} {env : Environment} {s : ScopeId}
      {st : Source.Stmt} {t : Typed.Stmt} (hm : D.Conforms methods env s m)
      (hs : s ≠ Machine.root) (ht : StmtTyped r env st t) (hd : st.Within D.dialect) :
      Sound ⟨d, .stmt t, m⟩
  | block {d : Nat} {m : Machine} {methods : List Typed.Method} {env : Environment} {s : ScopeId}
      {ss : List Source.Stmt} {ts : List Typed.Stmt} (hm : D.Conforms methods env s m)
      (hs : s ≠ Machine.root) (ht : BlockTyped r env ss ts) (hd : BlockWithin D.dialect ss) :
      Sound ⟨d, .block ts, m⟩
  | rounds {d : Nat} {m : Machine} {methods : List Typed.Method} {env : Environment} {s : ScopeId}
      {name : String} {items : List Value} {ss : List Source.Stmt} {ts : List Typed.Stmt}
      (hm : D.Conforms methods env s m) (hs : s ≠ Machine.root)
      (hv : ∀ item ∈ items, D.holds .integer item)
      (ht : BlockTyped r (env.nest.declare (.plain name .integer)) ss ts)
      (hd : BlockWithin D.dialect ss) : Sound ⟨d, .rounds (.plain name .integer) items ts, m⟩
  | body {d : Nat} {m : Machine} {methods : List Typed.Method} {env : Environment} {s : ScopeId}
      {method : Typed.Method} {values : List Value} (hm : D.Conforms methods env s m)
      (hmem : method ∈ methods)
      (hv : List.Forall₂ D.holds method.function.parameters values) :
      Sound ⟨d, .body method Machine.root values, m⟩
  | program {d : Nat} {m : Machine} {env : Environment} {top : Scope Variable Callable}
      {p : Source.Program} {t : Typed.Program} (ht : ProgramTyped r env p t)
      (hd : p.Within D.dialect) (hl : Level [] top env) (hm : D.Opens top m) :
      Sound ⟨d, .program t, m⟩

variable {D}

theorem sound_of_callable {f : Function} {method : Typed.Method} {closure : ScopeId}
    {values : List Value} (hm : D.Conforms methods env s m)
    (hp : Provides methods f (.method method closure))
    (hv : (∀ type ∈ f.parameters, D.admits type) → List.Forall₂ D.holds f.parameters values) :
    D.Sound ⟨d, .body method closure values, m⟩ := by
  obtain ⟨top, plan, hhosts, hplace, hstands⟩ := hm
  cases hp with
  | method hmem =>
    obtain ⟨source, env', ht, hd, -⟩ := hhosts.typed method hmem
    exact .body ⟨top, plan, hhosts, hplace, hstands⟩ hmem (hv (D.admits_types ht hd))

/-- The parts of an expression are sound. -/
theorem sound_of_part_expr {t : Typed.Expr} {b : Moment}
    (h : Moment.Part r rounds ⟨d, .expr t, m⟩ b) (hm : D.Conforms methods env s m)
    {e : Source.Expr} (ht : ExprTyped r env e t) (hd : e.Within D.dialect) : D.Sound b := by
  cases h with
  | inner =>
    cases ht with
    | group h => exact .expr hm h (by unfold Expr.Within at hd; exact hd)
  | left =>
    unfold Expr.Within at hd
    cases ht with
    | binary hl _ _ => exact .expr hm hl hd.1
  | right h _ =>
    cases ht with
    | binary hl hr _ =>
      unfold Expr.Within at hd
      exact .expr (hm.evaluate hl hd.1 h).2 hr hd.2
  | receiver =>
    cases ht with
    | field hr _ =>
      unfold Expr.Within at hd
      exact .expr hm hr hd.2
  | arguments =>
    cases ht with
    | call hs _ _ _ =>
      unfold Expr.Within at hd
      exact .exprs hm hs hd
  | called h hf =>
    cases ht with
    | call hs hfind harity hfit =>
      unfold Expr.Within at hd
      obtain ⟨hvalues, hm₁⟩ := hm.evaluateAll hs hd h
      obtain ⟨top, plan, hhosts, hp, hstands⟩ := hm₁
      obtain ⟨callable, hc, hserve⟩ := hstands.lookupFunction hp hfind
      rw [← hvalues.length_eq, hc] at hf
      cases hf
      exact sound_of_callable ⟨top, plan, hhosts, hp, hstands⟩ hserve fun hadmits =>
        D.holds_arguments harity hfit hadmits hvalues
  | methodReceiver =>
    cases ht with
    | method hr _ _ _ _ =>
      unfold Expr.Within at hd
      exact .expr hm hr hd.2.1
  | methodArguments h =>
    cases ht with
    | method hr hs _ _ _ =>
      unfold Expr.Within at hd
      exact .exprs (hm.evaluate hr hd.2.1 h).2 hs hd.2.2
  | methodCalled h hs hf =>
    cases ht with
    | method hr _ _ _ _ =>
      unfold Expr.Within at hd
      -- a value without members of its own only has built-in bodies
      rw [resolveMethod_eq (D.members (hm.evaluate hr hd.2.1 h).1)] at hf
      obtain ⟨found, -, hf⟩ := bind_eq_ok.1 hf
      cases hb : found.body with
      | some body =>
        rw [hb] at hf
        cases hf
      | none =>
        rw [hb] at hf
        cases hf

theorem typed_of_declaration {dialect : Dialect} {name : String} {type : Option String}
    {value : Option Source.Expr} {target : Variable} {t : Typed.Expr}
    (h : DeclarationTyped r env name type value target (some t))
    (hd : DeclarationWithin dialect type value) : ∃ e, ExprTyped r env e t ∧ e.Within dialect := by
  cases h with
  | valued hv _ => exact ⟨_, hv, hd.2.1 _ rfl⟩
  | both _ hv _ _ => exact ⟨_, hv, hd.2.1 _ rfl⟩

/-- The parts of a statement are sound. -/
theorem sound_of_part_stmt {t : Typed.Stmt} {b : Moment}
    (h : Moment.Part r rounds ⟨d, .stmt t, m⟩ b) (hm : D.Conforms methods env s m)
    (hs : s ≠ Machine.root) {st : Source.Stmt} (ht : StmtTyped r env st t)
    (hd : st.Within D.dialect) : D.Sound b := by
  cases h with
  | expression =>
    cases ht with
    | expression _ he => exact .expr hm he hd
  | declared =>
    cases ht with
    | declaration h =>
      obtain ⟨e, he, hwithin⟩ := typed_of_declaration h hd
      exact .expr hm he hwithin
  | assigned =>
    cases ht with
    | assignment _ _ hv _ => exact .expr hm hv hd.2
  | object =>
    cases ht with
    | assignment access ht hv _ =>
      cases ht with
      | field hr _ => exact .expr hm hr hd.1.2
  | memberValue h =>
    cases ht with
    | assignment access ht hv _ =>
      cases ht with
      | field hr _ => exact .expr (hm.evaluate hr hd.1.2 h).2 hv hd.2
  | condition =>
    unfold Stmt.Within at hd
    cases ht with
    | conditional hc _ _ _ _ => exact .expr hm hc hd.1
  | thenBody h =>
    unfold Stmt.Within at hd
    cases ht with
    | conditional hc hb _ ht _ =>
      obtain ⟨s', hs', hm'⟩ := (hm.condition hc hb hd.1 h).entered
      exact .block hm' hs' ht hd.2.1
  | elseBody h =>
    unfold Stmt.Within at hd
    cases ht with
    | conditional hc hb _ _ he =>
      obtain ⟨s', hs', hm'⟩ := (hm.condition hc hb hd.1 h).entered
      exact .block hm' hs' he hd.2.2
  | items =>
    unfold Stmt.Within at hd
    cases ht with
    | each hi _ _ _ => exact .expr hm hi hd.1
  | allItems h hv =>
    unfold Stmt.Within at hd
    cases ht with
    | each hi ha _ hb =>
      obtain ⟨hholds, hm₁⟩ := hm.evaluate hi hd.1 h
      rw [eq_integerIterable ha] at hholds
      exact .rounds hm₁ hs (D.items hholds hv) hb hd.2
  | loopCondition =>
    unfold Stmt.Within at hd
    cases ht with
    | loop hc _ _ => exact .expr hm hc hd.1
  | loopBody h =>
    unfold Stmt.Within at hd
    cases ht with
    | loop hc hb ht =>
      obtain ⟨s', hs', hm'⟩ := (hm.condition hc hb hd.1 h).entered
      exact .block hm' hs' ht hd.2
  | loopAgain h hbody =>
    have hd' := hd
    unfold Stmt.Within at hd
    cases ht with
    | loop hc hb ht =>
      exact .stmt ((hm.condition hc hb hd.1 h).inBlock ht hd.2 hbody) hs (.loop hc hb ht) hd'
  | returned =>
    cases ht with
    | ret hv _ => exact .expr hm hv hd

/-- The body of a method is sound once its parameters are defined. -/
theorem sound_of_part_body {method : Typed.Method} {values : List Value} {b : Moment}
    (h : Moment.Part r rounds ⟨d, .body method Machine.root values, m⟩ b)
    (hm : D.Conforms methods env s m) (hmem : method ∈ methods)
    (hv : List.Forall₂ D.holds method.function.parameters values) : D.Sound b := by
  cases h with
  | body hl h =>
    obtain ⟨top, plan, hhosts, -, hm⟩ := hm
    obtain ⟨source, inner, vs, -, hb, hd, -, -, hp, hparameters⟩ :=
      D.safe_parameters hhosts hmem hv hm
    have hne : plan.next ≠ Machine.root := (D.ne_root_of_next hm).symm
    exact .block ⟨top, _, hhosts, hp, hparameters (.ok ⟨⟩) _ h⟩ hne hb hd.body

theorem conforms_of_opens {top : Scope Variable Callable} (hl : Level methods top env)
    (hm : D.Opens top m) (hhosts : D.Hosts top methods) : D.Conforms methods env Machine.root m :=
  ⟨top, .outer top, hhosts, (hl.known rfl fun _ _ h => h).place rfl, hm⟩

/-- The parts of a program are sound: its fields, one after the other, and `main`. -/
theorem sound_of_part_program {top : Scope Variable Callable} {t : Typed.Program} {b : Moment}
    (h : Moment.Part r rounds ⟨d, .program t, m⟩ b) {p : Source.Program}
    (ht : ProgramTyped r env p t) (hd : p.Within D.dialect) (hl : Level [] top env)
    (hm : D.Opens top m) : D.Sound b := by
  have hbare : D.Hosts top [] := ⟨fun _ hmem => absurd hmem List.not_mem_nil⟩
  obtain ⟨fields, sources⟩ := p
  cases ht with
  | mk start hf hms =>
    cases h with
    | fieldValue =>
      cases hf with
      | cons hfield _ =>
        obtain ⟨e, he, hwithin⟩ := typed_of_declaration hfield (hd.fields _ (.head _))
        exact .expr (conforms_of_opens hl hm hbare) he hwithin
    | nextField h hdef =>
      cases hf with
      | cons hfield hrest =>
        have hp : (Plan.outer top).Place (Provides []) Machine.root env :=
          (hl.known rfl fun _ _ h => h).place rfl
        obtain ⟨fresh, hvalue⟩ := D.safe_initialValue rfl (D.serving_bare rounds d top) hfield
          (hd.fields _ (.head _)) hp hm
        obtain ⟨hv, hm₁⟩ := hvalue (.ok _) _ h
        have hm₂ := D.safe_defineField hl hm₁ fresh hv
        rw [hdef] at hm₂
        refine .program (p := ⟨_, sources⟩) (.mk ?_ hrest hms)
          ⟨fun field hmem => hd.fields field (.tail _ hmem), hd.methods⟩ (hl.declare _) hm₂
        exact start
    | main h hmain =>
      cases hf
      obtain ⟨top₁, hl₁, hm₁⟩ :=
        D.safe_defineMethods hms (fun _ h => h) (hl.mono fun _ h => absurd h List.not_mem_nil) hm
          (.ok ⟨⟩) _ h
      obtain ⟨callable, hfind, hprovides⟩ := D.lookup_main start hms hl₁ hm₁
      rw [hmain] at hfind
      cases hfind
      have hhosts := D.hosts_of_methodsTyped hms hd.methods hl₁
      exact sound_of_callable (conforms_of_opens hl₁ hm₁ hhosts) hprovides fun _ => .nil

/-- What is well typed where it is begun has parts that are. -/
theorem sound_of_part {a b : Moment} (h : Moment.Part r rounds a b) (ha : D.Sound a) :
    D.Sound b := by
  cases ha with
  | expr hm ht hd => exact sound_of_part_expr h hm ht hd
  | exprs hm ht hd =>
    cases h with
    | first =>
      unfold ExprsWithin at hd
      cases ht with
      | cons h _ => exact .expr hm h hd.1
    | rest h =>
      unfold ExprsWithin at hd
      cases ht with
      | cons he hs => exact .exprs (hm.evaluate he hd.1 h).2 hs hd.2
  | stmt hm hs ht hd => exact sound_of_part_stmt h hm hs ht hd
  | block hm hs ht hd =>
    cases h with
    | head =>
      unfold BlockWithin at hd
      cases ht with
      | cons h _ => exact .stmt hm hs h hd.1
    | tail h =>
      unfold BlockWithin at hd
      cases ht with
      | cons hst hrest => exact .block (hm.execute hs hst hd.1 h) hs hrest hd.2
  | rounds hm hs hv ht hd =>
    cases h with
    | round h =>
      obtain ⟨s', hs', hm'⟩ := hm.entered
      have hitem := hv _ (.head _)
      refine .block (hm'.defineVariable hs' (v := .plain _ .integer) ?_ hitem h) hs' ht hd
      exact Environment.fresh_nest _ _
    | nextRound h =>
      exact .rounds (hm.round (hv _ (.head _)) ht hd h) hs (fun i hi => hv i (.tail _ hi)) ht hd
  | body hm hmem hv => exact sound_of_part_body h hm hmem hv
  | program ht hd hl hm => exact sound_of_part_program h ht hd hl hm

theorem sound_of_parts {a b : Moment} (h : Relation.ReflTransGen (Moment.Part r rounds) a b)
    (ha : D.Sound a) : D.Sound b := by
  induction h with
  | refl => exact ha
  | tail _ h ih => exact sound_of_part h ih

/-- An expression that is evaluated in the course of something sound gives a value that its type
allows for. -/
theorem holds_of_parts {a : Moment} (ha : D.Sound a) {t : Typed.Expr} {v : Value}
    (h : Relation.ReflTransGen (Moment.Part r rounds) a ⟨d, .expr t, m⟩)
    (hrun : (evaluate r ⟨d, rounds⟩ t).run m = some (.ok v, m₁)) : D.holds t.type v := by
  cases sound_of_parts h ha with
  | expr hm ht hd => exact (hm.evaluate ht hd hrun).1

end Discipline

end TypedImp
