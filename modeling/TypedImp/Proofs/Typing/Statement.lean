import TypedImp.Proofs.Typing.Expression
import TypedImp.Typing.Stmt

/-!
# Checking statements follows the rules

A check that stands in an environment accepts exactly the statements that the rules accept there,
and is left with the variable that the statement declares and nothing else (`gives_checkStmt`).
-/

namespace TypedImp

namespace Typing

open Check

variable {r : Registry} {c c' : Checker} {env : Environment}

theorem gives_expression (hr : r.Reachable) (h : c.Sees env) {e : Source.Expr} {t : Typed.Expr} :
    Gives (expression r e) c t c' ↔ ExprTyped r env e t ∧ c = c' := by
  simp only [expression, gives_bind, gives_get, gives_lift]
  constructor
  · rintro ⟨_, _, ⟨rfl, rfl⟩, ht, rfl⟩
    exact ⟨(checkExpr_eq_ok hr h e).1 ht, rfl⟩
  · rintro ⟨ht, rfl⟩
    exact ⟨_, _, ⟨rfl, rfl⟩, (checkExpr_eq_ok hr h e).2 ht, rfl⟩

theorem gives_requireAssignable {target source : TypeId} {u : Unit} :
    Gives (liftM (r.requireAssignable target source)) c u c' ↔
      Assignable target source ∧ c = c' := by
  rw [gives_lift, requireAssignable_eq_ok]

theorem gives_checkCondition (hr : r.Reachable) (h : c.Sees env) {e : Source.Expr}
    {t : Typed.Expr} :
    Gives (checkCondition r e) c t c' ↔
      (ExprTyped r env e t ∧ Assignable .boolean t.type) ∧ c = c' := by
  simp only [checkCondition, gives_bind, gives_expression hr h, gives_requireAssignable,
    gives_pure]
  constructor
  · rintro ⟨t, _, ⟨ht, rfl⟩, _, _, ⟨hb, rfl⟩, rfl, rfl⟩
    exact ⟨⟨ht, hb⟩, rfl⟩
  · rintro ⟨⟨ht, hb⟩, rfl⟩
    exact ⟨_, _, ⟨ht, rfl⟩, (), _, ⟨hb, rfl⟩, rfl, rfl⟩

theorem gives_requireBody {construct : String} {body : List Source.Stmt} {u : Unit} :
    Gives (requireBody construct body) c u c' ↔ body ≠ [] ∧ c = c' := by
  cases body with
  | nil => simp [requireBody, gives_throw]
  | cons s ss => simp [requireBody, gives_pure]

theorem gives_define (h : c.Sees env) {v : Variable} {u : Unit} :
    Gives (Check.defineVariable v) c u c' ↔ env.Fresh v.name ∧ c.declare v = c' := by
  rw [gives_defineVariable, h.fresh_iff, eq_comm (a := c')]
  rfl

theorem typeNamed_eq_ok {name : String} {type : TypeId} :
    r.typeNamed name = .ok type ↔ r.typeNamed? name = some type := by
  rw [Registry.typeNamed]
  cases r.typeNamed? name <;> simp

theorem gives_typeNamed {name : Option String} {type : Option TypeId} :
    Gives (name.mapM fun name => (liftM (r.typeNamed name) : Check TypeId)) c type c' ↔
      ((name = none ∧ type = none) ∨
        ∃ n t, name = some n ∧ type = some t ∧ r.typeNamed? n = some t) ∧ c = c' := by
  simp only [gives_mapM_option, gives_lift, typeNamed_eq_ok]
  constructor
  · rintro (⟨rfl, rfl, rfl⟩ | ⟨n, t, rfl, rfl, hn, rfl⟩)
    · exact ⟨.inl ⟨rfl, rfl⟩, rfl⟩
    · exact ⟨.inr ⟨n, t, rfl, rfl, hn⟩, rfl⟩
  · rintro ⟨⟨rfl, rfl⟩ | ⟨n, t, rfl, rfl, hn⟩, rfl⟩
    · exact .inl ⟨rfl, rfl, rfl⟩
    · exact .inr ⟨n, t, rfl, rfl, hn, rfl⟩

theorem gives_value (hr : r.Reachable) (h : c.Sees env) {value : Option Source.Expr}
    {value' : Option Typed.Expr} :
    Gives (value.mapM (expression r)) c value' c' ↔
      ((value = none ∧ value' = none) ∨
        ∃ e t, value = some e ∧ value' = some t ∧ ExprTyped r env e t) ∧ c = c' := by
  simp only [gives_mapM_option, gives_expression hr h]
  constructor
  · rintro (⟨rfl, rfl, rfl⟩ | ⟨e, t, rfl, rfl, he, rfl⟩)
    · exact ⟨.inl ⟨rfl, rfl⟩, rfl⟩
    · exact ⟨.inr ⟨e, t, rfl, rfl, he⟩, rfl⟩
  · rintro ⟨⟨rfl, rfl⟩ | ⟨e, t, rfl, rfl, he⟩, rfl⟩
    · exact .inl ⟨rfl, rfl, rfl⟩
    · exact .inr ⟨e, t, rfl, rfl, he, rfl⟩

/-- A declaration is accepted where the rules allow it, and adds its variable. -/
theorem gives_checkDeclaration (hr : r.Reachable) (h : c.Sees env) {name : String}
    {type : Option String} {value : Option Source.Expr} {target : Variable}
    {value' : Option Typed.Expr} :
    Gives (checkDeclaration r name type value) c (target, value') c' ↔
      DeclarationTyped r env name type value target value' ∧ c.declare target = c' := by
  simp only [checkDeclaration, gives_bind, gives_typeNamed]
  constructor
  · rintro ⟨declared, _, ⟨hn, rfl⟩, v, _, hv, hd⟩
    rw [gives_value hr h] at hv
    obtain ⟨hv, rfl⟩ := hv
    rcases hn with ⟨rfl, rfl⟩ | ⟨n, d, rfl, rfl, hn⟩ <;>
      rcases hv with ⟨rfl, rfl⟩ | ⟨e, e', rfl, rfl, he⟩ <;>
      simp only [gives_bind, gives_throw, gives_requireAssignable, gives_pure,
        Prod.mk.injEq] at hd
    · obtain ⟨_, _, hf, -⟩ := hd
      exact hf.elim
    · obtain ⟨_, _, ⟨rfl, rfl⟩, u, _, hd, ⟨rfl, rfl⟩, rfl⟩ := hd
      obtain ⟨fresh, rfl⟩ := (gives_define h).1 hd
      exact ⟨.valued he fresh, rfl⟩
    · obtain ⟨_, _, ⟨rfl, rfl⟩, u, _, hd, ⟨rfl, rfl⟩, rfl⟩ := hd
      obtain ⟨fresh, rfl⟩ := (gives_define h).1 hd
      exact ⟨.typed hn fresh, rfl⟩
    · obtain ⟨_, _, ⟨ha, rfl⟩, _, _, ⟨rfl, rfl⟩, u, _, hd, ⟨rfl, rfl⟩, rfl⟩ := hd
      obtain ⟨fresh, rfl⟩ := (gives_define h).1 hd
      exact ⟨.both hn he ha fresh, rfl⟩
  · rintro ⟨ht, rfl⟩
    cases ht with
    | typed hn fresh =>
      refine ⟨_, c, ⟨.inr ⟨_, _, rfl, rfl, hn⟩, rfl⟩, none, c, ?_, ?_⟩
      · exact (gives_value hr h).2 ⟨.inl ⟨rfl, rfl⟩, rfl⟩
      · simp only [gives_bind, gives_pure]
        exact ⟨_, _, ⟨rfl, rfl⟩, (), _, (gives_define h).2 ⟨fresh, rfl⟩, rfl, rfl⟩
    | @valued _ v he fresh =>
      refine ⟨_, c, ⟨.inl ⟨rfl, rfl⟩, rfl⟩, some v, c, ?_, ?_⟩
      · exact (gives_value hr h).2 ⟨.inr ⟨_, _, rfl, rfl, he⟩, rfl⟩
      · simp only [gives_bind, gives_pure]
        exact ⟨_, _, ⟨rfl, rfl⟩, (), _, (gives_define h).2 ⟨fresh, rfl⟩, rfl, rfl⟩
    | @both _ _ _ v hn he ha fresh =>
      refine ⟨_, c, ⟨.inr ⟨_, _, rfl, rfl, hn⟩, rfl⟩, some v, c, ?_, ?_⟩
      · exact (gives_value hr h).2 ⟨.inr ⟨_, _, rfl, rfl, he⟩, rfl⟩
      · simp only [gives_bind, gives_pure, gives_requireAssignable]
        exact ⟨(), c, ⟨ha, rfl⟩, _, c, ⟨rfl, rfl⟩, (), _, (gives_define h).2 ⟨fresh, rfl⟩, rfl, rfl⟩

/-- What is checked in a scope of its own leaves the state as it was, if all it does is declare
variables there. -/
theorem gives_inScope_of {α : Type} {body : Check α} {a : α} {typed : Prop} {vs : List Variable}
    (hbody : ∀ {c₁}, Gives body (entered c) a c₁ ↔ typed ∧ (entered c).declareAll vs = c₁) :
    Gives (inScope body) c a c' ↔ typed ∧ c = c' := by
  simp only [gives_inScope, hbody]
  constructor
  · rintro ⟨_, ⟨ht, rfl⟩, rfl⟩
    exact ⟨ht, (c.leave_declareAll vs).symm⟩
  · rintro ⟨ht, rfl⟩
    exact ⟨_, ⟨ht, rfl⟩, (c.leave_declareAll vs).symm⟩

theorem isCall_iff {e : Source.Expr} : e.isCall = true ↔ IsCall e := by
  constructor
  · intro h
    cases e with
    | call name arguments => exact .call name arguments
    | method receiver name arguments => exact .method receiver name arguments
    | _ => cases h
  · rintro (_ | _) <;> rfl

theorem isAccess_iff {e : Source.Expr} : e.isAccess = true ↔ IsAccess e := by
  constructor
  · intro h
    cases e with
    | var name => exact .var name
    | field receiver name => exact .field receiver name
    | _ => cases h
  · rintro (_ | _) <;> rfl

/-- The variables that statements declare in the scope that they stand in. -/
def declarations (ss : List Typed.Stmt) : List Variable :=
  ss.flatMap (·.declared.toList)

theorem declarations_cons (s : Typed.Stmt) (ss : List Typed.Stmt) :
    declarations (s :: ss) = s.declared.toList ++ declarations ss :=
  List.flatMap_cons

/-- The rules decide a block, wherever the check stands. -/
def DecidesBlock (r : Registry) (ss : List Source.Stmt) : Prop :=
  ∀ {ts : List Typed.Stmt} {c c' : Checker} {env : Environment}, c.Sees env →
    (Gives (checkBlock r ss) c ts c' ↔
      BlockTyped r env ss ts ∧ c.declareAll (declarations ts) = c')

/-- A block in a scope of its own leaves nothing behind. -/
theorem DecidesBlock.inScope {ss : List Source.Stmt} (hss : DecidesBlock r ss) (h : c.Sees env)
    {ts : List Typed.Stmt} :
    Gives (Check.inScope (checkBlock r ss)) c ts c' ↔ BlockTyped r env.nest ss ts ∧ c = c' :=
  gives_inScope_of (hss h.entered)

theorem DecidesBlock.each {ss : List Source.Stmt} (hss : DecidesBlock r ss) (h : c.Sees env)
    {v : Variable} {ts : List Typed.Stmt} :
    Gives (Check.inScope do Check.defineVariable v; checkBlock r ss) c ts c' ↔
      BlockTyped r (env.nest.declare v) ss ts ∧ c = c' := by
  refine @gives_inScope_of _ _ _ _ _ _ (v :: declarations ts) fun {c₁} => ?_
  simp only [gives_bind, gives_define h.entered]
  constructor
  · rintro ⟨_, _, ⟨-, rfl⟩, hs⟩
    exact (hss (h.entered.declare v)).1 hs
  · intro hs
    exact ⟨(), _, ⟨env.fresh_nest _, rfl⟩, (hss (h.entered.declare v)).2 hs⟩

/-- The rules decide a statement, wherever the check stands. -/
def DecidesStmt (r : Registry) (s : Source.Stmt) : Prop :=
  ∀ {t : Typed.Stmt} {c c' : Checker} {env : Environment}, c.Sees env →
    (Gives (checkStmt r s) c t c' ↔ StmtTyped r env s t ∧ c.declareAll t.declared.toList = c')

theorem decides_expression (hr : r.Reachable) (e : Source.Expr) :
    DecidesStmt r (.expression e) := by
  intro t c c' env h
  unfold checkStmt
  constructor
  · intro ht
    split at ht
    · simp [gives_throw] at ht
    · rename_i hc
      simp only [gives_bind, gives_expression hr h, gives_pure] at ht
      obtain ⟨e', _, ⟨he, rfl⟩, rfl, rfl⟩ := ht
      exact ⟨.expression (isCall_iff.1 (by simpa using hc)) he, rfl⟩
  · rintro ⟨ht, rfl⟩
    cases ht with
    | expression hc he =>
      rw [if_neg (by simp [isCall_iff.2 hc])]
      simp only [gives_bind, gives_expression hr h, gives_pure]
      exact ⟨_, _, ⟨he, rfl⟩, rfl, rfl⟩

theorem decides_declaration (hr : r.Reachable) (name : String) (type : Option String)
    (value : Option Source.Expr) :
    DecidesStmt r (.declaration name type value) := by
  intro t c c' env h
  simp only [checkStmt, gives_bind, Prod.exists, gives_checkDeclaration hr h, gives_pure]
  constructor
  · rintro ⟨target, value', _, ⟨hd, rfl⟩, rfl, rfl⟩
    exact ⟨.declaration hd, rfl⟩
  · rintro ⟨ht, rfl⟩
    cases ht with
    | declaration hd => exact ⟨_, _, _, ⟨hd, rfl⟩, rfl, rfl⟩

theorem decides_assignment (hr : r.Reachable) (target value : Source.Expr) :
    DecidesStmt r (.assignment target value) := by
  intro t c c' env h
  unfold checkStmt
  constructor
  · intro ht
    split at ht
    · simp [gives_throw] at ht
    · rename_i hac
      simp only [gives_bind, gives_expression hr h] at ht
      obtain ⟨t', _, ⟨ht', rfl⟩, v', _, hv', hrest⟩ := ht
      rw [gives_expression hr h] at hv'
      obtain ⟨hv', rfl⟩ := hv'
      simp only [gives_requireAssignable, gives_pure] at hrest
      obtain ⟨_, _, ⟨ha, rfl⟩, rfl, rfl⟩ := hrest
      exact ⟨.assignment (isAccess_iff.1 (by simpa using hac)) ht' hv' ha, rfl⟩
  · rintro ⟨ht, rfl⟩
    cases ht with
    | assignment hac ht' hv' ha =>
      rw [if_neg (by simp [isAccess_iff.2 hac])]
      simp only [gives_bind, gives_expression hr h, gives_requireAssignable, gives_pure]
      exact ⟨_, c, ⟨ht', rfl⟩, _, c, (gives_expression hr h).2 ⟨hv', rfl⟩, (), c, ⟨ha, rfl⟩,
        rfl, rfl⟩

theorem decides_conditional (hr : r.Reachable) (condition : Source.Expr)
    {thenBody elseBody : List Source.Stmt} (dt : DecidesBlock r thenBody)
    (de : DecidesBlock r elseBody) :
    DecidesStmt r (.conditional condition thenBody elseBody) := by
  intro t c c' env h
  simp only [checkStmt, gives_bind, gives_checkCondition hr h]
  constructor
  · rintro ⟨b, _, ⟨⟨hc, hb⟩, rfl⟩, _, _, hne, t', _, ht, e', _, he, hp⟩
    rw [gives_requireBody] at hne
    obtain ⟨hne, rfl⟩ := hne
    rw [dt.inScope h] at ht
    obtain ⟨ht, rfl⟩ := ht
    rw [de.inScope h] at he
    obtain ⟨he, rfl⟩ := he
    obtain ⟨rfl, rfl⟩ := gives_pure.1 hp
    exact ⟨.conditional hc hb hne ht he, rfl⟩
  · rintro ⟨hs, rfl⟩
    cases hs with
    | conditional hc hb hne ht he =>
      exact ⟨_, c, ⟨⟨hc, hb⟩, rfl⟩, (), c, gives_requireBody.2 ⟨hne, rfl⟩, _, c,
        (dt.inScope h).2 ⟨ht, rfl⟩, _, c,
        (de.inScope h).2 ⟨he, rfl⟩, gives_pure.2 ⟨rfl, rfl⟩⟩

theorem decides_each (hr : r.Reachable) (name : String) (items : Source.Expr)
    {body : List Source.Stmt} (db : DecidesBlock r body) :
    DecidesStmt r (.each name items body) := by
  intro t c c' env h
  simp only [checkStmt, gives_bind, gives_expression hr h]
  constructor
  · rintro ⟨items', _, ⟨hi, rfl⟩, _, _, ha, _, _, hne, body', _, hb, hp⟩
    rw [gives_requireAssignable] at ha
    obtain ⟨ha, rfl⟩ := ha
    rw [gives_requireBody] at hne
    obtain ⟨hne, rfl⟩ := hne
    rw [db.each h] at hb
    obtain ⟨hb, rfl⟩ := hb
    obtain ⟨rfl, rfl⟩ := gives_pure.1 hp
    exact ⟨.each hi ha hne hb, rfl⟩
  · rintro ⟨hs, rfl⟩
    cases hs with
    | each hi ha hne hb =>
      exact ⟨_, c, ⟨hi, rfl⟩, (), c, gives_requireAssignable.2 ⟨ha, rfl⟩, (), c,
        gives_requireBody.2 ⟨hne, rfl⟩, _, c, (db.each h).2 ⟨hb, rfl⟩,
        gives_pure.2 ⟨rfl, rfl⟩⟩

theorem decides_loop (hr : r.Reachable) (condition : Source.Expr) {body : List Source.Stmt}
    (db : DecidesBlock r body) :
    DecidesStmt r (.loop condition body) := by
  intro t c c' env h
  simp only [checkStmt, gives_bind, gives_checkCondition hr h]
  constructor
  · rintro ⟨b, _, ⟨⟨hc, ht⟩, rfl⟩, b', _, hb, hp⟩
    rw [db.inScope h] at hb
    obtain ⟨hb, rfl⟩ := hb
    obtain ⟨rfl, rfl⟩ := gives_pure.1 hp
    exact ⟨.loop hc ht hb, rfl⟩
  · rintro ⟨hs, rfl⟩
    cases hs with
    | loop hc ht hb =>
      exact ⟨_, c, ⟨⟨hc, ht⟩, rfl⟩, _, c, (db.inScope h).2 ⟨hb, rfl⟩,
        gives_pure.2 ⟨rfl, rfl⟩⟩

theorem decides_ret (hr : r.Reachable) (value : Source.Expr) :
    DecidesStmt r (.ret value) := by
  intro t c c' env h
  simp only [checkStmt, gives_bind, gives_get]
  constructor
  · rintro ⟨_, _, ⟨rfl, rfl⟩, ht⟩
    cases hres : c.result with
    | none => simp [hres, gives_throw] at ht
    | some expected =>
      simp only [hres, gives_bind, gives_expression hr h] at ht
      obtain ⟨v, _, ⟨hv, rfl⟩, ht⟩ := ht
      split_ifs at ht with heq
      · obtain ⟨rfl, rfl⟩ := gives_pure.1 ht
        exact ⟨.ret hv (by rw [← h.result, hres, heq]), rfl⟩
      · exact (gives_throw.1 ht).elim
  · rintro ⟨hs, rfl⟩
    cases hs with
    | ret hv heq =>
      refine ⟨c, c, ⟨rfl, rfl⟩, ?_⟩
      rw [← h.result] at heq
      simp only [heq, gives_bind, gives_expression hr h]
      refine ⟨_, c, ⟨hv, rfl⟩, ?_⟩
      rw [if_pos rfl, gives_pure]
      exact ⟨rfl, rfl⟩

mutual

theorem gives_checkStmt (hr : r.Reachable) : ∀ s : Source.Stmt, DecidesStmt r s
  | .expression e => decides_expression hr e
  | .declaration name type value => decides_declaration hr name type value
  | .assignment target value => decides_assignment hr target value
  | .conditional condition thenBody elseBody =>
    decides_conditional hr condition (gives_checkBlock hr thenBody) (gives_checkBlock hr elseBody)
  | .each name items body => decides_each hr name items (gives_checkBlock hr body)
  | .loop condition body => decides_loop hr condition (gives_checkBlock hr body)
  | .ret value => decides_ret hr value

theorem gives_checkBlock (hr : r.Reachable) : ∀ ss : List Source.Stmt, DecidesBlock r ss
  | [], ts, c, c', env, h => by
    simp only [checkBlock, gives_pure]
    constructor
    · rintro ⟨rfl, rfl⟩
      exact ⟨.nil, rfl⟩
    · rintro ⟨ht, rfl⟩
      cases ht
      exact ⟨rfl, rfl⟩
  | s :: ss, ts, c, c', env, h => by
    simp only [checkBlock, gives_bind, gives_checkStmt hr s h]
    constructor
    · rintro ⟨t, _, ⟨ht, rfl⟩, ts', _, hs, hp⟩
      rw [gives_checkBlock hr ss (h.declareAll _)] at hs
      obtain ⟨hs, rfl⟩ := hs
      obtain ⟨rfl, rfl⟩ := gives_pure.1 hp
      exact ⟨.cons ht hs, c.declareAll_append _ _⟩
    · rintro ⟨hts, rfl⟩
      cases hts with
      | cons ht hs =>
        exact ⟨_, _, ⟨ht, rfl⟩, _, _, (gives_checkBlock hr ss (h.declareAll _)).2 ⟨hs, rfl⟩,
          gives_pure.2 ⟨rfl, (c.declareAll_append _ _).symm⟩⟩

end

end Typing

end TypedImp
