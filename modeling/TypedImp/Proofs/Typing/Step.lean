import Mathlib.Tactic.Common
import TypedImp.Proofs.Outcome
import TypedImp.Proofs.Scope.Chain
import TypedImp.Typing.Checker

/-!
# Steps of a check that succeed

A program is accepted or not, whatever the state that a failure leaves. So of a step of a check
only its successes are described here (`Check.Gives`), each construct by those of its parts.
-/

namespace TypedImp

namespace Check

variable {α β : Type} {c c' : Checker}

/-- The step succeeds with this result and leaves this state. -/
def Gives (step : Check α) (c : Checker) (a : α) (c' : Checker) : Prop :=
  step.run c = (.ok a, c')

theorem gives_pure {a b : α} : Gives (pure a) c b c' ↔ a = b ∧ c = c' := by
  constructor
  · intro h
    cases h
    exact ⟨rfl, rfl⟩
  · rintro ⟨rfl, rfl⟩
    rfl

theorem gives_bind {step : Check α} {next : α → Check β} {b : β} :
    Gives (step >>= next) c b c' ↔ ∃ a c₁, Gives step c a c₁ ∧ Gives (next a) c₁ b c' := by
  show (ExceptT.bindCont next (step.run c).1 : StateM Checker (Except Error β)) (step.run c).2 =
    _ ↔ _
  unfold Gives
  rcases step.run c with ⟨_ | a, c₁⟩
  · constructor
    · intro h
      cases h
    · rintro ⟨a, c₂, h, -⟩
      cases h
  · constructor
    · intro h
      exact ⟨a, c₁, rfl, h⟩
    · rintro ⟨a', c₂, h, h₂⟩
      cases h
      exact h₂

theorem gives_throw {e : Error} {a : α} : Gives (throw e) c a c' ↔ False := by
  constructor
  · intro h
    cases h
  · exact False.elim

theorem gives_get {c₁ : Checker} : Gives get c c₁ c' ↔ c = c₁ ∧ c = c' := by
  constructor
  · intro h
    cases h
    exact ⟨rfl, rfl⟩
  · rintro ⟨rfl, rfl⟩
    rfl

theorem gives_set {c₁ : Checker} {u : PUnit} : Gives (set c₁) c u c' ↔ c₁ = c' := by
  constructor
  · intro h
    cases h
    rfl
  · rintro rfl
    rfl

theorem gives_lift {o : Except Error α} {a : α} :
    Gives (liftM o) c a c' ↔ o = .ok a ∧ c = c' := by
  constructor
  · intro h
    cases o <;> cases h
    exact ⟨rfl, rfl⟩
  · rintro ⟨rfl, rfl⟩
    rfl

theorem gives_mapM_option {f : α → Check β} {x : Option α} {y : Option β} :
    Gives (x.mapM f) c y c' ↔ (x = none ∧ y = none ∧ c = c') ∨
      ∃ a b, x = some a ∧ y = some b ∧ Gives (f a) c b c' := by
  rcases x with _ | a
  · change Gives (pure none) c y c' ↔ _
    simp [gives_pure, eq_comm]
  · change Gives (some <$> f a) c y c' ↔ _
    rw [← bind_pure_comp, gives_bind]
    simp only [gives_pure, reduceCtorEq, false_and, false_or, Option.some.injEq]
    constructor
    · rintro ⟨b, c₁, h, rfl, rfl⟩
      exact ⟨a, b, rfl, rfl, h⟩
    · rintro ⟨_, b, rfl, rfl, h⟩
      exact ⟨b, c', h, rfl, rfl⟩

/-! ## Scopes -/

theorem gives_defineVariable {v : Variable} {u : Unit} :
    Gives (defineVariable v) c u c' ↔
      (∃ scope, c.scopes.get? c.current = some scope ∧ scope.vars.get? v.name = none) ∧
        c' = { c with scopes := c.scopes.bindVariable c.current v.name v } := by
  simp only [defineVariable, gives_bind, gives_get, gives_lift, gives_set,
    Arena.defineVariable_eq_ok]
  constructor
  · rintro ⟨_, _, ⟨rfl, rfl⟩, _, _, ⟨⟨h, rfl⟩, rfl⟩, rfl⟩
    exact ⟨h, rfl⟩
  · rintro ⟨h, rfl⟩
    exact ⟨_, _, ⟨rfl, rfl⟩, _, _, ⟨⟨h, rfl⟩, rfl⟩, rfl⟩

theorem gives_defineFunction {f : Function} {u : Unit} :
    Gives (defineFunction f) c u c' ↔
      (∃ scope, c.scopes.get? c.current = some scope ∧ scope.funs.get? (f.name, f.arity) = none) ∧
        c' = { c with scopes := c.scopes.bindFunction c.current f.name f.arity f } := by
  simp only [defineFunction, gives_bind, gives_get, gives_lift, gives_set,
    Arena.defineFunction_eq_ok]
  constructor
  · rintro ⟨_, _, ⟨rfl, rfl⟩, _, _, ⟨⟨h, rfl⟩, rfl⟩, rfl⟩
    exact ⟨h, rfl⟩
  · rintro ⟨h, rfl⟩
    exact ⟨_, _, ⟨rfl, rfl⟩, _, _, ⟨⟨h, rfl⟩, rfl⟩, rfl⟩

def entered (c : Checker) : Checker :=
  { c with scopes := c.scopes.enter (some c.current), current := c.scopes.next }

theorem gives_inScope {body : Check α} {a : α} :
    Gives (inScope body) c a c' ↔ ∃ c₁, Gives body (entered c) a c₁ ∧
      c' = { c₁ with scopes := c₁.scopes.exit c.scopes.next, current := c.current } := by
  unfold Gives
  show ((body.run (entered c)).1, ({ (body.run (entered c)).2 with
    scopes := (body.run (entered c)).2.scopes.exit c.scopes.next, current := c.current } :
      Checker)) = _ ↔ _
  rcases body.run (entered c) with ⟨o, c₁⟩
  constructor
  · intro h
    cases h
    exact ⟨c₁, rfl, rfl⟩
  · rintro ⟨c₂, h, rfl⟩
    cases h
    rfl

theorem gives_inMethod {result : TypeId} {body : Check α} {a : α} :
    Gives (inMethod result body) c a c' ↔ ∃ c₁, Gives body { c with result := some result } a c₁ ∧
      c' = { c₁ with result := c.result } := by
  unfold Gives
  show ((body.run { c with result := some result }).1,
    ({ (body.run { c with result := some result }).2 with result := c.result } : Checker)) = _ ↔ _
  rcases body.run { c with result := some result } with ⟨o, c₁⟩
  constructor
  · intro h
    cases h
    exact ⟨c₁, rfl, rfl⟩
  · rintro ⟨c₂, h, rfl⟩
    cases h
    rfl

end Check

end TypedImp
