import Mathlib.Tactic.Common
import TypedImp.Machine.Execute
import TypedImp.Proofs.Outcome

/-!
# The runs of steps

What a run of a composed step comes to, from the runs of its parts (`run_bind_eq_some`,
`run_inScope_eq_some`). A step that does not end within its budget has no run.
-/

namespace TypedImp

variable {α β : Type} {m m' : Machine} {o : Except Error α}

namespace Exec

def entered (m : Machine) (parent : ScopeId) : Machine :=
  { m with scopes := m.scopes.enter (some parent), current := m.scopes.next }

/-- The machine after the scope that it entered in `m` is left again. -/
def left (m m' : Machine) : Machine :=
  { m' with scopes := m'.scopes.exit m.scopes.next, current := m.current }

theorem run_bind (step : Exec α) (next : α → Exec β) (m : Machine) :
    (step >>= next).run m = (step.run m).bind fun p =>
      match p.1 with
      | .ok a => (next a).run p.2
      | .error e => some (.error e, p.2) := by
  change ((step.run m).bind fun p =>
    (ExceptT.bindCont next p.1 : StateT Machine Option _) p.2) = _
  congr 1
  funext ⟨o, m₁⟩
  cases o <;> rfl

/-- A step that goes on with the result of another one ends as its second part does, or in the
error of its first. -/
theorem run_bind_eq_some {step : Exec α} {next : α → Exec β} {o : Except Error β} :
    (step >>= next).run m = some (o, m') ↔
      (∃ a m₁, step.run m = some (.ok a, m₁) ∧ (next a).run m₁ = some (o, m')) ∨
        ∃ e, step.run m = some (.error e, m') ∧ o = .error e := by
  rw [run_bind, Option.bind_eq_some_iff]
  constructor
  · rintro ⟨⟨_ | a, m₁⟩, h, hnext⟩
    · cases hnext
      exact .inr ⟨_, h, rfl⟩
    · exact .inl ⟨a, m₁, h, hnext⟩
  · rintro (⟨a, m₁, h, hnext⟩ | ⟨e, h, rfl⟩)
    · exact ⟨_, h, hnext⟩
    · exact ⟨_, h, rfl⟩

theorem run_bind_eq_ok {step : Exec α} {next : α → Exec β} {b : β} :
    (step >>= next).run m = some (.ok b, m') ↔
      ∃ a m₁, step.run m = some (.ok a, m₁) ∧ (next a).run m₁ = some (.ok b, m') := by
  rw [run_bind_eq_some, or_iff_left]
  rintro ⟨e, -, h⟩
  cases h

theorem run_pure_eq_some {a : α} :
    (pure a : Exec α).run m = some (o, m') ↔ o = .ok a ∧ m' = m := by
  constructor
  · rintro ⟨⟩
    exact ⟨rfl, rfl⟩
  · rintro ⟨rfl, rfl⟩
    rfl

theorem run_lift (o : Except Error α) (m : Machine) : (liftM o : Exec α).run m = some (o, m) := by
  cases o <;> rfl

theorem run_lift_bind (o : Except Error α) (next : α → Exec β) (m : Machine) :
    (liftM o >>= next).run m =
      match o with
      | .ok a => (next a).run m
      | .error e => some (.error e, m) := by
  cases o <;> rfl

theorem run_get_bind (next : Machine → Exec β) (m : Machine) :
    (get >>= next).run m = (next m).run m :=
  rfl

theorem run_set_bind (m' : Machine) (next : PUnit → Exec β) (m : Machine) :
    (set m' >>= next).run m = (next ⟨⟩).run m' :=
  rfl

theorem run_inScope (parent : ScopeId) (body : Exec α) (m : Machine) :
    (inScope parent body).run m =
      (body.run (entered m parent)).map fun p => (p.1, left m p.2) :=
  (Option.map_eq_bind ..).symm

theorem run_inScope_eq_some {parent : ScopeId} {body : Exec α} :
    (inScope parent body).run m = some (o, m') ↔
      ∃ m₁, body.run (entered m parent) = some (o, m₁) ∧ m' = left m m₁ := by
  rw [run_inScope, Option.map_eq_some_iff]
  constructor
  · rintro ⟨⟨o₁, m₁⟩, h, hp⟩
    cases hp
    exact ⟨m₁, h, rfl⟩
  · rintro ⟨m₁, h, rfl⟩
    exact ⟨_, h, rfl⟩

end Exec

namespace Machine

variable {name : String}

theorem defineVariable_eq_ok {v : Value} :
    m.defineVariable name v = .ok m' ↔
      ∃ scopes, m.scopes.defineVariable root name v = .ok scopes ∧ m' = { m with scopes } := by
  refine bind_eq_ok.trans (exists_congr fun scopes => and_congr_right fun _ => ?_)
  exact pure_eq_ok.trans eq_comm

theorem defineFunction_eq_ok {arity : Nat} {callable : Callable} :
    m.defineFunction name arity callable = .ok m' ↔
      ∃ scopes, m.scopes.defineFunction root name arity callable = .ok scopes ∧
        m' = { m with scopes } := by
  refine bind_eq_ok.trans (exists_congr fun scopes => and_congr_right fun _ => ?_)
  exact pure_eq_ok.trans eq_comm

theorem memberScope_eq_ok {object : Value} {s : ScopeId} :
    memberScope object name = .ok s ↔ object.members = some s := by
  unfold memberScope
  split
  · rename_i h
    rw [h, Option.some.injEq, Except.ok.injEq]
  · rename_i h
    simp [h]

theorem defineMemberVariable_eq_ok {object v : Value} :
    m.defineMemberVariable object name v = .ok m' ↔
      ∃ s, object.members = some s ∧
        ∃ scopes, m.scopes.defineVariable s name v = .ok scopes ∧ m' = { m with scopes } := by
  refine bind_eq_ok.trans (exists_congr fun s => and_congr memberScope_eq_ok ?_)
  refine bind_eq_ok.trans (exists_congr fun scopes => and_congr_right fun _ => ?_)
  exact pure_eq_ok.trans eq_comm

theorem defineMemberFunction_eq_ok {object : Value} {arity : Nat} {body : Body} :
    m.defineMemberFunction object name arity body = .ok m' ↔
      ∃ s, object.members = some s ∧
        ∃ scopes, m.scopes.defineFunction s name (Function.withReceiver arity) (.body body) =
          .ok scopes ∧ m' = { m with scopes } := by
  refine bind_eq_ok.trans (exists_congr fun s => and_congr memberScope_eq_ok ?_)
  refine bind_eq_ok.trans (exists_congr fun scopes => and_congr_right fun _ => ?_)
  exact pure_eq_ok.trans eq_comm

end Machine

end TypedImp
