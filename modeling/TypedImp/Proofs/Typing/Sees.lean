import TypedImp.Proofs.Typing.Judgement
import TypedImp.Proofs.Typing.Step

/-!
# Where a check stands

The scopes around the place that a check has reached are an environment (`Checker.Sees`): names
mean in them what they mean there. A declaration changes both alike, and leaving a scope gives
back the state in which it was entered (`leave_declareAll`).
-/

namespace TypedImp

namespace Checker

/-- The scopes from the current one up are the environment's. -/
structure Sees (c : Checker) (env : Environment) : Prop where
  path : ∃ l, c.scopes.Path c.current l ∧ l.map (·.2.vars) = env.frames ∧
    ∀ key, l.findSome? (·.2.funs.get? key) = env.functions.get? key
  keyed : ∀ key f, env.functions.get? key = some f → key = (f.name, f.arity)
  result : c.result = env.result

def declare (c : Checker) (v : Variable) : Checker :=
  { c with scopes := c.scopes.bindVariable c.current v.name v }

def declareAll (c : Checker) (vs : List Variable) : Checker :=
  vs.foldl declare c

def declareFunction (c : Checker) (f : Function) : Checker :=
  { c with scopes := c.scopes.bindFunction c.current f.name f.arity f }

variable {c : Checker} {env : Environment}

theorem declareAll_result : ∀ (vs : List Variable) (c : Checker),
    (c.declareAll vs).result = c.result
  | [], _ => rfl
  | v :: vs, c => declareAll_result vs (c.declare v)

theorem declareAll_append (vs ws : List Variable) (c : Checker) :
    c.declareAll (vs ++ ws) = (c.declareAll vs).declareAll ws :=
  List.foldl_append

theorem exit_declareAll (s : ScopeId) : ∀ (vs : List Variable) {c : Checker},
    s.index ≤ c.current.index → (c.declareAll vs).scopes.exit s = c.scopes.exit s
  | [], _, _ => rfl
  | v :: vs, c, h =>
    (exit_declareAll s vs (c := c.declare v) h).trans (Arena.exit_modify c.scopes h _)

/-- Leaving a scope gives back the state in which it was entered. -/
theorem leave_declareAll (c : Checker) (vs : List Variable) :
    { (Check.entered c).declareAll vs with
      scopes := ((Check.entered c).declareAll vs).scopes.exit c.scopes.next,
      current := c.current } = c := by
  rw [exit_declareAll c.scopes.next vs (Nat.le_refl _)]
  simp only [declareAll_result, Check.entered, Arena.exit_enter]

namespace Sees

theorem frames_ne_nil (h : c.Sees env) : env.frames ≠ [] := by
  obtain ⟨l, hl, hframes, -⟩ := h.path
  obtain ⟨scope, up, rfl, -⟩ := hl.head
  rw [← hframes]
  exact List.cons_ne_nil _ _

theorem lookupVariable (h : c.Sees env) {name : String} {v : Variable} :
    c.lookupVariable name = .ok v ↔ env.findVariable? name = some v := by
  obtain ⟨l, hl, hframes, -⟩ := h.path
  rw [Checker.lookupVariable, Arena.lookupVariable_eq_ok, Environment.findVariable?, ← hframes,
    hl.findVariable?, List.findSome?_map]
  clear hl hframes
  induction l with
  | nil => simp
  | cons q l ih =>
    simp only [List.findSome?_cons, Function.comp_apply]
    cases q.2.vars.get? name with
    | none => simpa using ih
    | some w => simp

theorem lookupFunction (h : c.Sees env) {name : String} {arity : Nat} {f : Function} :
    c.lookupFunction name arity = .ok f ↔ env.findFunction? name arity = some f := by
  obtain ⟨l, hl, -, hfuns⟩ := h.path
  rw [Checker.lookupFunction, Arena.lookupFunction_eq_ok, Environment.findFunction?, ← hfuns,
    hl.findFunction?]

theorem arity_of_function (h : c.Sees env) {name : String} {arity : Nat} {f : Function}
    (hf : env.findFunction? name arity = some f) : f.arity = arity :=
  (congrArg Prod.snd (h.keyed _ f hf)).symm

theorem fresh_iff (h : c.Sees env) {name : String} :
    (∃ scope, c.scopes.get? c.current = some scope ∧ scope.vars.get? name = none) ↔
      env.Fresh name := by
  obtain ⟨l, hl, hframes, -⟩ := h.path
  obtain ⟨scope, up, rfl, live⟩ := hl.head
  rw [Environment.Fresh, ← hframes]
  simp [live]

theorem declare (h : c.Sees env) (v : Variable) : (c.declare v).Sees (env.declare v) where
  path := by
    obtain ⟨l, hl, hframes, hfuns⟩ := h.path
    obtain ⟨scope, up, rfl, live⟩ := hl.head
    refine ⟨(c.current, scope.bindVariable v.name v) :: up, hl.modify rfl, ?_, ?_⟩
    · rw [Environment.declare, ← hframes]
      rfl
    · intro key
      rw [Environment.declare, ← hfuns key]
      rfl
  keyed := h.keyed
  result := h.result

theorem declareAll : ∀ (vs : List Variable) {c : Checker} {env : Environment}, c.Sees env →
    (c.declareAll vs).Sees (env.declareAll vs)
  | [], _, _, h => h
  | v :: vs, _, _, h => declareAll vs (h.declare v)

theorem entered (h : c.Sees env) : (Check.entered c).Sees env.nest where
  path := by
    obtain ⟨l, hl, hframes, hfuns⟩ := h.path
    refine ⟨_, hl.enter_next, ?_, ?_⟩
    · rw [List.map_cons, hframes]
      rfl
    · intro key
      rw [List.findSome?_cons]
      exact hfuns key
  keyed := h.keyed
  result := h.result

theorem declareFunction (h : c.Sees env) (houter : env.frames.length = 1) (f : Function) :
    (c.declareFunction f).Sees (env.declareFunction f) where
  path := by
    obtain ⟨l, hl, hframes, hfuns⟩ := h.path
    obtain ⟨scope, up, rfl, live⟩ := hl.head
    rw [← hframes, List.length_map] at houter
    obtain rfl : up = [] := by simpa using houter
    refine ⟨[(c.current, scope.bindFunction f.name f.arity f)], hl.modify rfl, ?_, ?_⟩
    · rw [Environment.declareFunction, ← hframes]
      rfl
    · intro key
      have hkey : scope.funs.get? key = env.functions.get? key := by
        simpa using hfuns key
      simp [Environment.declareFunction, Scope.bindFunction, Table.get?_insert, hkey]
  keyed := Keyed.declareFunction h.keyed f
  result := h.result

end Sees

end Checker

end TypedImp
