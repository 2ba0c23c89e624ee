import TypedImp.Proofs.Machine.Objects
import TypedImp.Proofs.Machine.Simulation
import TypedImp.Proofs.Scope.Refit

/-!
# Machines that differ in functions

Two machines whose outermost scopes bind different functions go through the same, as long as what is
called without a receiver is bound in the same way in both (`Simulation.refit`). Calls with a
receiver never get to the outermost scope.
-/

namespace TypedImp

open Exec

/-- The machine with other functions in the outermost scope. -/
def Machine.refit (m : Machine) (funs : Table (String × Nat) Callable) : Machine :=
  { m with scopes := m.scopes.refit root funs }

namespace Machine

variable {m : Machine} {funs : Table (String × Nat) Callable}

theorem refit_refit (m : Machine) (funs funs' : Table (String × Nat) Callable) :
    (m.refit funs).refit funs' = m.refit funs' := by
  unfold refit
  rw [Arena.refit_refit]

theorem refit_self (h : m.scopes.functions? root = some funs) : m.refit funs = m := by
  obtain ⟨top, htop, rfl⟩ := Option.map_eq_some_iff.1 h
  unfold refit
  rw [Arena.refit_self htop]

theorem functions?_refit (h : m.scopes.functions? root = some funs)
    (funs' : Table (String × Nat) Callable) :
    (m.refit funs').scopes.functions? root = some funs' := by
  obtain ⟨top, htop, -⟩ := Option.map_eq_some_iff.1 h
  rw [Arena.functions?, refit, Arena.get?_refit, if_pos rfl, htop]
  rfl

/-- Defining a function whose key is free gives the outermost scope other functions. -/
theorem defineFunction_eq_refit (h : m.scopes.functions? root = some funs) {name : String}
    {arity : Nat} (hnone : funs.get? (name, arity) = none) (callable : Callable) :
    m.defineFunction name arity callable =
      .ok (m.refit (funs.insert (name, arity) callable)) := by
  obtain ⟨top, htop, rfl⟩ := Option.map_eq_some_iff.1 h
  rw [defineFunction_eq_ok]
  refine ⟨_, Arena.defineFunction_eq_ok.2 ⟨⟨top, htop, hnone⟩, rfl⟩, ?_⟩
  rw [Arena.bindFunction_eq_refit htop]
  rfl

end Machine

/-- The second machine differs from the first one in the functions of the outermost scope only.
Since the run began, `j` scopes were entered. -/
structure Machine.Refitted {r : Registry} (S : Stock r) (k : Nat)
    (funs funs' : Table (String × Nat) Callable) (j : Nat) (m m' : Machine) : Prop where
  eq : m' = m.refit funs'
  stocked : S.Stocked m
  laid : m.Laid k
  size : m.scopes.size = k + j
  functions : m.scopes.functions? Machine.root = some funs

variable {r : Registry} {S : Stock r} {k j : Nat} {funs funs' : Table (String × Nat) Callable}
  {m m' m₁ m₁' : Machine} {s : ScopeId} {object v : Value} {name : String}

namespace Machine.Refitted

theorem current (h : Refitted S k funs funs' j m m') : m'.current = m.current := by
  rw [h.eq]
  rfl

/-- A function that both outermost scopes bind in the same way is found in the same way. -/
theorem lookupFunction (h : Refitted S k funs funs' j m m') {arity : Nat} {callable : Callable}
    (hf : funs.get? (name, arity) = some callable)
    (hf' : funs'.get? (name, arity) = some callable) :
    m'.lookupFunction name arity = m.lookupFunction name arity := by
  obtain ⟨found, hfound⟩ := h.laid.exists_lookupFunction h.functions (by rw [hf]; rfl)
  rw [hfound, h.eq]
  refine Arena.lookupFunction_refit hfound fun top htop => ?_
  have hfuns := h.functions
  rw [Arena.functions?, htop] at hfuns
  cases hfuns
  rw [hf, hf']

theorem readField (h : Refitted S k funs funs' j m m') (object : Value) (name : String) :
    m'.readField r object name = m.readField r object name := by
  rw [h.eq]
  unfold Machine.readField Machine.refit
  rcases object.members with _ | s
  · rfl
  · rw [Option.map_some, Option.map_some, Arena.lookupVariable_refit]

theorem resolveMethod (h : Refitted S k funs funs' j m m') (hS : S.Outer k)
    (hroot : ∀ s, object.members = some s → s ≠ root) (ho : S.good object) (name : String)
    (arity : Nat) : m'.resolveMethod r object name arity = m.resolveMethod r object name arity := by
  rw [h.eq]
  unfold Machine.resolveMethod Machine.refit
  rcases hmembers : object.members with _ | s
  · rfl
  · obtain ⟨scope, -, hchain⟩ := h.laid.chain_outer (hS.members ho hmembers)
    have hmem : ∀ q ∈ (m.scopes.chain s).scopes, q.1 ≠ root := by
      rw [hchain]
      exact List.forall_mem_singleton.2 (hroot s hmembers)
    rw [Option.map_some, Option.map_some, Arena.lookupFunction_refit_of_not_mem hmem]

theorem bindVariable (h : Refitted S k funs funs' j m m') (hv : S.good v) (s : ScopeId)
    (name : String) : Refitted S k funs funs' j
      { m with scopes := m.scopes.bindVariable s name v }
      { m' with scopes := (m.scopes.bindVariable s name v).refit root funs' } where
  eq := by rw [h.eq]; rfl
  stocked := Arena.Fills.bindVariable h.stocked s name hv
  laid := h.laid.of_aligned (aligned_bindVariable ..)
  size := (Arena.size_modify ..).trans h.size
  functions := (Arena.functions?_bindVariable ..).trans h.functions

theorem define (h : Refitted S k funs funs' j m m') (hv : S.good v) (name : String) :
    Alike (Refitted S k funs funs' j) (Exec.defineVariable name v) (Exec.defineVariable name v) m m'
      fun _ => True := by
  have hdef : m'.scopes.defineVariable m'.current name v =
      (m.scopes.defineVariable m.current name v).map fun a => a.refit root funs' := by
    rw [h.eq]
    exact Arena.defineVariable_refit ..
  refine alike_get_bind ?_
  unfold Alike
  rw [run_lift_bind, run_lift_bind, hdef]
  cases hscopes : m.scopes.defineVariable m.current name v with
  | error e => exact .some ⟨rfl, h, fun _ _ => trivial⟩
  | ok scopes =>
    obtain ⟨-, rfl⟩ := Arena.defineVariable_eq_ok.1 hscopes
    exact .some ⟨rfl, h.bindVariable hv _ _, fun _ _ => trivial⟩

theorem assign (h : Refitted S k funs funs' j m m') (hv : S.good v) (s : ScopeId) (name : String) :
    Alike (Refitted S k funs funs' j) (Exec.setVariable s name v) (Exec.setVariable s name v) m m'
      fun _ => True := by
  have hset : m'.scopes.setVariable s name v =
      (m.scopes.setVariable s name v).map fun p => (p.1, p.2.refit root funs') := by
    rw [h.eq]
    exact Arena.setVariable_refit ..
  refine alike_get_bind ?_
  unfold Alike
  rw [run_lift_bind, run_lift_bind, hset]
  cases hscopes : m.scopes.setVariable s name v with
  | error e => exact .some ⟨rfl, h, fun _ _ => trivial⟩
  | ok p =>
    obtain ⟨old, scopes⟩ := p
    obtain ⟨t, -, rfl⟩ := Arena.setVariable_eq_ok.1 hscopes
    exact .some ⟨rfl, h.bindVariable hv _ _, fun _ _ => trivial⟩

theorem enter (h : Refitted S k funs funs' j m m') {p : ScopeId} (hlaid : (entered m p).Laid k) :
    Refitted S k funs funs' (j + 1) (entered m p) (entered m' p) where
  eq := by
    have hnext : (m.scopes.refit root funs').next = m.scopes.next :=
      congrArg ScopeId.mk (Arena.size_refit ..)
    rw [h.eq, entered, Machine.refit, entered, Machine.refit, Arena.enter_refit h.laid.root_lt,
      hnext]
  stocked := h.stocked.entered p
  laid := hlaid
  size := (Arena.size_enter ..).trans (congrArg (· + 1) h.size)
  functions := by
    rw [Arena.functions?, entered, Arena.get?_enter_of_lt h.laid.root_lt]
    exact h.functions

theorem leave (h : Refitted S k funs funs' j m m') (h₁ : Refitted S k funs funs' (j + 1) m₁ m₁') :
    Refitted S k funs funs' j (left m m₁) (left m' m₁') where
  eq := by
    have hnext : (m.scopes.refit root funs').next = m.scopes.next :=
      congrArg ScopeId.mk (Arena.size_refit ..)
    rw [h.eq, h₁.eq, left, Machine.refit, Machine.refit, left, Machine.refit, hnext,
      Arena.exit_refit]
  stocked := Arena.Fills.exit h₁.stocked _
  laid := h.laid.left h₁.laid (by rw [h.size, h₁.size]; omega)
  size := (Machine.size_left (by rw [h.size, h₁.size]; omega)).trans h.size
  functions := by
    rw [Arena.functions?, get?_left h.laid.root_lt]
    exact h₁.functions

end Machine.Refitted

/-- Runs that call only what both outermost scopes bind in the same way go through the same. No
object has its members in the outermost scope. -/
def Simulation.refit (hS : S.Outer k) {known : String × Nat → Prop}
    (hcalls : ∀ {key method closure}, S.bound key (.method method closure) →
      ∀ key ∈ Typed.blockCalls method.body, known key)
    (hroot : ∀ v, S.good v → v.members ≠ some Machine.root)
    (hknown : ∀ key, known key →
      ∃ callable, funs.get? key = some callable ∧ funs'.get? key = some callable) :
    Simulation S r where
  Rel := Machine.Refitted S k funs funs'
  stocked h := h.stocked
  known := known
  calls := hcalls
  lookupVariable h name := by
    rw [h.eq]
    exact Arena.lookupVariable_refit ..
  lookupFunction h name arity hk := by
    obtain ⟨callable, hf, hf'⟩ := hknown _ hk
    exact h.lookupFunction hf hf'
  readField h object _ name := h.readField object name
  resolveMethod h object ho name arity :=
    h.resolveMethod hS (fun s hs heq => hroot object ho (heq ▸ hs)) ho name arity
  refuse h line := by
    rw [h.eq]
    rfl
  print h text := { h with laid := { h.laid with }, eq := by rw [h.eq]; rfl }
  define h _ hv name := h.define hv name
  assign h v hv name := by
    rw [h.current]
    exact h.assign hv _ name
  assignMember h _ _ s _ _ hv name := h.assign hv s name
  block h := by
    rw [h.current]
    exact h.enter h.laid.entered_current
  body h key method closure hc := by
    obtain rfl := hS.closure hc
    exact h.enter h.laid.entered_root
  leave h h₁ := h.leave h₁

end TypedImp
