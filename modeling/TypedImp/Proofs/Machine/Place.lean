import TypedImp.Proofs.Machine.Plan

/-!
# Places in a plan

An environment describes the path of a plan from one of its scopes on (`Plan.Place`). A machine
that stands there finds what the environment knows (`Stands.lookupVariable`,
`Stands.lookupFunction`), can define what is fresh in the environment (`Stands.define`) and can
assign to what the environment knows (`Stands.assign`).
-/

namespace TypedImp

variable {holds : TypeId → Value → Prop} {serves : Function → Callable → Prop} {plan : Plan}
  {s t : ScopeId} {env : Environment} {m : Machine} {name : String} {v : Variable} {value : Value}

/-- The scopes from `s` up are the environment's. What is found there for a function serves it. -/
structure Plan.Place (serves : Function → Callable → Prop) (plan : Plan) (s : ScopeId)
    (env : Environment) : Prop where
  path : ∃ l, plan.Path s l ∧ l.map (·.2.vars) = env.frames ∧
    ∀ key f, env.functions.get? key = some f → key = (f.name, f.arity) ∧
      ∃ callable, l.findSome? (·.2.funs.get? key) = some callable ∧ serves f callable
  named : ∀ frame ∈ env.frames, ∀ name v, frame.get? name = some v → v.name = name

/-- The machine fits the plan, and execution is in this scope. -/
structure Machine.Stands (holds : TypeId → Value → Prop) (plan : Plan) (s : ScopeId)
    (m : Machine) : Prop where
  fits : plan.Fits holds m.scopes
  current : m.current = s

namespace Plan

theorem Place.frames_ne_nil (h : plan.Place serves s env) : env.frames ≠ [] := by
  obtain ⟨l, hl, hframes, -⟩ := h.path
  obtain ⟨q, up, rfl, -⟩ := hl.head
  rw [← hframes]
  exact List.cons_ne_nil _ _

theorem Place.declare (h : plan.Place serves s env) (v : Variable) :
    (plan.declare s v).Place serves s (env.declare v) where
  path := by
    obtain ⟨l, hl, hframes, hfuns⟩ := h.path
    obtain ⟨q, up, rfl, live⟩ := hl.head
    refine ⟨(s, q.bindVariable v.name v) :: up, hl.modify rfl, ?_, hfuns⟩
    rw [Environment.declare, ← hframes]
    rfl
  named := by
    intro frame hframe name w hw
    have hnamed := h.named
    unfold Environment.declare at hframe
    cases hf : env.frames with
    | nil =>
      rw [hf] at hframe
      cases hframe
    | cons first rest =>
      rw [hf] at hframe hnamed
      rcases List.mem_cons.1 hframe with rfl | hframe
      · rw [Table.get?_insert] at hw
        split_ifs at hw with hn
        · cases hw
          exact hn.symm
        · exact hnamed first (.head _) name w hw
      · exact hnamed frame (.tail _ hframe) name w hw

theorem Place.declareAll : ∀ (vs : List Variable) {plan : Plan} {env : Environment},
    plan.Place serves s env → (plan.declareAll s vs).Place serves s (env.declareAll vs)
  | [], _, _, h => h
  | v :: vs, _, _, h => declareAll vs (h.declare v)

theorem Place.enter (h : plan.Place serves s env) :
    Plan.Place serves (plan.enter (some s)) plan.next env.nest where
  path := by
    obtain ⟨l, hl, hframes, hfuns⟩ := h.path
    refine ⟨_, hl.enter_next, ?_, hfuns⟩
    rw [List.map_cons, hframes]
    rfl
  named := by
    intro frame hframe name w hw
    rcases List.mem_cons.1 hframe with rfl | hframe
    · cases hw
    · exact h.named frame hframe name w hw

/-- The result type of the method around a place does not show in the scopes. -/
theorem Place.withResult (h : plan.Place serves s env) (result : Option TypeId) :
    plan.Place serves s { env with result } :=
  ⟨h.path, h.named⟩

theorem Fits.findVariable? {a : Arena Value Callable} (h : plan.Fits holds a)
    (hp : plan.Place serves s env) (hv : env.findVariable? name = some v) :
    ∃ t q value, a.findVariable? s name = some (t, value) ∧ plan.get? t = some q ∧
      q.vars.get? name = some v ∧ holds v.type value := by
  obtain ⟨l, hl, hframes, -⟩ := hp.path
  obtain ⟨l', hl', hs⟩ := h.path hl
  have hmem := hl.mem
  rw [Environment.findVariable?, ← hframes] at hv
  rw [hl'.findVariable?]
  clear hl hl' hframes
  induction hs with
  | nil => cases hv
  | @cons q q' _ _ hq hs ih =>
    obtain ⟨hid, hfit⟩ := hq
    have hrel := hfit.vars name
    rw [List.map_cons, List.findSome?_cons] at hv
    rw [List.findSome?_cons]
    cases hqv : q.2.vars.get? name with
    | none =>
      rw [hqv] at hv hrel
      cases hav : q'.2.vars.get? name with
      | none => exact ih hv fun q hq => hmem q (.tail _ hq)
      | some value => rw [hav] at hrel; cases hrel
    | some w =>
      rw [hqv] at hv hrel
      cases hv
      cases hav : q'.2.vars.get? name with
      | none => rw [hav] at hrel; cases hrel
      | some value =>
        rw [hav] at hrel
        cases hrel with
        | some hholds => exact ⟨q'.1, q.2, value, rfl, hid ▸ (hmem q (.head _)).2, hqv, hholds⟩

theorem Fits.findFunction? {a : Arena Value Callable} (h : plan.Fits holds a)
    (hp : plan.Place serves s env) {arity : Nat} {f : Function}
    (hf : env.findFunction? name arity = some f) :
    name = f.name ∧ arity = f.arity ∧
      ∃ callable, a.findFunction? s name arity = some callable ∧ serves f callable := by
  obtain ⟨l, hl, -, hfuns⟩ := hp.path
  obtain ⟨l', hl', hs⟩ := h.path hl
  obtain ⟨hkey, callable, hc, hserves⟩ := hfuns _ f hf
  obtain ⟨rfl, rfl⟩ := Prod.mk.inj hkey
  refine ⟨rfl, rfl, callable, ?_, hserves⟩
  rw [hl'.findFunction?, ← hc]
  clear hl hl' hc hfuns
  induction hs with
  | nil => rfl
  | cons hq _ ih => rw [List.findSome?_cons, List.findSome?_cons, hq.2.funs, ih]

end Plan

namespace Machine.Stands

/-- A variable that the environment knows has a value that its type allows for. -/
theorem lookupVariable (hm : m.Stands holds plan s) (hp : plan.Place serves s env)
    (hv : env.findVariable? name = some v) :
    ∃ value, m.lookupVariable v.name = .ok value ∧ holds v.type value := by
  obtain ⟨t, q, value, hfind, -, -, hholds⟩ := hm.fits.findVariable? hp hv
  have hname : v.name = name := by
    obtain ⟨frame, hframe, hget⟩ := List.exists_of_findSome?_eq_some hv
    exact hp.named frame hframe name v hget
  refine ⟨value, ?_, hholds⟩
  rw [Machine.lookupVariable, Arena.lookupVariable_eq_ok, hm.current, hname]
  exact ⟨t, hfind⟩

theorem lookupFunction (hm : m.Stands holds plan s) (hp : plan.Place serves s env) {arity : Nat}
    {f : Function} (hf : env.findFunction? name arity = some f) :
    ∃ callable, m.lookupFunction f.name arity = .ok callable ∧ serves f callable := by
  obtain ⟨rfl, -, callable, hfind, hserves⟩ := hm.fits.findFunction? hp hf
  refine ⟨callable, ?_, hserves⟩
  rw [Machine.lookupFunction, Arena.lookupFunction_eq_ok, hm.current]
  exact hfind

/-- A variable that is fresh in the environment can be defined, with any value that its type allows
for. -/
theorem define (hm : m.Stands holds plan s) (hp : plan.Place serves s env)
    (fresh : env.Fresh v.name) (hv : holds v.type value) :
    ∃ scopes, m.scopes.defineVariable m.current v.name value = .ok scopes ∧
      ({ m with scopes } : Machine).Stands holds (plan.declare s v) s := by
  refine ⟨m.scopes.bindVariable m.current v.name value, ?_, ?_, hm.current⟩
  · rw [Arena.defineVariable_eq_ok, hm.current]
    obtain ⟨l, hl, hframes, -⟩ := hp.path
    obtain ⟨q, up, rfl, live⟩ := hl.head
    obtain ⟨scope, ha, hfit⟩ := hm.fits.live live
    have hnone : q.vars.get? v.name = none := fresh q.vars (by rw [← hframes]; rfl)
    have hrel := hfit.vars v.name
    rw [hnone] at hrel
    refine ⟨⟨scope, ha, ?_⟩, rfl⟩
    cases hs : scope.vars.get? v.name with
    | none => rfl
    | some _ => rw [hs] at hrel; cases hrel
  · rw [hm.current]
    exact hm.fits.declare hv s

/-- A variable that the environment knows can take any value that its type allows for. -/
theorem assign (hm : m.Stands holds plan s) (hp : plan.Place serves s env)
    (hv : env.findVariable? name = some v) (hvalue : holds v.type value) :
    ∃ old scopes, m.scopes.setVariable m.current v.name value = .ok (old, scopes) ∧
      ({ m with scopes } : Machine).Stands holds plan s := by
  obtain ⟨t, q, old, hfind, hq, hget, -⟩ := hm.fits.findVariable? hp hv
  have hname : v.name = name := by
    obtain ⟨frame, hframe, hget⟩ := List.exists_of_findSome?_eq_some hv
    exact hp.named frame hframe name v hget
  refine ⟨old, m.scopes.bindVariable t name value, ?_, hm.fits.assign hq hget hvalue, hm.current⟩
  rw [Arena.setVariable_eq, hm.current, hname, hfind]

end Machine.Stands

end TypedImp
