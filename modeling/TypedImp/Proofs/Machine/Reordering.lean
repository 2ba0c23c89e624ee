import TypedImp.Proofs.Machine.Refit
import TypedImp.Proofs.Typing.Order

/-!
# Runs with the methods in another order

All methods are defined before one of them runs, each under a key of its own. So it makes no
difference in which order they are defined, nor whether there are others that nothing calls. Main
statement (`order_irrelevant`): programs with the same methods in another order, and those with a
further overload, are decorated alike and run alike.
-/

namespace TypedImp

open Exec

/-! ## What a host sees -/

/-- The outcome of a step and what has been printed then, if the step ends. -/
def Exec.observed {α : Type} (step : Exec α) (m : Machine) : Option (Except Error α × String) :=
  (step.run m).map fun p => (p.1, p.2.output)

variable {α β : Type} {m m' : Machine}

theorem observed_of_alike {R : Machine → Machine → Prop} {step step' : Exec α} {post : α → Prop}
    (h : Alike R step step' m m' post) (hR : ∀ m m', R m m' → m'.output = m.output) :
    observed step' m' = observed step m := by
  unfold Alike at h
  unfold observed
  generalize step.run m = o, step'.run m' = o' at h
  cases h with
  | none => rfl
  | some hp =>
    obtain ⟨houtcome, hmachine, -⟩ := hp
    rw [Option.map_some, Option.map_some, houtcome, hR _ _ hmachine]

theorem observed_bind {step : Exec α} {next next' : α → Exec β}
    (h : ∀ a m₁, step.run m = some (.ok a, m₁) → observed (next' a) m₁ = observed (next a) m₁) :
    observed (step >>= next') m = observed (step >>= next) m := by
  unfold observed at h ⊢
  rw [run_bind, run_bind]
  cases hrun : step.run m with
  | none => rfl
  | some p =>
    obtain ⟨outcome, m₁⟩ := p
    cases outcome with
    | ok a => exact h a m₁ hrun
    | error e => rfl

theorem observed_bind_of_run {step : Exec α} {next : α → Exec β} {a : α}
    (h : step.run m = some (.ok a, m')) : observed (step >>= next) m = observed (next a) m' := by
  unfold observed
  rw [run_bind, h]
  rfl

/-! ## Defining methods -/

/-- The functions of the outermost scope once these methods are defined in it. -/
def bindMethods (funs : Table (String × Nat) Callable) (methods : List Typed.Method) :
    Table (String × Nat) Callable :=
  methods.foldl (fun funs method => funs.insert method.key (.method method Machine.root)) funs

theorem bindMethods_cons (funs : Table (String × Nat) Callable) (method : Typed.Method)
    (methods : List Typed.Method) : bindMethods funs (method :: methods) =
      bindMethods (funs.insert method.key (.method method Machine.root)) methods :=
  rfl

theorem get?_bindMethods_of_ne {key : String × Nat} : ∀ {methods : List Typed.Method}
    {funs : Table (String × Nat) Callable}, (∀ method ∈ methods, method.key ≠ key) →
    (bindMethods funs methods).get? key = funs.get? key
  | [], _, _ => rfl
  | method :: methods, funs, h => by
    rw [List.forall_mem_cons] at h
    exact (get?_bindMethods_of_ne h.2).trans (Table.get?_insert_of_ne _ _ h.1.symm)

/-- A method is found under its key, whatever the place it was defined at. -/
theorem get?_bindMethods : ∀ {methods : List Typed.Method} {funs : Table (String × Nat) Callable},
    (methods.map Typed.Method.key).Nodup → ∀ method ∈ methods,
    (bindMethods funs methods).get? method.key = some (.method method Machine.root)
  | first :: methods, funs, hd, method, hmem => by
    obtain ⟨hfirst, hd⟩ := List.nodup_cons.1 hd
    rw [bindMethods_cons]
    rcases List.mem_cons.1 hmem with rfl | hmem
    · refine (get?_bindMethods_of_ne fun other hother heq => ?_).trans (Table.get?_insert_self ..)
      exact hfirst (heq ▸ List.mem_map_of_mem hother)
    · exact get?_bindMethods hd method hmem

theorem run_defineMethods : ∀ {methods : List Typed.Method} {m : Machine}
    {funs : Table (String × Nat) Callable}, m.scopes.functions? Machine.root = some funs →
    (methods.map Typed.Method.key).Nodup → (∀ method ∈ methods, funs.get? method.key = none) →
    (Context.defineMethods methods).run m = some (.ok (), m.refit (bindMethods funs methods))
  | [], m, funs, hfuns, _, _ =>
    congrArg (fun m => some (Except.ok (), m)) (Machine.refit_self hfuns).symm
  | method :: methods, m, funs, hfuns, hd, hfree => by
    obtain ⟨hfirst, hd⟩ := List.nodup_cons.1 hd
    obtain ⟨hnone, hrest⟩ := List.forall_mem_cons.1 hfree
    have hdef : m.defineFunction method.function.name method.parameters.length
        (.method method Machine.root) = .ok (m.refit _) :=
      Machine.defineFunction_eq_refit hfuns hnone _
    have hfree' : ∀ other ∈ methods, (funs.insert method.key
        (.method method Machine.root)).get? other.key = none := by
      intro other hmem
      rw [Table.get?_insert_of_ne, hrest other hmem]
      rintro heq
      exact hfirst (heq ▸ List.mem_map_of_mem hmem)
    have hnext := run_defineMethods (Machine.functions?_refit hfuns _) hd hfree'
    unfold Context.defineMethods
    rw [run_get_bind, hdef, run_lift_bind]
    refine hnext.trans ?_
    rw [Machine.refit_refit, bindMethods_cons]

/-! ## Runs -/

/-- What is bound in a run of these methods. -/
def Binds (objects : List ScopeId) (methods : List Typed.Method) : Callable → Prop
  | .body body => body.Keeps objects
  | .print => True
  | .method method closure => closure = Machine.root ∧ method ∈ methods

/-- The values over some objects, and what is bound in a run of these methods. -/
def Stock.offering {r : Registry} {objects : List ScopeId} (hr : r.Keeps objects)
    (methods : List Typed.Method) : Stock r :=
  .over objects (fun _ => Binds objects methods) hr fun _ _ h => h

/-- A host may have this program run for the first time: no other one has been run, and nothing is
bound that the program defines. Otherwise the run fails at the first method whose key is taken, and
which one this is does depend on their order. -/
structure Session.Ready (r : Registry) (σ : Session) (t : Typed.Program) : Prop where
  reached : Reached r σ
  honest : σ.Honest r
  first : σ.machine.scopes.Fills (fun _ => True) fun _ callable =>
    ∀ method closure, callable ≠ .method method closure
  free : ∀ method ∈ t.methods, ¬ σ.machine.scopes.BindsFunction Machine.root method.key

namespace Session.Ready

variable {r : Registry} {σ : Session} {t : Typed.Program}

theorem stocked (h : σ.Ready r t) (methods : List Typed.Method) :
    (Stock.offering h.honest.registry methods).Stocked σ.machine := by
  intro s scope hs
  refine ⟨(h.reached.sound.fills s scope hs).values, fun key callable hc => ?_⟩
  cases callable with
  | body body => exact (h.honest.bodies s scope hs).functions key _ hc body rfl
  | print => trivial
  | method method closure =>
    exact ((h.first s scope hs).functions key _ hc method closure rfl).elim

/-- The outermost scope binds `print` and none of the program's methods. -/
theorem functions (h : σ.Ready r t) : ∃ funs,
    σ.machine.scopes.functions? Machine.root = some funs ∧
    (funs.get? ("print", 1)).isSome ∧ ∀ method ∈ t.methods, funs.get? method.key = none := by
  have hgrown := (Sound.initial.grown_calls h.reached).1
  obtain ⟨top, htop, hprint⟩ := hgrown.functions Machine.root ("print", 1) ⟨_, rfl, rfl⟩
  refine ⟨top.funs, by rw [Arena.functions?, htop]; rfl, hprint, fun method hmem => ?_⟩
  refine Option.not_isSome_iff_eq_none.1 fun hbound => ?_
  exact h.free method hmem ⟨top, htop, hbound⟩

theorem outer (h : σ.Ready r t) (methods : List Typed.Method) :
    (Stock.offering h.honest.registry methods).Outer σ.machine.scopes.size where
  members hv hs := ((h.reached.sound.mem_objects _).1 (Value.Over.members hv hs)).2
  closure h := h.1

theorem members_ne_root (h : σ.Ready r t) {v : Value} (hv : v.Over σ.objects) :
    v.members ≠ some Machine.root := by
  intro hs
  exact Nat.lt_irrefl _ ((h.reached.sound.mem_objects _).1 (Value.Over.members hv hs)).1

theorem fresh {r : Registry} (hr : r.Keeps []) {t : Typed.Program} (ht : t.Complete)
    (sink : Sink) : Session.Ready r ⟨[], Machine.initial.redirect sink⟩ t where
  reached := .tail .refl (.redirect initial sink)
  honest := honest_of_fills hr (Arena.Fills.bindFunction fills_initial _ nofun)
  first := Arena.Fills.bindFunction (Machine.fills_initial nofun) _ nofun
  free method hmem := by
    rintro ⟨scope, hscope, hbound⟩
    cases hscope
    change (Table.get? [(("print", 1), Callable.print)] method.key).isSome at hbound
    rw [Table.get?_cons, if_neg (ht.apart method hmem)] at hbound
    cases hbound

end Session.Ready

variable {r : Registry} {σ : Session} {t t' : Typed.Program}

/-- What a program offers is bound in the same way once further methods are defined with its own. -/
theorem exists_bound (hc : t.Complete) (hc' : t'.Complete) (hsub : t.methods ⊆ t'.methods)
    {funs : Table (String × Nat) Callable} (hprint : (funs.get? ("print", 1)).isSome) :
    ∀ key, Offered t.methods key → ∃ callable,
      (bindMethods funs t.methods).get? key = some callable ∧
        (bindMethods funs t'.methods).get? key = some callable := by
  rintro key (rfl | ⟨method, hmem, rfl⟩)
  · obtain ⟨callable, hcallable⟩ := Option.isSome_iff_exists.1 hprint
    exact ⟨callable, (get?_bindMethods_of_ne hc.apart).trans hcallable,
      (get?_bindMethods_of_ne hc'.apart).trans hcallable⟩
  · exact ⟨_, get?_bindMethods hc.distinct method hmem,
      get?_bindMethods hc'.distinct method (hsub hmem)⟩

/-- Where other methods are defined, with these among them, the machine differs in functions
only. -/
theorem refitted_bindMethods {S : Stock r} {k : Nat} (hstocked : S.Stocked m) (hlaid : m.Laid k)
    (hsize : m.scopes.size = k) {funs : Table (String × Nat) Callable}
    (hfuns : m.scopes.functions? Machine.root = some funs) {methods : List Typed.Method}
    (hbound : ∀ method ∈ methods, S.bound method.key (.method method Machine.root))
    (hrun : (Context.defineMethods methods).run m =
      some (.ok (), m.refit (bindMethods funs methods)))
    (funs' : Table (String × Nat) Callable) :
    Machine.Refitted S k (bindMethods funs methods) funs' 0
      (m.refit (bindMethods funs methods)) (m.refit funs') := by
  have hworks := S.works_defineMethods hbound hrun
  have haligned := Stock.aligned_of_works hworks
  exact
    { eq := (Machine.refit_refit m (bindMethods funs methods) funs').symm
      stocked := Stock.stocked_of_works hworks hstocked
      laid := hlaid.of_aligned haligned
      size := haligned.size.trans hsize
      functions := Machine.functions?_refit hfuns _ }

/-- A run sees nothing of further methods, nor of the order in which methods are defined. -/
theorem observed_run (hσ : σ.Ready r t') (hc : t.Complete) (hc' : t'.Complete)
    (hfields : t'.fields = t.fields) (hsub : t.methods ⊆ t'.methods) (budget : Budget) :
    observed (run r budget t') σ.machine = observed (run r budget t) σ.machine := by
  let S := Stock.offering hσ.honest.registry t.methods
  have hsound := hσ.reached.sound
  have hstocked : S.Stocked σ.machine := hσ.stocked t.methods
  obtain ⟨funs, hfuns, hprint, hfree⟩ := hσ.functions
  unfold run Context.run
  rw [hfields]
  refine observed_bind fun _ m₁ hf => ?_
  obtain ⟨_, heffect⟩ :=
    Stock.effect_of_defineFields rfl (S.serves_within budget) hstocked hsound.current hf
  have hkept := heffect.kept
  have hfuns₁ := (hkept.functions Machine.root).trans hfuns
  -- all methods of either program are defined, in machines that differ in functions only
  have hrun := run_defineMethods hfuns₁ hc.distinct fun method hmem => hfree method (hsub hmem)
  have hrun' := run_defineMethods hfuns₁ hc'.distinct hfree
  have h₂ := refitted_bindMethods (heffect.stocked hstocked)
    (hsound.laid.of_aligned hkept.toAligned) hkept.size hfuns₁ (fun method hmem => ⟨rfl, hmem⟩) hrun
    (bindMethods funs t'.methods)
  have hknown := exists_bound hc hc' hsub hprint
  let M := Simulation.refit (hσ.outer t.methods)
    (fun h => hc.calls _ h.2) (fun _ hv => hσ.members_ne_root hv) hknown
  have hx := M.pairs_callMethod budget.rounds budget.depth
  obtain ⟨main, hmain, hmain'⟩ := hknown _ hc.main
  have hlookup :
      (m₁.refit (bindMethods funs t'.methods)).scopes.lookupFunction Machine.root "main" 0 =
        (m₁.refit (bindMethods funs t.methods)).scopes.lookupFunction Machine.root "main" 0 :=
    hkept.current.trans hsound.current ▸ h₂.lookupFunction hmain hmain'
  rw [observed_bind_of_run hrun, observed_bind_of_run hrun']
  exact observed_of_alike (Simulation.alike_callMain hx h₂ hlookup) fun m m' h => by rw [h.eq]; rfl

/-- Within any budget, the second program ends as the first one does and has printed the same then,
or neither of them ends. -/
def Typed.Program.RunsAlike (r : Registry) (t t' : Typed.Program) : Prop :=
  ∀ σ : Session, σ.Ready r t' → ∀ budget,
    observed (run r budget t') σ.machine = observed (run r budget t) σ.machine

/-- Neither the order of methods nor a further one makes a difference to the others, nor to a run.
In an accepted program no two methods have one name and the same number of parameters, so a further
method is an overload at most. -/
theorem order_irrelevant (hr : r.Reachable) {p p' : Source.Program}
    (ht : Typing.check r p = .ok t) (ht' : Typing.check r p' = .ok t')
    (hfields : p'.fields = p.fields) :
    (p'.methods.Perm p.methods → t'.fields = t.fields ∧
      (p'.methods.zip t'.methods).Perm (p.methods.zip t.methods) ∧
      t'.methods.Perm t.methods ∧ t.RunsAlike r t') ∧
    ∀ m, p'.methods = p.methods ++ [m] → t'.fields = t.fields ∧
      (∃ m', t'.methods = t.methods ++ [m']) ∧ t.RunsAlike r t' := by
  have h := (Typing.check_iff hr).1 ht
  have h' := (Typing.check_iff hr).1 ht'
  have heq := fields_of_programTyped hr h h' hfields
  have hruns (hsub : p.methods ⊆ p'.methods) : t.RunsAlike r t' := fun σ hσ budget =>
    observed_run hσ (complete_of_programTyped h) (complete_of_programTyped h') heq
      (methods_subset hr h h' hfields hsub) budget
  constructor
  · intro hperm
    exact ⟨heq, zip_perm hr h h' hfields hperm, methods_perm hr h h' hfields hperm,
      hruns hperm.symm.subset⟩
  · intro m happend
    obtain ⟨ms, hms, hlength⟩ := methods_append hr h h' hfields happend
    obtain ⟨m', rfl⟩ := List.length_eq_one_iff.1 hlength
    exact ⟨heq, ⟨m', hms⟩, hruns (happend ▸ List.subset_append_left _ _)⟩

/-- Of two methods that may stand in either order, `main` calls both. -/
def Source.Program.pair : Source.Program where
  fields := [⟨"start", none, some (.literal (.integer 7))⟩]
  methods :=
    [⟨"show", ["n"], ["Integer"], none, [.expression (.call "print" [.var "n"])]⟩,
     ⟨"next", [], [], some "Integer",
      [.ret (.binary (.arithmetic .add) (.var "start") (.literal (.integer 1)))]⟩,
     ⟨"main", [], [], some "Integer",
      [.expression (.call "show" [.call "next" []]), .ret (.var "start")]⟩]

/-- The first two methods the other way round. -/
def Source.Program.pairSwapped : Source.Program where
  fields := pair.fields
  methods := (pair.methods.take 2).reverse ++ pair.methods.drop 2

/-- With an overload of the first method. -/
def Source.Program.pairOverloaded : Source.Program where
  fields := pair.fields
  methods := pair.methods ++
    [⟨"show", [], [], none, [.expression (.call "show" [.call "next" []])]⟩]

theorem order_irrelevant_pair : ∃ t t₁ t₂, Typing.check .builtin .pair = .ok t ∧
    Typing.check .builtin .pairSwapped = .ok t₁ ∧ Typing.check .builtin .pairOverloaded = .ok t₂ ∧
    t.methods.map (·.key.1) = ["show", "next", "main"] ∧
    t₁.methods.map (·.key.1) = ["next", "show", "main"] ∧
    (Source.Program.pairSwapped.methods.zip t₁.methods).Perm
      (Source.Program.pair.methods.zip t.methods) ∧
    (∃ m, t₂.methods = t.methods ++ [m]) ∧
    (observed (run .builtin ⟨2, 0⟩ t) .initial).map Prod.snd = some "8\n" ∧
    ∀ sink budget,
      observed (run .builtin budget t₁) (Machine.initial.redirect sink) =
        observed (run .builtin budget t) (Machine.initial.redirect sink) ∧
      observed (run .builtin budget t₂) (Machine.initial.redirect sink) =
        observed (run .builtin budget t) (Machine.initial.redirect sink) := by
  have hview : (Typing.check .builtin .pair).toOption.map (fun t =>
      (t.methods.map (·.key.1), (observed (run .builtin ⟨2, 0⟩ t) .initial).map Prod.snd)) =
      some (["show", "next", "main"], some "8\n") := by
    decide +kernel
  have hview₁ : (Typing.check .builtin .pairSwapped).toOption.map
      (fun t => t.methods.map (·.key.1)) = some ["next", "show", "main"] := by
    decide +kernel
  obtain ⟨t, ht, hview⟩ := exists_of_view hview
  obtain ⟨hnames, hprinted⟩ := Prod.mk.inj hview
  obtain ⟨t₁, ht₁, hnames₁⟩ := exists_of_view hview₁
  obtain ⟨t₂, ht₂⟩ : ∃ t₂, Typing.check .builtin .pairOverloaded = .ok t₂ :=
    exists_of_isOk (by decide +kernel)
  obtain ⟨-, hzip, -, hruns₁⟩ := (order_irrelevant .builtin ht ht₁ rfl).1 (.swap ..)
  obtain ⟨-, happend, hruns₂⟩ := (order_irrelevant .builtin ht ht₂ rfl).2 _ rfl
  have hfresh (sink : Sink) {t : Typed.Program} {p : Source.Program}
      (ht : Typing.check .builtin p = .ok t) :
      Session.Ready .builtin ⟨[], Machine.initial.redirect sink⟩ t :=
    .fresh Registry.keeps_builtin (complete_of_programTyped ((Typing.check_iff .builtin).1 ht)) sink
  exact ⟨t, t₁, t₂, ht, ht₁, ht₂, hnames, hnames₁, hzip, happend, hprinted, fun sink budget =>
    ⟨hruns₁ _ (hfresh sink ht₁) budget, hruns₂ _ (hfresh sink ht₂) budget⟩⟩

end TypedImp
