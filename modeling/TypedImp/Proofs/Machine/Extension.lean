import TypedImp.Proofs.Machine.Over
import TypedImp.Proofs.Machine.Passage
import TypedImp.Proofs.Machine.Simulation
import TypedImp.Proofs.Render.Spelled
import TypedImp.Proofs.Typing.Extension

/-!
# Running with more types

A run consults the registry for the members of values only, and with modest members it has values
of issued types only (`Stock.issued`). So a registry that grows behind them changes no run
(`run_extends`), as it changes neither checking nor what is generated (`extension_conservative`).
-/

namespace TypedImp

open Exec

/-- The value has an issued type, and so have the values in it. -/
inductive Value.Issued (r : Registry) : Value → Prop
  | mk {type : TypeId} {datum : Datum} {members : Option ScopeId} (htype : r.Issued type)
      (hitems : ∀ items, datum = .sequence items → ∀ item ∈ items, Issued r item) :
      Issued r (.mk type datum members)

/-- From values of issued types the body computes such values only. A body sees no registry, so
one that knows no types but the built-in ones is modest. -/
def Body.Modest (r : Registry) (body : Body) : Prop :=
  ∀ values v, (∀ w ∈ values, w.Issued r) → body values = .ok v → v.Issued r

/-- The bodies of all members are modest. -/
def Registry.Modest (r : Registry) : Prop :=
  r.members.All (fun _ field => ∀ getter, field.getter = some getter → getter.Modest r)
    fun _ method => ∀ body, method.body = some body → body.Modest r

variable {r r' : Registry} {v : Value} {m : Machine} {α : Type}

namespace Value

theorem Issued.type (h : v.Issued r) : r.Issued v.type := by
  cases h with
  | mk htype _ => exact htype

theorem Issued.items (h : v.Issued r) {items : List Value} (hi : v.datum = .sequence items) :
    ∀ item ∈ items, item.Issued r := by
  cases h with
  | mk _ hitems => exact hitems items hi

theorem issued_of (hr : r.Reachable) (d : Datum) (h : ∀ items, d ≠ .sequence items) :
    (Value.of d).Issued r :=
  .mk (hr.issued_of_mem (Builtin.type_mem_allTypes d)) fun items hi => (h items hi).elim

end Value

/-- The built-in members are modest, and so are all that give single data. -/
theorem Registry.Atomic.modest (hr : r.Reachable) (h : r.Atomic) : r.Modest := by
  have hbody {body : Body} (hb : body.Atomic) : body.Modest r := by
    intro values v _ hv
    obtain ⟨d, rfl, hd⟩ := hb values v hv
    exact Value.issued_of hr d hd
  exact Arena.All.mono h (fun _ _ hg getter hgetter => hbody (hg getter hgetter))
    fun _ _ hm body hb => hbody (hm body hb)

/-- The values of issued types, and modest bodies. -/
def Stock.issued (hr : r.Reachable) (hm : r.Modest) : Stock r where
  good := Value.Issued r
  bound _ callable := ∀ body, callable = .body body → body.Modest r
  good_of := Value.issued_of hr
  good_item hv h := hv.items h
  good_body h hvalues hv := h _ rfl _ _ hvalues hv
  good_getter hf hg hv hw := by
    obtain ⟨info, -, hl⟩ := Registry.field_eq_ok.1 hf
    exact Arena.All.lookupVariable hm hl _ hg _ _ (List.forall_mem_singleton.2 hv) hw
  good_method hmethod hb hvalues hv := by
    obtain ⟨info, -, hl⟩ := Registry.method_eq_ok.1 hmethod
    exact Arena.All.lookupFunction hm hl _ hb _ _ hvalues hv

/-! ## Runs over both registries -/

/-- The machines are the same one, which has nothing but what the stock has. -/
def Stock.Same (S : Stock r) (m m' : Machine) : Prop :=
  m' = m ∧ S.Stocked m

theorem Stock.Stocked.alike {S : Stock r} {step : Exec α}
    {post : Except Error α → List String → Prop} (hm : S.Stocked m) (h : S.Executes step m post) :
    Alike S.Same step step m m fun _ => True := by
  unfold Alike
  cases hrun : step.run m with
  | none => exact .none
  | some p =>
    obtain ⟨outcome, m'⟩ := p
    obtain ⟨_, heffect, -⟩ := h outcome m' hrun
    exact .some ⟨rfl, ⟨rfl, heffect.stocked hm⟩, fun _ _ => trivial⟩

theorem readField_extends (hr : r.Reachable) (h : r.Extends r') (hv : v.Issued r) (name : String) :
    m.readField r' v name = m.readField r v name := by
  unfold Machine.readField
  rw [h.field_eq hr hv.type]

theorem resolveMethod_extends (hr : r.Reachable) (h : r.Extends r') (hv : v.Issued r)
    (name : String) (arity : Nat) :
    m.resolveMethod r' v name arity = m.resolveMethod r v name arity := by
  unfold Machine.resolveMethod
  rw [h.method_eq hr hv.type]

/-- Over a registry that has grown, a machine goes through the same. -/
def Simulation.extends (hr : r.Reachable) (hm : r.Modest) (h : r.Extends r') :
    Simulation (Stock.issued hr hm) r' where
  Rel _ := Stock.Same _
  stocked hs := hs.2
  known _ := True
  calls _ _ _ := trivial
  lookupVariable := by
    rintro _ _ _ ⟨rfl, -⟩ name
    rfl
  lookupFunction := by
    rintro _ _ _ ⟨rfl, -⟩ name arity -
    rfl
  readField := by
    rintro _ _ _ ⟨rfl, -⟩ object ho name
    exact readField_extends hr h ho name
  resolveMethod := by
    rintro _ _ _ ⟨rfl, -⟩ object ho name arity
    exact resolveMethod_extends hr h ho name arity
  refuse := by
    rintro _ _ _ ⟨rfl, -⟩ line
    rfl
  print := by
    rintro _ _ _ ⟨rfl, hs⟩ text
    exact ⟨rfl, hs⟩
  define := by
    rintro _ _ _ ⟨rfl, hs⟩ v hv name
    exact hs.alike (Stock.executes_defineVariable hv)
  assign := by
    rintro _ _ _ ⟨rfl, hs⟩ v hv name
    exact hs.alike (Stock.executes_setVariable (.inl rfl) hv)
  assignMember := by
    rintro _ _ _ ⟨rfl, hs⟩ object v s ho hmembers hv name
    exact hs.alike (Stock.executes_setVariable (.inr ⟨object, ho, hmembers⟩) hv)
  block := by
    rintro _ _ _ ⟨rfl, hs⟩
    exact ⟨rfl, hs.entered _⟩
  body := by
    rintro _ _ _ ⟨rfl, hs⟩ key method closure -
    exact ⟨rfl, hs.entered _⟩
  leave := by
    rintro _ _ _ _ _ ⟨rfl, -⟩ ⟨rfl, hs⟩
    exact ⟨rfl, Arena.Fills.exit hs _⟩

section

variable {x x' : Context} (hr : r.Reachable) (hm : r.Modest) (h : r.Extends r')
include h

theorem alike_defineFields_extends (hx : (Simulation.extends hr hm h).Pairs x x') :
    ∀ (fields : List Typed.Field) {m : Machine}, (Stock.issued hr hm).Stocked m →
      Alike (Stock.issued hr hm).Same (x.defineFields fields) (x'.defineFields fields) m m
        fun _ => True
  | [], m, hs => alike_pure ⟨rfl, hs⟩ trivial
  | field :: fields, m, hs => by
    unfold Context.defineFields
    refine alike_bind (Simulation.alike_initialValue hx field.value (fun _ _ => trivial)
      (n := 0) ⟨rfl, hs⟩) fun v _ m₁ hv h₁ => ?_
    obtain ⟨rfl, hs₁⟩ := h₁
    refine alike_get_bind (alike_lift_bind ⟨rfl, hs₁⟩ rfl fun m₂ hdef => ?_)
    obtain ⟨scopes, hscopes, rfl⟩ := Machine.defineVariable_eq_ok.1 hdef
    exact alike_defineFields_extends hx fields (Arena.Fills.defineVariable hs₁ hv hscopes)

omit h in
theorem alike_defineMethods_same {methods : List Typed.Method}
    (hs : (Stock.issued hr hm).Stocked m) :
    Alike (Stock.issued hr hm).Same (Context.defineMethods methods)
      (Context.defineMethods methods) m m fun _ => True := by
  unfold Alike
  cases hrun : (Context.defineMethods methods).run m with
  | none => exact .none
  | some p =>
    have hworks := (Stock.issued hr hm).works_defineMethods (fun _ _ _ h => nomatch h) hrun
    exact .some ⟨rfl, ⟨rfl, Stock.stocked_of_works hworks hs⟩, fun _ _ => trivial⟩

theorem alike_run_extends (budget : Budget) (t : Typed.Program)
    (hs : (Stock.issued hr hm).Stocked m) :
    Alike (Stock.issued hr hm).Same (run r budget t) (run r' budget t) m m (Value.Issued r) := by
  have hx := Simulation.pairs_callMethod (.extends hr hm h) budget.rounds budget.depth
  unfold run Context.run
  refine alike_bind (alike_defineFields_extends hr hm h hx t.fields hs) fun _ _ m₁ _ h₁ => ?_
  obtain ⟨rfl, hs₁⟩ := h₁
  refine alike_bind (alike_defineMethods_same hr hm hs₁) fun _ _ m₂ _ h₂ => ?_
  obtain ⟨rfl, hs₂⟩ := h₂
  exact Simulation.alike_callMain hx (n := 0) ⟨rfl, hs₂⟩ rfl

end

/-- A run over a registry that has grown is the run over the registry that it was. -/
theorem run_extends (hr : r.Reachable) (hm : r.Modest) (h : r.Extends r') (budget : Budget)
    (t : Typed.Program) (hs : (Stock.issued hr hm).Stocked m) :
    (run r' budget t).run m = (run r budget t).run m := by
  have hrel := alike_run_extends hr hm h budget t hs
  unfold Alike at hrel
  generalize (run r budget t).run m = o, (run r' budget t).run m = o' at hrel
  cases hrel with
  | none => rfl
  | some hp =>
    obtain ⟨houtcome, ⟨hmachine, -⟩, -⟩ := hp
    rw [Prod.ext houtcome hmachine.symm]

theorem stocked_fresh (hr : r.Reachable) (hm : r.Modest) (sink : Sink) :
    (Stock.issued hr hm).Stocked (Machine.initial.redirect sink) :=
  Arena.Fills.bindFunction (Machine.fills_initial nofun) _ nofun

theorem generate_extends (h : r.Extends r') {t : Typed.Program}
    (ht : ∀ type ∈ t.spelled, r.Issued type) : generate r' t = generate r t := by
  have hagree : Render.Agree r r' t.spelled := by
    intro type hmem
    unfold Render.typeName
    rw [h.info_eq (ht type hmem)]
  unfold generate
  rw [Render.program_congr hagree]

/-- A registry that gets new types, and new members for these only, does to a program what it did
before: it is checked with the same result, written in the same way and runs as it did. -/
theorem extension_conservative (hr : r.Reachable) (hc : r.Closed) {p : Source.Program}
    {t : Typed.Program} (ht : Typing.check r p = .ok t) {calls : List Registry.Call}
    (hadds : ∀ call ∈ calls, call.Adds r) :
    Typing.check (r.afterAll calls) p = .ok t ∧ generate (r.afterAll calls) t = generate r t ∧
      (r.Modest → ∀ sink budget,
        (run (r.afterAll calls) budget t).run (Machine.initial.redirect sink) =
          (run r budget t).run (Machine.initial.redirect sink)) := by
  have h : r.Extends (r.afterAll calls) := .afterAll calls (.refl r) hadds
  have htyped := (Typing.check_iff hr).1 ht
  refine ⟨?_, ?_, fun hm sink budget => ?_⟩
  · exact (Typing.check_iff (hr.afterAll calls)).2
      (programTyped_extends hr hc h (.initial hr) htyped)
  · exact generate_extends h (issued_of_programTyped hr hc htyped (.initial hr))
  · exact run_extends hr hm h budget t (stocked_fresh hr hm sink)

/-- Types and members that a host adds to points. The first call fails. -/
def Registry.Call.lines : List Registry.Call :=
  [.registerType "Point" "geo.Other" .any, .registerType "Line" "geo.Line" ⟨9⟩,
    .defineField ⟨10⟩ ⟨⟨"next", "nextLine()", ⟨10⟩⟩, none⟩,
    .defineMethod ⟨10⟩ ⟨⟨"stringify", "show", [⟨10⟩], .string⟩, some (.const (.string "line"))⟩]

theorem extension_conservative_lines : ∃ t r', Typing.check .linkedPoints .visit = .ok t ∧
    Registry.linkedPoints.afterAll Registry.Call.lines = r' ∧ r'.types.size = 11 ∧
    Typing.check r' .visit = .ok t ∧ generate r' t = generate .linkedPoints t ∧
    ∀ sink budget, (run r' budget t).run (Machine.initial.redirect sink) =
      (run .linkedPoints budget t).run (Machine.initial.redirect sink) := by
  obtain ⟨t, ht⟩ : ∃ t, Typing.check .linkedPoints .visit = .ok t :=
    exists_of_isOk (by decide +kernel)
  have hatomic : Registry.linkedPoints.Atomic :=
    (Registry.atomic_builtin.enter _).bindVariable _ nofun
  have hadds : ∀ call ∈ Registry.Call.lines, call.Adds .linkedPoints := by
    decide +kernel
  obtain ⟨hcheck, hgenerate, hrun⟩ := extension_conservative Registry.reachable_linkedPoints
    Registry.closed_linkedPoints ht hadds
  exact ⟨t, _, ht, rfl, by decide +kernel, hcheck, hgenerate,
    hrun (hatomic.modest Registry.reachable_linkedPoints)⟩

end TypedImp
