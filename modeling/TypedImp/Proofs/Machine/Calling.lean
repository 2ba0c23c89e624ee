import TypedImp.Machine.Run
import TypedImp.Proofs.Machine.Execution
import TypedImp.Typing.Checker

/-!
# Calls keep their types

Once all methods of a program are defined in the outermost scope, a call of one of them gives a
value that its result type allows for, by induction on how deep calls may nest
(`serving_within`). A body that ends in a return does not go on past its end
(`not_normal_of_endsInReturn`).
-/

namespace TypedImp

/-- What is called for the functions of a program with these methods. -/
inductive Provides (methods : List Typed.Method) : Function → Callable → Prop
  | print : Provides methods Checker.print .print
  | method {method : Typed.Method} (h : method ∈ methods) :
      Provides methods method.function (.method method Machine.root)

/-- The environment of a place outside of all methods, as far as the outermost scope has it. -/
structure Known (methods : List Typed.Method) (top : Scope Variable Callable)
    (env : Environment) : Prop where
  outermost : top.parent = none
  frames : env.frames = [top.vars]
  named : ∀ name v, top.vars.get? name = some v → v.name = name
  functions : ∀ key f, env.functions.get? key = some f → key = (f.name, f.arity) ∧
    ∃ callable, top.funs.get? key = some callable ∧ Provides methods f callable

theorem Known.place {methods : List Typed.Method} {top : Scope Variable Callable}
    {env : Environment} (h : Known methods top env) {plan : Plan}
    (hroot : plan.get? Machine.root = some top) :
    plan.Place (Provides methods) Machine.root env where
  path := by
    refine ⟨[(Machine.root, top)], .root hroot h.outermost, h.frames.symm, fun key f hf => ?_⟩
    rw [List.findSome?_singleton]
    exact h.functions key f hf
  named := by
    intro frame hframe name v hv
    rw [h.frames, List.mem_singleton] at hframe
    subst hframe
    exact h.named name v hv

namespace Exec

variable {α : Type} {fails : Error → Prop} {m : Machine}

theorem Safe.and {step : Exec α} {post post' : α → Machine → Prop} (h : Safe fails step m post)
    (h' : Safe (fun _ => True) step m post') :
    Safe fails step m fun a m' => post a m' ∧ post' a m' := by
  intro outcome m' hrun
  have hpost := h outcome m' hrun
  have hpost' := h' outcome m' hrun
  cases outcome with
  | ok a => exact ⟨hpost, hpost'⟩
  | error e => exact hpost

theorem safe_any (step : Exec α) : Safe (fun _ => True) step m fun _ _ => True := by
  intro outcome m' _
  cases outcome <;> trivial

end Exec

open Exec Source

/-- A block whose last statement is a return does not go on past its end. -/
theorem not_normal_of_endsInReturn {r : Registry} {x : Context} {ss : List Stmt}
    {ts : List Typed.Stmt} {env : Environment} {m : Machine} (h : BlockTyped r env ss ts)
    (hend : EndsInReturn ss) :
    Safe (fun _ => True) (x.executeBlock ts) m fun flow _ => flow ≠ .normal := by
  induction ss generalizing ts env m with
  | nil =>
    obtain ⟨value, hlast⟩ := hend
    cases hlast
  | cons st ss ih =>
    obtain ⟨value, hlast⟩ := hend
    cases h with
    | cons ht hs =>
      cases ss with
      | nil =>
        cases hlast
        cases hs
        cases ht with
        | ret _ _ =>
          simp only [Context.executeBlock, Context.execute, bind_assoc, pure_bind]
          refine safe_bind (safe_any _) fun v m' _ => ?_
          exact safe_pure (by simp)
      | cons st' ss =>
        unfold Context.executeBlock
        refine safe_bind (safe_any _) fun flow m' _ => ?_
        cases flow with
        | normal => exact ih hs ⟨value, by simpa using hlast⟩
        | returned v => exact safe_pure (by simp)

namespace Discipline

variable {r : Registry} (D : Discipline r) {top : Scope Variable Callable} {plan : Plan}
  {s : ScopeId} {env : Environment} {m : Machine} {methods : List Typed.Method}

structure Hosts (top : Scope Variable Callable) (methods : List Typed.Method) : Prop where
  typed : ∀ method ∈ methods, ∃ source env, MethodTyped r env source method ∧
    source.Within D.dialect ∧ Known methods top (env.declareFunction method.function)

theorem safe_defineParameters {serves : Function → Callable → Prop} (hs : s ≠ Machine.root) :
    ∀ {names : List String} {types : List TypeId} {values : List Value} {plan : Plan}
      {env : Environment} {m : Machine}, names.length = types.length → names.Nodup →
      (∀ name ∈ names, env.Fresh name) → List.Forall₂ D.holds types values →
      plan.Place serves s env → D.Stands top plan s m →
      Safe D.fails (Exec.defineParameters names values) m fun _ m' =>
        D.Stands top (plan.declareAll s (List.zipWith .plain names types)) s m'
  | [], [], _, _, _, _, _, _, _, .nil, _, hm => safe_pure hm
  | name :: names, type :: types, v :: values, plan, env, m, hl, hn, hf, .cons hv hvs, hp, hm => by
    rw [List.nodup_cons] at hn
    refine safe_bind (D.safe_defineVariable hs hp hm (hf name (.head _))
      (v := .plain name type) hv) fun _ m₁ hm₁ => ?_
    have hfresh : ∀ n ∈ names, (env.declare (.plain name type)).Fresh n := by
      intro n hmem
      refine (Environment.fresh_declare hp.frames_ne_nil).2 ⟨?_, hf n (.tail _ hmem)⟩
      rintro rfl
      exact hn.1 hmem
    exact safe_defineParameters hs (Nat.succ.inj hl) hn.2 hfresh hvs (hp.declare _) hm₁

theorem safe_print {v : Value} (hm : D.Stands top plan s m) :
    Safe D.fails (Exec.print [v]) m fun w m' => D.holds .nil w ∧ D.Stands top plan s m' := by
  refine safe_get_bind ?_
  dsimp only
  split
  · exact safe_throw (D.output _)
  · have hset : Safe D.fails (set { m with output := m.output ++ (v.toText ++ "\n") }) m
        fun _ m' => D.Stands top plan s m' := safe_set ⟨⟨hm.fits, hm.current⟩, hm.rooted⟩
    exact safe_bind hset fun _ m' hm' => safe_pure ⟨D.holds_nil, hm'⟩

theorem admits_types {source : Method} {method : Typed.Method}
    (ht : MethodTyped r env source method) (hd : source.Within D.dialect) :
    ∀ type ∈ method.function.parameters, D.admits type := by
  cases ht with
  | mk _ named _ _ _ _ =>
    intro type htype
    obtain ⟨i, hi, rfl⟩ := List.getElem_of_mem htype
    have hlt : i < source.types.length := named.length_eq.symm ▸ hi
    exact D.admits_of_name (hd.types _ (List.getElem_mem hlt)) (named.get hlt hi)

/-- A method whose body may go on past its end gives nil, and its result type allows for nil. -/
theorem holds_result {source : Method} {method : Typed.Method}
    (ht : MethodTyped r env source method) (hd : source.Within D.dialect)
    (hends : ¬ EndsInReturn source.body) : D.holds method.function.result .nil := by
  cases ht with
  | mk _ _ hr _ _ _ =>
    cases hresult : source.result with
    | none =>
      rw [hresult] at hr
      cases hr
      exact D.holds_nil
    | some name =>
      rw [hresult] at hr
      cases hr with
      | some hn =>
        obtain ⟨hname, hend | homits⟩ := hd.result name hresult
        · exact (hends hend).elim
        · exact D.holds_omitted homits (D.admits_of_name hname hn)

theorem safe_body {x : Context} {serves : Function → Callable → Prop} (hx : x.registry = r)
    (hserves : D.Serving x top serves) {ss : List Stmt} {ts : List Typed.Stmt}
    (ht : BlockTyped r env ss ts) (hd : BlockWithin D.dialect ss) (hp : plan.Place serves s env)
    (hs : s ≠ Machine.root) (hm : D.Stands top plan s m) :
    Safe D.fails (x.executeBlock ts) m fun flow m' => D.FlowHolds env flow ∧
      (∃ vs, D.Stands top (plan.declareAll s vs) s m') ∧ (EndsInReturn ss → flow ≠ .normal) := by
  have hblock := D.safe_executeBlock hx hserves ss ht hd hp hs hm
  by_cases hends : EndsInReturn ss
  · refine (hblock.and (not_normal_of_endsInReturn ht hends)).mono ?_
    rintro flow m' ⟨⟨hholds, vs, hm', -⟩, hn⟩
    exact ⟨hholds, ⟨vs, hm'⟩, fun _ => hn⟩
  · refine hblock.mono ?_
    rintro flow m' ⟨hholds, vs, hm', -⟩
    exact ⟨hholds, ⟨vs, hm'⟩, fun h => (hends h).elim⟩

/-- Once its parameters are defined, a method is where its body is typed, whoever calls it. -/
theorem safe_parameters (hhosts : D.Hosts top methods) {method : Typed.Method}
    (hmem : method ∈ methods) {values : List Value}
    (hvalues : List.Forall₂ D.holds method.function.parameters values)
    (hm : D.Stands top plan s m) :
    ∃ (source : Source.Method) (inner : Environment) (vs : List Variable),
      method.parameters.length = values.length ∧
      BlockTyped r inner source.body method.body ∧ source.Within D.dialect ∧
      inner.result = some method.function.result ∧
      (¬ EndsInReturn source.body → D.holds method.function.result .nil) ∧
      Plan.Place (Provides methods)
        (Plan.declareAll (plan.enter (some Machine.root)) plan.next vs) plan.next inner ∧
      Safe D.fails (Exec.defineParameters method.parameters values) (entered m Machine.root)
        fun _ m' => D.Stands top (Plan.declareAll (plan.enter (some Machine.root)) plan.next vs)
          plan.next m' := by
  obtain ⟨source, env, ht, hd, hknown⟩ := hhosts.typed method hmem
  have hp := (hknown.place hm.rooted).enter
  have hne : plan.next ≠ Machine.root := (D.ne_root_of_next hm).symm
  have hresult := D.holds_result ht hd
  cases ht with
  | mk counts named _ _ distinct hb =>
    have hlength := counts.trans named.length_eq
    refine ⟨source, _, _, hlength.trans hvalues.length_eq, hb, hd, rfl, hresult,
      (hp.declareAll _).withResult _, ?_⟩
    exact D.safe_defineParameters hne hlength distinct (fun _ _ => Environment.fresh_nest _ _)
      hvalues hp (D.stands_entered hm _)

theorem safe_callMethod {rounds depth : Nat} (hhosts : D.Hosts top methods)
    (hserves : D.Serving ⟨r, callMethod r rounds depth, rounds⟩ top (Provides methods))
    {method : Typed.Method} (hmem : method ∈ methods) {values : List Value}
    (hvalues : List.Forall₂ D.holds method.function.parameters values)
    (hm : D.Stands top plan s m) :
    Safe D.fails (callMethod r rounds (depth + 1) method Machine.root values) m fun v m' =>
      D.holds method.function.result v ∧ D.Stands top plan s m' := by
  obtain ⟨source, inner, vs, hcount, hb, hd, hresult, hnil, hp, hparameters⟩ :=
    D.safe_parameters hhosts hmem hvalues hm
  have hne : plan.next ≠ Machine.root := (D.ne_root_of_next hm).symm
  rw [callMethod, if_neg (not_not.2 hcount)]
  refine D.safe_scoped hm (safe_bind hparameters fun _ m₁ hm₁ => ?_)
  refine safe_bind (D.safe_body rfl hserves hb hd.body hp hne hm₁) ?_
  rintro flow m₂ ⟨hholds, ⟨vs', hm₂⟩, hnormal⟩
  rw [← Plan.declareAll_append] at hm₂
  cases flow with
  | normal => exact safe_pure ⟨hnil fun h => hnormal h rfl, _, hm₂⟩
  | returned v =>
    obtain ⟨type, htype, hv⟩ := hholds
    rw [hresult] at htype
    cases htype
    exact safe_pure ⟨hv, _, hm₂⟩

/-- Whatever serves a function of the program can be called, however deep calls may nest. -/
theorem serving_within (hhosts : D.Hosts top methods) (rounds : Nat) : ∀ depth : Nat,
    D.Serving ⟨r, callMethod r rounds depth, rounds⟩ top (Provides methods) := by
  have hadmits : ∀ {f : Function} {callable : Callable}, Provides methods f callable →
      ∀ type ∈ f.parameters, D.admits type := by
    rintro _ _ (_ | ⟨hmem⟩)
    · intro type htype
      cases List.mem_singleton.1 htype
      exact D.admits_any
    · obtain ⟨source, env, ht, hd, -⟩ := hhosts.typed _ hmem
      exact D.admits_types ht hd
  intro depth
  induction depth with
  | zero =>
    refine ⟨hadmits, ?_⟩
    rintro _ _ (_ | ⟨hmem⟩) values hvalues plan s m hm
    · obtain ⟨v, _, -, hvs, rfl⟩ := List.forall₂_cons_left_iff.1 hvalues
      cases hvs
      exact D.safe_print hm
    · exact safe_exhausted
  | succ depth ih =>
    refine ⟨hadmits, ?_⟩
    rintro _ _ (_ | ⟨hmem⟩) values hvalues plan s m hm
    · obtain ⟨v, _, -, hvs, rfl⟩ := List.forall₂_cons_left_iff.1 hvalues
      cases hvs
      exact D.safe_print hm
    · exact D.safe_callMethod hhosts ih hmem hvalues hm

end Discipline

end TypedImp
