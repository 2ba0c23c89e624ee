import TypedImp.Proofs.Machine.Calling
import TypedImp.Proofs.Typing.Order

/-!
# Runs keep their types

A run defines the fields of a program in the outermost scope, then its methods, and calls `main`.
In a machine that starts with what the checker started with, all of it goes well: a run of a well
typed program gives a whole number or fails with an error that is allowed for (`safe_run`).
-/

namespace TypedImp

variable {methods : List Typed.Method} {top : Scope Variable Callable} {env : Environment}

def Plan.outer (top : Scope Variable Callable) : Plan :=
  ⟨#[top]⟩

/-- The outermost scope has just what an environment outside of all methods knows. -/
structure Level (methods : List Typed.Method) (top : Scope Variable Callable)
    (env : Environment) : Prop where
  outermost : top.parent = none
  frames : env.frames = [top.vars]
  named : ∀ name v, top.vars.get? name = some v → v.name = name
  keyed : ∀ key f, env.functions.get? key = some f → key = (f.name, f.arity)
  functions : ∀ key, Option.Rel (Provides methods) (env.functions.get? key) (top.funs.get? key)

theorem Provides.mono {methods' : List Typed.Method} {f : Function} {callable : Callable}
    (h : Provides methods f callable) (hsub : methods ⊆ methods') :
    Provides methods' f callable := by
  cases h with
  | print => exact .print
  | method hmem => exact .method (hsub hmem)

theorem rel_imp {α β : Type} {R S : α → β → Prop} (hRS : ∀ a b, R a b → S a b) {a : Option α}
    {b : Option β} (h : Option.Rel R a b) : Option.Rel S a b := by
  cases h with
  | none => exact .none
  | some h => exact .some (hRS _ _ h)

namespace Level

theorem mono {methods' : List Typed.Method} (h : Level methods top env)
    (hsub : methods ⊆ methods') : Level methods' top env :=
  ⟨h.outermost, h.frames, h.named, h.keyed, fun key =>
    rel_imp (fun _ _ hp => hp.mono hsub) (h.functions key)⟩

theorem find (h : Level methods top env) {key : String × Nat} {f : Function}
    (hf : env.functions.get? key = some f) :
    ∃ callable, top.funs.get? key = some callable ∧ Provides methods f callable := by
  have hrel := h.functions key
  rw [hf] at hrel
  cases hc : top.funs.get? key with
  | none => rw [hc] at hrel; cases hrel
  | some callable =>
    rw [hc] at hrel
    cases hrel with
    | some hp => exact ⟨callable, rfl, hp⟩

theorem known (h : Level methods top env) {env' : Environment} (hframes : env'.frames = env.frames)
    (hfuns : ∀ key f, env'.functions.get? key = some f → env.functions.get? key = some f) :
    Known methods top env' where
  outermost := h.outermost
  frames := hframes.trans h.frames
  named := h.named
  functions key f hf := ⟨h.keyed key f (hfuns key f hf), h.find (hfuns key f hf)⟩

theorem declare (h : Level methods top env) (v : Variable) :
    Level methods (top.bindVariable v.name v) (env.declare v) where
  outermost := h.outermost
  frames := by
    rw [Environment.declare, h.frames]
    rfl
  named := by
    intro name w hw
    rw [Scope.bindVariable, Table.get?_insert] at hw
    split_ifs at hw with hn
    · cases hw
      exact hn.symm
    · exact h.named name w hw
  keyed := h.keyed
  functions := h.functions

theorem declareFunction (h : Level methods top env) {f : Function} {callable : Callable}
    (hp : Provides methods f callable) :
    Level methods (top.bindFunction f.name f.arity callable) (env.declareFunction f) where
  outermost := h.outermost
  frames := h.frames
  named := h.named
  keyed := Keyed.declareFunction h.keyed f
  functions := by
    intro key
    rw [Environment.declareFunction, Scope.bindFunction, Table.get?_insert, Table.get?_insert]
    split_ifs
    · exact .some hp
    · exact h.functions key

end Level

namespace Discipline

open Exec Source

variable {r : Registry} (D : Discipline r) {m : Machine} {x : Context}

/-- Execution is in the outermost scope, and there is no other. -/
abbrev Opens (top : Scope Variable Callable) (m : Machine) : Prop :=
  D.Stands top (.outer top) Machine.root m

theorem opens_modify (hm : D.Opens top m) (f : Scope Variable Callable → Scope Variable Callable)
    {a : Arena Value Callable}
    (h : Plan.Fits D.holds (Arena.modify (Plan.outer top) Machine.root f) a) :
    D.Opens (f top) { m with scopes := a } where
  fits := h
  current := hm.current
  rooted := rfl

theorem live_of_opens (hm : D.Opens top m) :
    ∃ scope, m.scopes.get? Machine.root = some scope ∧ top.Fits D.holds scope :=
  hm.fits.live rfl

theorem safe_defineField (hl : Level methods top env) (hm : D.Opens top m) {v : Variable}
    {value : Value} (fresh : env.Fresh v.name) (hv : D.holds v.type value) :
    Meets D.fails (D.Opens (top.bindVariable v.name v)) (m.defineVariable v.name value) := by
  obtain ⟨scope, hlive, hfit⟩ := D.live_of_opens hm
  have hnone : top.vars.get? v.name = none := fresh top.vars (by rw [hl.frames]; rfl)
  have hrel := hfit.vars v.name
  rw [hnone] at hrel
  have hdef : m.scopes.defineVariable Machine.root v.name value =
      .ok (m.scopes.bindVariable Machine.root v.name value) := by
    rw [Arena.defineVariable_eq_ok]
    refine ⟨⟨scope, hlive, ?_⟩, rfl⟩
    cases hs : scope.vars.get? v.name with
    | none => rfl
    | some _ => rw [hs] at hrel; cases hrel
  rw [Machine.defineVariable, hdef]
  exact D.opens_modify hm (·.bindVariable v.name v) (hm.fits.declare hv Machine.root)

theorem safe_defineFields (hx : x.registry = r)
    (hserves : ∀ top, D.Serving x top (Provides [])) : ∀ {fs : List Source.Field}
      {fs' : List Typed.Field} {env : Environment} {top : Scope Variable Callable} {m : Machine},
      FieldsTyped r env fs fs' →
      (∀ field ∈ fs, DeclarationWithin D.dialect field.type field.value) → Level [] top env →
      D.Opens top m →
      Safe D.fails (x.defineFields fs') m fun _ m' => ∃ top',
        Level [] top' (env.declareAll (fs'.map (·.target))) ∧ D.Opens top' m'
  | _, _, env, top, m, .nil, _, hl, hm => safe_pure ⟨top, hl, hm⟩
  | f :: fs, f' :: fs', env, top, m, .cons h hs, hd, hl, hm => by
    have hp : (Plan.outer top).Place (Provides []) Machine.root env :=
      (hl.known rfl fun _ _ h => h).place rfl
    obtain ⟨fresh, hvalue⟩ := D.safe_initialValue hx (hserves top) h (hd f (.head _)) hp hm
    refine safe_bind hvalue fun v m₁ ⟨hv, hm₁⟩ => ?_
    refine safe_get_bind (safe_lift_bind ((D.safe_defineField hl hm₁ fresh hv).mono ?_))
    refine fun m₂ hm₂ => safe_set_bind ?_
    exact safe_defineFields hx hserves hs (fun field hf => hd field (.tail _ hf)) (hl.declare _) hm₂

theorem safe_defineMethod (hl : Level methods top env) (hm : D.Opens top m)
    {source : Method} {method : Typed.Method} (ht : MethodTyped r env source method)
    (hmem : method ∈ methods) :
    ∃ m' top', m.defineFunction method.function.name method.parameters.length
        (.method method Machine.root) = .ok m' ∧
      Level methods top' (env.declareFunction method.function) ∧ D.Opens top' m' := by
  obtain ⟨scope, hlive, hfit⟩ := D.live_of_opens hm
  have hnone : scope.funs.get? (method.function.name, method.function.arity) = none := by
    have hrel := hl.functions (method.function.name, method.function.arity)
    rw [fresh_of_methodTyped ht] at hrel
    rw [hfit.funs]
    cases hc : top.funs.get? (method.function.name, method.function.arity) with
    | none => rfl
    | some _ => rw [hc] at hrel; cases hrel
  rw [arity_of_methodTyped ht, Machine.defineFunction]
  refine ⟨_, _, ?_, hl.declareFunction (.method hmem), D.opens_modify hm
    (·.bindFunction method.function.name method.function.arity (.method method Machine.root))
    (hm.fits.bindFunction Machine.root _ _ _)⟩
  rw [Arena.defineFunction_eq_ok.2 ⟨⟨scope, hlive, hnone⟩, rfl⟩]
  rfl

theorem safe_defineMethods : ∀ {ms : List Method} {ms' : List Typed.Method} {env : Environment}
    {top : Scope Variable Callable} {m : Machine}, MethodsTyped r env ms ms' → ms' ⊆ methods →
    Level methods top env → D.Opens top m →
    Safe D.fails (Context.defineMethods ms') m fun _ m' => ∃ top',
      Level methods top' (env.declareMethods ms') ∧ D.Opens top' m'
  | _, _, env, top, m, .nil, _, hl, hm => safe_pure ⟨top, hl, hm⟩
  | _, _, env, top, m, .cons h hs, hsub, hl, hm => by
    obtain ⟨m', top', hdef, hl', hm'⟩ := D.safe_defineMethod hl hm h (hsub (.head _))
    refine safe_get_bind (safe_lift_bind ?_)
    rw [hdef]
    refine safe_set_bind ?_
    exact safe_defineMethods hs (fun _ hmem => hsub (.tail _ hmem)) hl' hm'

/-- The methods of a program are hosted where all of them are defined. -/
theorem hosts_of_methodsTyped {ms : List Method} (ht : MethodsTyped r env ms methods)
    (hd : ∀ source ∈ ms, source.Within D.dialect)
    (hl : Level methods top (env.declareMethods methods)) : D.Hosts top methods := by
  refine ⟨fun method hmem => ?_⟩
  obtain ⟨source, hzip⟩ := exists_mem_zip_right ht hmem
  obtain ⟨env', h, hbelow⟩ := typed_of_mem_zip ht hzip
  exact ⟨source, env', h, hd source (List.of_mem_zip hzip).1,
    hl.known hbelow.frames.symm hbelow.functions⟩

/-- `main` is found where all methods are defined. -/
theorem lookup_main {p : Program} (start : Startable r p)
    (ht : MethodsTyped r env p.methods methods)
    (hl : Level methods top (env.declareMethods methods)) (hm : D.Opens top m) :
    ∃ callable, m.scopes.lookupFunction Machine.root "main" 0 = .ok callable ∧
      Provides methods (.plain "main" [] .integer) callable := by
  obtain ⟨main, hmain, hname, hparams, integer, hresult, hinteger⟩ := start
  obtain ⟨method, hzip⟩ := exists_mem_zip_left ht hmain
  obtain ⟨env', h, -⟩ := typed_of_mem_zip ht hzip
  have hget := known_of_mem_zip ht hzip
  have hfun : method.function = .plain "main" [] .integer := by
    cases h with
    | mk counts named hr _ _ _ =>
      rw [hparams, List.length_nil, eq_comm, List.length_eq_zero_iff] at counts
      rw [counts, List.forall₂_nil_left_iff] at named
      rw [hresult] at hr
      rw [named, result_unique hr (.some hinteger), hname]
  have hp : (Plan.outer top).Place (Provides methods) Machine.root (env.declareMethods methods) :=
    (hl.known rfl fun _ _ h => h).place rfl
  obtain ⟨callable, hfind, hprovides⟩ := hm.lookupFunction hp hget
  rw [Machine.lookupFunction, hm.current, hfun] at hfind
  exact ⟨callable, hfind, hfun ▸ hprovides⟩

theorem serving_bare (rounds depth : Nat) (top : Scope Variable Callable) :
    D.Serving ⟨r, callMethod r rounds depth, rounds⟩ top (Provides []) :=
  D.serving_within ⟨fun _ hmem => absurd hmem List.not_mem_nil⟩ rounds depth

/-- A run of a well typed program gives a whole number, or fails with an error that is allowed
for. -/
theorem safe_run (budget : Budget) {p : Program} {t : Typed.Program} (ht : ProgramTyped r env p t)
    (hd : p.Within D.dialect) (hl : Level [] top env) (hm : D.Opens top m) :
    Safe D.fails (run r budget t) m fun v _ => D.holds .integer v := by
  cases ht with
  | @mk fields methods start hf hms =>
    refine safe_bind (D.safe_defineFields rfl (D.serving_bare _ _) hf hd.fields hl hm) ?_
    rintro _ m₁ ⟨top₁, hl₁, hm₁⟩
    have hnone : [] ⊆ methods := fun method hmem => absurd hmem List.not_mem_nil
    refine safe_bind (D.safe_defineMethods hms (fun _ h => h) (hl₁.mono hnone) hm₁) ?_
    rintro _ m₂ ⟨top₂, hl₂, hm₂⟩
    have hhosts := D.hosts_of_methodsTyped hms hd.methods hl₂
    obtain ⟨callable, hmain, hprovides⟩ := D.lookup_main start hms hl₂ hm₂
    refine safe_get_bind (safe_lift_bind ?_)
    rw [hmain]
    refine ((D.serving_within hhosts budget.rounds budget.depth).safe hprovides .nil hm₂).mono ?_
    rintro v m' ⟨hv, -⟩
    exact hv

end Discipline

end TypedImp
