import Mathlib.Data.List.Nodup
import TypedImp.Proofs.Typing.Calls
import TypedImp.Proofs.Typing.Program
import TypedImp.Proofs.Typing.Transfer

/-!
# The order of methods

A method knows the methods before it, but what it is decorated with depends on the functions that
it calls only, and these are the same wherever their methods stand. So a program whose methods are
in another order, or that has further ones, has the same decorated methods
(`zip_of_programTyped`). Each method calls what the program offers as a whole, and no two of them
are found by one key (`complete_of_programTyped`).
-/

namespace TypedImp

variable {r : Registry} {env env' : Environment}

/-! ## Knowing more functions -/

/-- The second environment knows the functions of the first one, and the same variables. -/
structure Environment.Below (env env' : Environment) : Prop where
  frames : env'.frames = env.frames
  functions : ∀ key f, env.functions.get? key = some f → env'.functions.get? key = some f
  result : env'.result = env.result

namespace Environment.Below

theorem trans {env'' : Environment} (h : env.Below env') (h' : env'.Below env'') :
    env.Below env'' where
  frames := h'.frames.trans h.frames
  functions key f hf := h'.functions key f (h.functions key f hf)
  result := h'.result.trans h.result

theorem nest (h : env.Below env') : env.nest.Below env'.nest where
  frames := congrArg (List.cons []) h.frames
  functions := h.functions
  result := h.result

theorem declare (h : env.Below env') (v : Variable) : (env.declare v).Below (env'.declare v) where
  frames := congrArg (List.modifyHead _) h.frames
  functions := h.functions
  result := h.result

theorem declareAll : ∀ (vs : List Variable) {env env' : Environment}, env.Below env' →
    (env.declareAll vs).Below (env'.declareAll vs)
  | [], _, _, h => h
  | v :: vs, _, _, h => declareAll vs (h.declare v)

theorem ofMethod {f : Function} (h : (env.declareFunction f).Below (env'.declareFunction f))
    (parameters : List String) :
    (env.ofMethod f parameters).Below (env'.ofMethod f parameters) := by
  have hinner := declareAll (List.zipWith .plain parameters f.parameters) h.nest
  exact ⟨hinner.frames, hinner.functions, rfl⟩

/-- A function that is known already may be declared again. -/
theorem declareFunction {f : Function} (hf : env.functions.get? (f.name, f.arity) = some f) :
    env.Below (env.declareFunction f) where
  frames := rfl
  functions key g hg := by
    rw [Environment.declareFunction, Table.get?_insert]
    split_ifs with hkey
    · rw [hkey, hf] at hg
      exact hg
    · exact hg
  result := rfl

end Environment.Below

/-- What is derived stays derived where more functions are known. -/
def Transfer.below (r : Registry) : Transfer r r where
  Rel := Environment.Below
  named hn := hn
  field _ _ _ _ _ _ hf := hf
  method _ _ _ _ _ _ _ hm := hm
  findVariable? h _ _ hv := by
    rw [Environment.findVariable?, h.frames]
    exact hv
  findFunction? h _ _ _ hf := h.functions _ _ hf
  fresh h _ hn := by
    rw [Environment.Fresh, h.frames]
    exact hn
  result h := h.result
  nest h := h.nest
  round h name := h.nest.declare (.plain name .integer)
  after h _ t _ := .declareAll t.declared.toList h

/-! ## The methods of a program -/

def Environment.declareMethods (env : Environment) (methods : List Typed.Method) : Environment :=
  methods.foldl (fun env method => env.declareFunction method.function) env

theorem declareMethods_frames : ∀ (ms : List Typed.Method) (env : Environment),
    (env.declareMethods ms).frames = env.frames
  | [], _ => rfl
  | m :: ms, env => declareMethods_frames ms (env.declareFunction m.function)

/-- Methods are declared under keys that are still free. -/
theorem fresh_of_methodsTyped {ms : List Source.Method} {ts : List Typed.Method}
    (h : MethodsTyped r env ms ts) :
    (∀ t ∈ ts, env.functions.get? t.key = none) ∧ (ts.map Typed.Method.key).Nodup := by
  induction h with
  | nil => exact ⟨fun _ h => absurd h List.not_mem_nil, .nil⟩
  | @cons env m t ms ts h _ ih =>
    obtain ⟨hfresh, hnodup⟩ := ih
    have hkey : t.key = (t.function.name, t.function.arity) :=
      congrArg (Prod.mk _) (arity_of_methodTyped h)
    have hrest : ∀ t' ∈ ts, t'.key ≠ t.key ∧ env.functions.get? t'.key = none := by
      intro t' hmem
      have hnone := hfresh t' hmem
      rw [Environment.declareFunction, Table.get?_insert, ← hkey] at hnone
      split_ifs at hnone with hne
      exact ⟨hne, hnone⟩
    refine ⟨List.forall_mem_cons.2
      ⟨hkey ▸ fresh_of_methodTyped h, fun t' hmem => (hrest t' hmem).2⟩,
      List.nodup_cons.2 ⟨fun hmem => ?_, hnodup⟩⟩
    obtain ⟨t', hmem', heq⟩ := List.mem_map.1 hmem
    exact (hrest t' hmem').1 heq

theorem below_declareMethods {ms : List Source.Method} {ts : List Typed.Method}
    (h : MethodsTyped r env ms ts) : env.Below (env.declareMethods ts) := by
  induction h with
  | nil => exact ⟨rfl, fun _ _ h => h, rfl⟩
  | @cons env m t ms ts h _ ih =>
    have hfirst : env.Below (env.declareFunction t.function) := by
      refine ⟨rfl, fun key f hf => ?_, rfl⟩
      rw [Environment.declareFunction, Table.get?_insert_of_ne _ _, hf]
      rintro rfl
      rw [fresh_of_methodTyped h] at hf
      cases hf
    exact hfirst.trans ih

/-- Every method is typed where no other functions are known than after the last one. -/
theorem typed_of_mem_zip : ∀ {ms : List Source.Method} {ts : List Typed.Method}
    {env : Environment}, MethodsTyped r env ms ts → ∀ {m : Source.Method} {t : Typed.Method},
    (m, t) ∈ ms.zip ts → ∃ env', MethodTyped r env' m t ∧
      (env'.declareFunction t.function).Below (env.declareMethods ts)
  | _, _, env, .cons h hs, m, t, hmem => by
    rcases List.mem_cons.1 hmem with heq | hmem
    · cases heq
      exact ⟨env, h, below_declareMethods hs⟩
    · exact typed_of_mem_zip hs hmem

theorem exists_mem_zip_left {ms : List Source.Method} {ts : List Typed.Method}
    (h : MethodsTyped r env ms ts) {m : Source.Method} (hm : m ∈ ms) : ∃ t, (m, t) ∈ ms.zip ts := by
  rw [← List.map_fst_zip (Nat.le_of_eq (length_of_methodsTyped h).symm)] at hm
  obtain ⟨⟨_, t⟩, hmem, rfl⟩ := List.mem_map.1 hm
  exact ⟨t, hmem⟩

theorem exists_mem_zip_right {ms : List Source.Method} {ts : List Typed.Method}
    (h : MethodsTyped r env ms ts) {t : Typed.Method} (ht : t ∈ ts) : ∃ m, (m, t) ∈ ms.zip ts := by
  rw [← List.map_snd_zip (Nat.le_of_eq (length_of_methodsTyped h))] at ht
  obtain ⟨⟨m, _⟩, hmem, rfl⟩ := List.mem_map.1 ht
  exact ⟨m, hmem⟩

/-- After the last method, each is known by its function. -/
theorem known_of_mem_zip {ms : List Source.Method} {ts : List Typed.Method}
    (h : MethodsTyped r env ms ts) {m : Source.Method} {t : Typed.Method}
    (hmem : (m, t) ∈ ms.zip ts) :
    (env.declareMethods ts).functions.get? (t.function.name, t.function.arity) =
      some t.function := by
  obtain ⟨env', -, hbelow⟩ := typed_of_mem_zip h hmem
  exact hbelow.functions _ _ (Table.get?_insert_self _ _ _)

/-- What is known after the last method was known before the first one, or a method declared it. -/
theorem of_get?_declareMethods {key : String × Nat} {f : Function} : ∀ (ts : List Typed.Method)
    {env : Environment}, (env.declareMethods ts).functions.get? key = some f →
    env.functions.get? key = some f ∨
      ∃ t ∈ ts, t.function = f ∧ key = (f.name, f.arity)
  | [], _, h => .inl h
  | t :: ts, env, h => by
    change ((env.declareFunction t.function).declareMethods ts).functions.get? key = some f at h
    rcases of_get?_declareMethods ts h with h | ⟨t', hmem, ht'⟩
    · rw [Environment.declareFunction, Table.get?_insert] at h
      split_ifs at h with hkey
      · cases h
        exact .inr ⟨t, .head _, rfl, hkey⟩
      · exact .inl h
    · exact .inr ⟨t', .tail _ hmem, ht'⟩

/-! ## Uniqueness -/

theorem result_unique {name : Option String} {type type' : TypeId} (h : ResultNamed r name type)
    (h' : ResultNamed r name type') : type = type' := by
  cases h with
  | none =>
    cases h'
    rfl
  | some hn =>
    cases h' with
    | some hn' => exact Option.some.inj (hn.symm.trans hn')

theorem types_unique {names : List String} {types types' : List TypeId}
    (h : List.Forall₂ (fun name type => r.typeNamed? name = some type) names types)
    (h' : List.Forall₂ (fun name type => r.typeNamed? name = some type) names types') :
    types = types' :=
  List.right_unique_forall₂' (fun _ _ _ hn hn' => Option.some.inj (hn.symm.trans hn')) h h'

/-- The source of a method and the registry determine its function. -/
theorem function_unique {m : Source.Method} {t t' : Typed.Method} (h : MethodTyped r env m t)
    (h' : MethodTyped r env' m t') : t.function = t'.function := by
  cases h with
  | mk _ named hres _ _ _ =>
    cases h' with
    | mk _ named' hres' _ _ _ => rw [types_unique named named', result_unique hres hres']

namespace Typing

variable {c : Checker}

theorem sees_declareMethods : ∀ (ts : List Typed.Method) {c : Checker} {env : Environment},
    c.Sees env → env.frames.length = 1 → ∃ c', Checker.Sees c' (env.declareMethods ts)
  | [], c, _, h, _ => ⟨c, h⟩
  | t :: ts, _, _, h, houter => sees_declareMethods ts (h.declareFunction houter t.function) houter

theorem body_unique (hr : r.Reachable) (h : c.Sees env) (houter : env.frames.length = 1)
    {f : Function} {names : List String} (hl : names.length = f.parameters.length)
    (hd : names.Nodup) {ss : List Source.Stmt} {ts ts' : List Typed.Stmt}
    (ht : BlockTyped r (env.ofMethod f names) ss ts)
    (ht' : BlockTyped r (env.ofMethod f names) ss ts') : ts = ts' := by
  have hgives := (gives_methodBody hr h houter hl).2 ⟨⟨hd, ht⟩, rfl⟩
  have hgives' := (gives_methodBody hr h houter hl).2 ⟨⟨hd, ht'⟩, rfl⟩
  exact Except.ok.inj (Prod.mk.inj (hgives.symm.trans hgives')).1

theorem fields_unique (hr : r.Reachable) (h : c.Sees env) {fs : List Source.Field}
    {ts ts' : List Typed.Field} (ht : FieldsTyped r env fs ts) (ht' : FieldsTyped r env fs ts') :
    ts = ts' := by
  have hgives := (gives_checkFields hr fs h).2 ⟨ht, rfl⟩
  have hgives' := (gives_checkFields hr fs h).2 ⟨ht', rfl⟩
  exact Except.ok.inj (Prod.mk.inj (hgives.symm.trans hgives')).1

theorem methods_unique (hr : r.Reachable) (h : c.Sees env) (houter : env.frames.length = 1)
    {ms : List Source.Method} {ts ts' : List Typed.Method} (ht : MethodsTyped r env ms ts)
    (ht' : MethodsTyped r env ms ts') : ts = ts' := by
  obtain ⟨_, hgives⟩ := (gives_checkMethods hr ms h houter).2 ht
  obtain ⟨_, hgives'⟩ := (gives_checkMethods hr ms h houter).2 ht'
  exact Except.ok.inj (Prod.mk.inj (hgives.symm.trans hgives')).1

end Typing

/-! ## Methods in another order -/

/-- Where there are more methods, more functions are known. -/
theorem below_of_subset {ms ms' : List Source.Method} {ts ts' : List Typed.Method}
    (h : MethodsTyped r env ms ts) (h' : MethodsTyped r env ms' ts') (hsub : ms ⊆ ms') :
    (env.declareMethods ts).Below (env.declareMethods ts') where
  frames := (declareMethods_frames ts' env).trans (declareMethods_frames ts env).symm
  functions key f hf := by
    rcases of_get?_declareMethods _ hf with hf | ⟨t, ht, rfl, rfl⟩
    · exact (below_declareMethods h').functions key f hf
    · obtain ⟨m, hmem⟩ := exists_mem_zip_right h ht
      obtain ⟨t', hmem'⟩ := exists_mem_zip_left h' (hsub (List.of_mem_zip hmem).1)
      obtain ⟨_, hm, -⟩ := typed_of_mem_zip h hmem
      obtain ⟨_, hm', -⟩ := typed_of_mem_zip h' hmem'
      rw [function_unique hm hm']
      exact known_of_mem_zip h' hmem'
  result := (below_declareMethods h').result.trans (below_declareMethods h).result.symm

/-- A method has one decorated form, wherever it stands among which other methods. -/
theorem zip_of_methodsTyped (hr : r.Reachable) {c : Checker} (hc : c.Sees env)
    (houter : env.frames.length = 1) {ms ms' : List Source.Method} {ts ts' : List Typed.Method}
    (h : MethodsTyped r env ms ts) (h' : MethodsTyped r env ms' ts') (hsub : ms ⊆ ms') :
    ms.zip ts ⊆ ms'.zip ts' := by
  rintro ⟨m, t⟩ hmem
  obtain ⟨t', hmem'⟩ := exists_mem_zip_left h' (hsub (List.of_mem_zip hmem).1)
  obtain ⟨env₁, hm, hbelow⟩ := typed_of_mem_zip h hmem
  obtain ⟨env₂, hm', hbelow'⟩ := typed_of_mem_zip h' hmem'
  have hfunction := function_unique hm hm'
  -- both bodies are typed where all functions of the second list are known
  have hlast := Environment.Below.declareFunction (known_of_mem_zip h' hmem')
  have hbody := (hbelow.trans (below_of_subset h h' hsub)).trans (hfunction ▸ hlast)
  have hbody' := hbelow'.trans hlast
  obtain ⟨c', hc'⟩ := Typing.sees_declareMethods ts' hc houter
  have houter' : (env.declareMethods ts').frames.length = 1 := by rwa [declareMethods_frames]
  have hlength := arity_of_methodTyped hm
  have heq : t = t' := by
    cases hm with
    | mk _ _ _ _ distinct hb =>
      cases hm' with
      | mk _ _ _ _ _ hb' =>
        cases hfunction
        have ht := (Transfer.below r).blockTyped (hbody.ofMethod _) hb
        have ht' := (Transfer.below r).blockTyped (hbody'.ofMethod _) hb'
        rw [Typing.body_unique hr hc' houter' hlength distinct ht ht']
  exact heq ▸ hmem'

theorem methodsTyped_append : ∀ {ms ms' : List Source.Method} {ts : List Typed.Method}
    {env : Environment}, MethodsTyped r env (ms ++ ms') ts → ∃ ts₁ ts₂, ts = ts₁ ++ ts₂ ∧
      MethodsTyped r env ms ts₁ ∧ MethodsTyped r (env.declareMethods ts₁) ms' ts₂
  | [], _, ts, _, h => ⟨[], ts, rfl, .nil, h⟩
  | _ :: _, _, t :: _, _, .cons h hs => by
    obtain ⟨ts₁, ts₂, rfl, h₁, h₂⟩ := methodsTyped_append hs
    exact ⟨t :: ts₁, ts₂, rfl, .cons h h₁, h₂⟩

theorem zip_nodup {ms : List Source.Method} {ts : List Typed.Method}
    (h : MethodsTyped r env ms ts) : (ms.zip ts).Nodup := by
  have hkeys := (fresh_of_methodsTyped h).2
  rw [← List.map_snd_zip (Nat.le_of_eq (length_of_methodsTyped h)), List.map_map] at hkeys
  exact List.Nodup.of_map _ hkeys

section

variable (hr : r.Reachable) {p p' : Source.Program} {t t' : Typed.Program}
  (h : ProgramTyped r .initial p t) (h' : ProgramTyped r .initial p' t')
  (hfields : p'.fields = p.fields)
include hr h h' hfields

theorem fields_of_programTyped : t'.fields = t.fields := by
  cases h with
  | mk _ hf _ =>
    cases h' with
    | mk _ hf' _ =>
      rw [hfields] at hf'
      exact Typing.fields_unique hr Typing.sees_initial hf' hf

theorem zip_of_programTyped (hsub : p.methods ⊆ p'.methods) :
    p.methods.zip t.methods ⊆ p'.methods.zip t'.methods := by
  have heq := fields_of_programTyped hr h h' hfields
  cases h with
  | mk _ _ hm =>
    cases h' with
    | mk _ _ hm' =>
      cases heq
      exact zip_of_methodsTyped hr (Typing.sees_initial.declareAll _)
        (Typing.declareAll_outer _) hm hm' hsub

theorem methods_subset (hsub : p.methods ⊆ p'.methods) : t.methods ⊆ t'.methods := by
  intro method hmem
  have hzip := zip_of_programTyped hr h h' hfields hsub
  cases h with
  | mk _ _ hm =>
    obtain ⟨source, hmem⟩ := exists_mem_zip_right hm hmem
    exact (List.of_mem_zip (hzip hmem)).2

/-- In another order, the methods are decorated as they were. -/
theorem zip_perm (hperm : p'.methods.Perm p.methods) :
    (p'.methods.zip t'.methods).Perm (p.methods.zip t.methods) := by
  have hsub := zip_of_programTyped hr h h' hfields hperm.symm.subset
  have hsub' := zip_of_programTyped hr h' h hfields.symm hperm.subset
  cases h with
  | mk _ _ hm =>
    cases h' with
    | mk _ _ hm' =>
      exact (List.perm_ext_iff_of_nodup (zip_nodup hm') (zip_nodup hm)).2 fun q =>
        ⟨fun hq => hsub' hq, fun hq => hsub hq⟩

theorem methods_perm (hperm : p'.methods.Perm p.methods) : t'.methods.Perm t.methods := by
  have hzip := (zip_perm hr h h' hfields hperm).map Prod.snd
  cases h with
  | mk _ _ hm =>
    cases h' with
    | mk _ _ hm' =>
      rwa [List.map_snd_zip (Nat.le_of_eq (length_of_methodsTyped hm')),
        List.map_snd_zip (Nat.le_of_eq (length_of_methodsTyped hm))] at hzip

/-- Further methods leave the earlier ones as they were decorated. -/
theorem methods_append {ms : List Source.Method} (happend : p'.methods = p.methods ++ ms) :
    ∃ ts, t'.methods = t.methods ++ ts ∧ ts.length = ms.length := by
  have heq := fields_of_programTyped hr h h' hfields
  cases h with
  | mk _ _ hm =>
    cases h' with
    | mk _ _ hm' =>
      cases heq
      rw [happend] at hm'
      obtain ⟨ts₁, ts, rfl, h₁, hms⟩ := methodsTyped_append hm'
      obtain rfl := Typing.methods_unique hr (Typing.sees_initial.declareAll _)
        (Typing.declareAll_outer _) h₁ hm
      exact ⟨ts, rfl, length_of_methodsTyped hms⟩

end

/-! ## What programs offer -/

theorem key_of_methodTyped {m : Source.Method} {t : Typed.Method} (h : MethodTyped r env m t) :
    t.key = (m.name, m.parameters.length) ∧ t.key = (t.function.name, t.function.arity) := by
  refine ⟨?_, congrArg (Prod.mk _) (arity_of_methodTyped h)⟩
  cases h
  rfl

/-- The methods call each other and `print` only, `main` is among them, and each of them is found
by a key of its own. -/
structure Typed.Program.Complete (t : Typed.Program) : Prop where
  calls : ∀ method ∈ t.methods, ∀ key ∈ Typed.blockCalls method.body, Offered t.methods key
  main : Offered t.methods ("main", 0)
  distinct : (t.methods.map Typed.Method.key).Nodup
  apart : ∀ method ∈ t.methods, method.key ≠ ("print", 1)

/-- Where all methods of a program are known, nothing else is but `print`. -/
theorem offered_of_known {ms : List Source.Method} {ts : List Typed.Method}
    (h : MethodsTyped r env ms ts) (henv : env.functions = Environment.initial.functions)
    {key : String × Nat} {f : Function}
    (hf : (env.declareMethods ts).functions.get? key = some f) : Offered ts key := by
  rcases of_get?_declareMethods _ hf with hf | ⟨t, ht, rfl, rfl⟩
  · rw [henv, Environment.initial, Table.get?_cons] at hf
    split_ifs at hf with hkey
    · exact .inl hkey
    · cases hf
  · obtain ⟨m, hmem⟩ := exists_mem_zip_right h ht
    obtain ⟨_, hm, -⟩ := typed_of_mem_zip h hmem
    exact .inr ⟨t, ht, (key_of_methodTyped hm).2⟩

theorem complete_of_programTyped {p : Source.Program} {t : Typed.Program}
    (h : ProgramTyped r .initial p t) : t.Complete := by
  cases h with
  | @mk fields ts start hf hms =>
    have henv := functions_declareAll (fields.map (·.target)) .initial
    obtain ⟨hfresh, hdistinct⟩ := fresh_of_methodsTyped hms
    obtain ⟨c, hc⟩ := Typing.sees_declareMethods ts
      (Typing.sees_initial.declareAll (fields.map (·.target))) (Typing.declareAll_outer _)
    refine ⟨fun t ht key hkey => ?_, ?_, hdistinct, fun t ht hprint => ?_⟩
    · obtain ⟨m, hmem⟩ := exists_mem_zip_right hms ht
      obtain ⟨env', hm, hbelow⟩ := typed_of_mem_zip hms hmem
      cases hm with
      | mk _ _ _ _ _ hb =>
        have hkeyed : Keyed (env'.declareFunction _).functions := fun key f hf =>
          hc.keyed key f (hbelow.functions key f hf)
        have htraced := traced_of_blockTyped _ hb ((functions_ofMethod ..).symm ▸ hkeyed)
        rw [functions_ofMethod] at htraced
        obtain ⟨f, hf⟩ := htraced.known key (htraced.eq ▸ hkey)
        exact offered_of_known hms henv (hbelow.functions key f hf)
    · obtain ⟨main, hmain, hname, hparameters, -⟩ := start
      obtain ⟨t, hmem⟩ := exists_mem_zip_left hms hmain
      obtain ⟨_, hm, -⟩ := typed_of_mem_zip hms hmem
      refine .inr ⟨t, (List.of_mem_zip hmem).2, ?_⟩
      rw [(key_of_methodTyped hm).1, hname, hparameters, List.length_nil]
    · have hnone := hfresh t ht
      rw [hprint, henv] at hnone
      cases hnone

end TypedImp
