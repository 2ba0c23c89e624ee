import TypedImp.Machine.Run
import TypedImp.Proofs.Outcome
import TypedImp.Proofs.Scope.Chain

/-!
# What lies in the scopes of a machine

A stock says which values a run may hold and what its scopes may bind as functions. What operators,
built-in members and bodies give from such values are such values again. A machine is stocked if
its scopes hold nothing else, and then finds nothing else (`Stocked.lookupVariable`,
`Stocked.lookupFunction`, `Stocked.readField`, `Stocked.resolveMethod`).
-/

namespace TypedImp

/-- The scope holds good values and binds what may be bound. -/
structure Scope.Holds (good : Value → Prop) (bound : String × Nat → Callable → Prop)
    (scope : Scope Value Callable) : Prop where
  values : ∀ name v, scope.vars.get? name = some v → good v
  functions : ∀ key callable, scope.funs.get? key = some callable → bound key callable

/-- Every live scope holds good values and binds what may be bound. -/
def Arena.Fills (good : Value → Prop) (bound : String × Nat → Callable → Prop)
    (a : Arena Value Callable) : Prop :=
  ∀ s scope, a.get? s = some scope → scope.Holds good bound

section

variable {good good' : Value → Prop} {bound bound' : String × Nat → Callable → Prop}
  {a b : Arena Value Callable} {s t : ScopeId} {name : String} {v : Value}

namespace Scope.Holds

variable {scope : Scope Value Callable}

theorem empty (parent : Option ScopeId) : Scope.Holds good bound (.empty parent) where
  values _ _ h := nomatch (h : none = some _)
  functions _ _ h := nomatch (h : none = some _)

theorem bindVariable (h : scope.Holds good bound) (hv : good v) :
    (scope.bindVariable name v).Holds good bound where
  values n w hw := by
    rw [Scope.bindVariable, Table.get?_insert] at hw
    split_ifs at hw
    · cases hw
      exact hv
    · exact h.values n w hw
  functions := h.functions

theorem bindFunction {arity : Nat} {callable : Callable} (h : scope.Holds good bound)
    (hc : bound (name, arity) callable) :
    (scope.bindFunction name arity callable).Holds good bound where
  values := h.values
  functions key c hget := by
    rw [Scope.bindFunction, Table.get?_insert] at hget
    split_ifs at hget with hk
    · cases hget
      exact hk ▸ hc
    · exact h.functions key c hget

end Scope.Holds

namespace Arena.Fills

theorem mono (h : a.Fills good bound) (hv : ∀ v, good v → good' v)
    (hc : ∀ key callable, bound key callable → bound' key callable) : a.Fills good' bound' :=
  fun s scope hs =>
    ⟨fun name v hget => hv v ((h s scope hs).values name v hget),
      fun key c hget => hc key c ((h s scope hs).functions key c hget)⟩

theorem empty : (Arena.empty : Arena Value Callable).Fills good bound := by
  intro s scope hs
  simp [get?, Arena.empty] at hs

theorem enter (h : a.Fills good bound) (parent : Option ScopeId) :
    (a.enter parent).Fills good bound := by
  intro s scope hs
  rw [get?_enter] at hs
  split_ifs at hs
  · cases hs
    exact .empty parent
  · exact h s scope hs

theorem exit (h : a.Fills good bound) (t : ScopeId) : (a.exit t).Fills good bound := by
  intro s scope hs
  rw [get?_exit] at hs
  split_ifs at hs
  exact h s scope hs

theorem modify (h : a.Fills good bound) {f : Scope Value Callable → Scope Value Callable}
    (hf : ∀ scope, scope.Holds good bound → (f scope).Holds good bound) :
    (a.modify t f).Fills good bound := by
  intro s scope hs
  rw [get?_modify] at hs
  split_ifs at hs
  · obtain ⟨scope', hs', rfl⟩ := Option.map_eq_some_iff.1 hs
    exact hf scope' (h s scope' hs')
  · exact h s scope hs

theorem bindVariable (h : a.Fills good bound) (s : ScopeId) (name : String) (hv : good v) :
    (a.bindVariable s name v).Fills good bound :=
  h.modify fun _ hscope => hscope.bindVariable hv

theorem bindFunction (h : a.Fills good bound) (s : ScopeId) {arity : Nat} {callable : Callable}
    (hc : bound (name, arity) callable) :
    (a.bindFunction s name arity callable).Fills good bound :=
  h.modify fun _ hscope => hscope.bindFunction hc

theorem defineVariable (h : a.Fills good bound) (hv : good v)
    (ok : a.defineVariable s name v = .ok b) : b.Fills good bound := by
  obtain ⟨-, rfl⟩ := defineVariable_eq_ok.1 ok
  exact h.bindVariable s name hv

theorem defineFunction (h : a.Fills good bound) {arity : Nat} {callable : Callable}
    (hc : bound (name, arity) callable)
    (ok : a.defineFunction s name arity callable = .ok b) : b.Fills good bound := by
  obtain ⟨-, rfl⟩ := defineFunction_eq_ok.1 ok
  exact h.bindFunction s hc

theorem setVariable (h : a.Fills good bound) {old : Value} (hv : good v)
    (ok : a.setVariable s name v = .ok (old, b)) : b.Fills good bound := by
  obtain ⟨t, -, rfl⟩ := setVariable_eq_ok.1 ok
  exact h.bindVariable t name hv

theorem lookupVariable (h : a.Fills good bound) (ok : a.lookupVariable s name = .ok v) :
    good v := by
  obtain ⟨t, ht⟩ := lookupVariable_eq_ok.1 ok
  obtain ⟨scope, hs, hget⟩ := get?_of_findVariable? ht
  exact (h t scope hs).values name v hget

theorem lookupFunction (h : a.Fills good bound) {arity : Nat} {callable : Callable}
    (ok : a.lookupFunction s name arity = .ok callable) : bound (name, arity) callable := by
  obtain ⟨t, scope, hs, hget⟩ := get?_of_findFunction? (lookupFunction_eq_ok.1 ok)
  exact (h t scope hs).functions _ callable hget

end Arena.Fills

theorem Machine.fills_initial (h : bound ("print", 1) .print) :
    Machine.initial.scopes.Fills good bound :=
  (Arena.Fills.empty.enter none).bindFunction root h

end

/-- Values and callables among which a run stays. -/
structure Stock (r : Registry) where
  /-- The values that variables may have and calls may pass and give. -/
  good : Value → Prop
  /-- What may be bound under a name and a number of parameters. -/
  bound : String × Nat → Callable → Prop
  good_of (d : Datum) (h : ∀ items, d ≠ .sequence items) : good (.of d)
  good_item {v : Value} {items : List Value} (hv : good v) (h : v.datum = .sequence items) :
    ∀ item ∈ items, good item
  good_body {key : String × Nat} {body : Body} {values : List Value} {v : Value}
    (h : bound key (.body body)) (hvalues : ∀ w ∈ values, good w) (hv : body values = .ok v) :
    good v
  good_getter {type : TypeId} {name : String} {field : FieldMember} {getter : Body} {v w : Value}
    (h : r.field type name = .ok field) (hg : field.getter = some getter) (hv : good v)
    (hw : getter [v] = .ok w) : good w
  good_method {type : TypeId} {name : String} {n : Nat} {method : MethodMember} {body : Body}
    {values : List Value} {v : Value} (h : r.method type name n = .ok method)
    (hb : method.body = some body) (hvalues : ∀ w ∈ values, good w) (hv : body values = .ok v) :
    good v

namespace Stock

variable {r : Registry} (S : Stock r) {name : String} {v : Value} {m : Machine}

theorem good_nil : S.good .nil :=
  S.good_of .nil fun _ h => nomatch h

theorem good_boolean (b : Bool) : S.good (.boolean b) :=
  S.good_of (.boolean b) fun _ h => nomatch h

theorem good_literal (value : Literal) : S.good (.of value.datum) :=
  S.good_of _ fun items h => by cases value <;> cases h

/-- An operator on numbers or strings gives a number or a string. -/
theorem good_apply {operator : Arithmetic} {left right d : Datum}
    (h : operator.apply left right = .ok d) : S.good (.of d) := by
  unfold Arithmetic.apply at h
  split_ifs at h
  · cases h
    exact S.good_of _ fun _ h => nomatch h
  · rw [Arithmetic.onNumbers.eq_def] at h
    split at h
    · obtain ⟨n, -, hn⟩ := bind_eq_ok.1 h
      cases hn
      exact S.good_of _ fun _ h => nomatch h
    · obtain ⟨q, -, hq⟩ := bind_eq_ok.1 h
      cases hq
      exact S.good_of _ fun _ h => nomatch h
    · cases h

/-- The scopes of the machine hold nothing but what the stock has. -/
def Stocked (m : Machine) : Prop :=
  m.scopes.Fills S.good S.bound

variable {S}

namespace Stocked

theorem lookupVariable (h : S.Stocked m) (ok : m.lookupVariable name = .ok v) : S.good v :=
  Arena.Fills.lookupVariable h ok

theorem lookupFunction (h : S.Stocked m) {arity : Nat} {callable : Callable}
    (ok : m.lookupFunction name arity = .ok callable) : S.bound (name, arity) callable :=
  Arena.Fills.lookupFunction h ok

theorem readField (h : S.Stocked m) {object : Value} (ho : S.good object)
    (ok : m.readField r object name = .ok v) : S.good v := by
  unfold Machine.readField at ok
  split at ok
  · rename_i found hfound
    cases ok
    obtain ⟨members, -, hlookup⟩ := Option.map_eq_some_iff.1 hfound
    exact Arena.Fills.lookupVariable h hlookup
  · obtain ⟨field, hfield, ok⟩ := bind_eq_ok.1 ok
    split at ok
    · rename_i getter hg
      exact S.good_getter hfield hg ho ok
    · cases ok

/-- The method of an object is bound among its members, or it is the body of a member of its
type. -/
theorem resolveMethod (h : S.Stocked m) {object : Value} {arity : Nat} {callable : Callable}
    (ok : m.resolveMethod r object name arity = .ok callable) :
    (∃ members, object.members = some members ∧
      S.bound (name, Function.withReceiver arity) callable) ∨
    ∃ method body, r.method object.type name arity = .ok method ∧ method.body = some body ∧
      callable = .body body := by
  unfold Machine.resolveMethod at ok
  split at ok
  · rename_i found hfound
    cases ok
    obtain ⟨members, hmembers, hlookup⟩ := Option.map_eq_some_iff.1 hfound
    exact .inl ⟨members, hmembers, Arena.Fills.lookupFunction h hlookup⟩
  · obtain ⟨method, hmethod, ok⟩ := bind_eq_ok.1 ok
    split at ok
    · rename_i body hb
      cases ok
      exact .inr ⟨method, body, hmethod, hb, rfl⟩
    · cases ok

end Stocked

/-- The stock that has everything. -/
def all (r : Registry) : Stock r where
  good _ := True
  bound _ _ := True
  good_of _ _ := trivial
  good_item _ _ _ _ := trivial
  good_body _ _ _ := trivial
  good_getter _ _ _ _ := trivial
  good_method _ _ _ _ := trivial

theorem stocked_all (m : Machine) : (all r).Stocked m :=
  fun _ _ _ => ⟨fun _ _ _ => trivial, fun _ _ _ => trivial⟩

end Stock

end TypedImp
