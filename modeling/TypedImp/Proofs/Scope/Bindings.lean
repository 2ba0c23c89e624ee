import TypedImp.Proofs.Scope.Chain

/-!
# What scopes bind

If every binding of every live scope is as wanted (`Arena.All`), then so is all that is found from
any of them. Entering or leaving a scope keeps that up, and so does a binding that is as wanted
itself.
-/

namespace TypedImp

variable {V F : Type} {var var' : String → V → Prop} {fn fn' : String × Nat → F → Prop}

/-- What the scope itself binds is as wanted. -/
structure Scope.All (var : String → V → Prop) (fn : String × Nat → F → Prop) (scope : Scope V F) :
    Prop where
  vars : ∀ name v, scope.vars.get? name = some v → var name v
  funs : ∀ key f, scope.funs.get? key = some f → fn key f

namespace Scope.All

variable {scope : Scope V F}

theorem empty (parent : Option ScopeId) : Scope.All var fn (.empty parent) where
  vars _ _ h := nomatch (h : none = some _)
  funs _ _ h := nomatch (h : none = some _)

theorem bindVariable (h : scope.All var fn) {name : String} {v : V} (hv : var name v) :
    (scope.bindVariable name v).All var fn where
  vars n w hw := by
    rw [Scope.bindVariable, Table.get?_insert] at hw
    split_ifs at hw with hn
    · cases hw
      exact hn ▸ hv
    · exact h.vars n w hw
  funs := h.funs

theorem bindFunction (h : scope.All var fn) {name : String} {arity : Nat} {f : F}
    (hf : fn (name, arity) f) : (scope.bindFunction name arity f).All var fn where
  vars := h.vars
  funs key g hg := by
    rw [Scope.bindFunction, Table.get?_insert] at hg
    split_ifs at hg with hk
    · cases hg
      exact hk ▸ hf
    · exact h.funs key g hg

end Scope.All

namespace Arena

variable {a : Arena V F}

/-- What live scopes bind is as wanted. -/
def All (var : String → V → Prop) (fn : String × Nat → F → Prop) (a : Arena V F) : Prop :=
  ∀ s scope, a.get? s = some scope → scope.All var fn

namespace All

theorem mono (h : a.All var fn) (hv : ∀ name v, var name v → var' name v)
    (hf : ∀ key f, fn key f → fn' key f) : a.All var' fn' :=
  fun s scope hs =>
    ⟨fun name v hget => hv name v ((h s scope hs).vars name v hget),
      fun key f hget => hf key f ((h s scope hs).funs key f hget)⟩

theorem empty : (Arena.empty : Arena V F).All var fn := by
  intro s scope hs
  simp [get?, Arena.empty] at hs

theorem enter (h : a.All var fn) (p : Option ScopeId) : (a.enter p).All var fn := by
  intro s scope hs
  rw [get?_enter] at hs
  split_ifs at hs
  · cases hs
    exact .empty p
  · exact h s scope hs

theorem exit (h : a.All var fn) (t : ScopeId) : (a.exit t).All var fn := by
  intro s scope hs
  rw [get?_exit] at hs
  split_ifs at hs
  exact h s scope hs

theorem modify (h : a.All var fn) (t : ScopeId) {f : Scope V F → Scope V F}
    (hf : ∀ scope, scope.All var fn → (f scope).All var fn) : (a.modify t f).All var fn := by
  intro s scope hs
  rw [get?_modify] at hs
  split_ifs at hs
  · obtain ⟨scope', hs', rfl⟩ := Option.map_eq_some_iff.1 hs
    exact hf scope' (h s scope' hs')
  · exact h s scope hs

theorem bindVariable (h : a.All var fn) (s : ScopeId) {name : String} {v : V} (hv : var name v) :
    (a.bindVariable s name v).All var fn :=
  h.modify s fun _ hscope => hscope.bindVariable hv

theorem bindFunction (h : a.All var fn) (s : ScopeId) {name : String} {arity : Nat} {f : F}
    (hf : fn (name, arity) f) : (a.bindFunction s name arity f).All var fn :=
  h.modify s fun _ hscope => hscope.bindFunction hf

theorem lookupVariable (h : a.All var fn) {s : ScopeId} {name : String} {v : V}
    (ok : a.lookupVariable s name = .ok v) : var name v := by
  obtain ⟨t, ht⟩ := lookupVariable_eq_ok.1 ok
  obtain ⟨scope, hs, hget⟩ := get?_of_findVariable? ht
  exact (h t scope hs).vars name v hget

theorem lookupFunction (h : a.All var fn) {s : ScopeId} {name : String} {arity : Nat} {f : F}
    (ok : a.lookupFunction s name arity = .ok f) : fn (name, arity) f := by
  obtain ⟨t, scope, hs, hget⟩ := get?_of_findFunction? (lookupFunction_eq_ok.1 ok)
  exact (h t scope hs).funs _ f hget

end All

end Arena

end TypedImp
