import Mathlib.Data.Option.Basic
import TypedImp.Machine.Basic
import TypedImp.Proofs.Scope.Chain
import TypedImp.Proofs.Typing.Judgement

/-!
# Plans

The plan of a machine has the same scopes as the machine, and in the place of every value the
variable that was declared for it. A machine fits a plan as long as every variable has a value that
its type allows for: what enters and leaves scopes, defines and assigns keeps it so.
-/

namespace TypedImp

/-- Scopes with their variables and what can be called from them. -/
abbrev Plan := Arena Variable Callable

variable {holds : TypeId → Value → Prop} {plan : Plan} {s t : ScopeId}

/-- A scope binds the variables that the plan has for it, each to a value of its type. -/
structure Scope.Fits (holds : TypeId → Value → Prop) (q : Scope Variable Callable)
    (scope : Scope Value Callable) : Prop where
  parent : scope.parent = q.parent
  funs : scope.funs = q.funs
  vars : ∀ name, Option.Rel (fun v value => holds v.type value) (q.vars.get? name)
    (scope.vars.get? name)

def Plan.Fits (holds : TypeId → Value → Prop) (plan : Plan) (a : Arena Value Callable) :
    Prop :=
  ∀ s, Option.Rel (Scope.Fits holds) (plan.get? s) (a.get? s)

namespace Scope

theorem fits_empty (p : Option ScopeId) : Scope.Fits holds (.empty p) (.empty p) :=
  ⟨rfl, rfl, fun _ => .none⟩

variable {q : Scope Variable Callable} {scope : Scope Value Callable}

theorem Fits.bindVariable (h : q.Fits holds scope) {name : String} {v : Variable} {value : Value}
    (hv : holds v.type value) :
    (q.bindVariable name v).Fits holds (scope.bindVariable name value) where
  parent := h.parent
  funs := h.funs
  vars n := by
    simp only [Scope.bindVariable, Table.get?_insert]
    split_ifs
    · exact .some hv
    · exact h.vars n

theorem Fits.assign (h : q.Fits holds scope) {name : String} {v : Variable} {value : Value}
    (hname : q.vars.get? name = some v) (hv : holds v.type value) :
    q.Fits holds (scope.bindVariable name value) where
  parent := h.parent
  funs := h.funs
  vars n := by
    rw [Scope.bindVariable, Table.get?_insert]
    split_ifs with hn
    · rw [hn, hname]
      exact .some hv
    · exact h.vars n

theorem Fits.bindFunction (h : q.Fits holds scope) (name : String) (arity : Nat) (f : Callable) :
    (q.bindFunction name arity f).Fits holds (scope.bindFunction name arity f) where
  parent := h.parent
  funs := by rw [Scope.bindFunction, Scope.bindFunction, h.funs]
  vars := h.vars

end Scope

namespace Plan

def declare (plan : Plan) (s : ScopeId) (v : Variable) : Plan :=
  plan.bindVariable s v.name v

def declareAll (plan : Plan) (s : ScopeId) (vs : List Variable) : Plan :=
  vs.foldl (declare · s) plan

theorem declareAll_append (vs ws : List Variable) :
    plan.declareAll s (vs ++ ws) = (plan.declareAll s vs).declareAll s ws :=
  List.foldl_append

theorem get?_declareAll_of_ne (hst : t ≠ s) : ∀ (vs : List Variable) {plan : Plan},
    (plan.declareAll s vs).get? t = plan.get? t
  | [], _ => rfl
  | v :: vs, plan => by
    refine (get?_declareAll_of_ne hst vs).trans ?_
    exact (plan.get?_modify s t _).trans (if_neg hst)

theorem exit_declareAll (hst : t.index ≤ s.index) : ∀ (vs : List Variable) {plan : Plan},
    (plan.declareAll s vs).exit t = plan.exit t
  | [], _ => rfl
  | _ :: vs, plan => (exit_declareAll hst vs).trans (plan.exit_modify hst _)

theorem leave (plan : Plan) (p : Option ScopeId) (vs : List Variable) :
    (declareAll (plan.enter p) plan.next vs).exit plan.next = plan := by
  rw [exit_declareAll (Nat.le_refl _), plan.exit_enter]

/-! ## Fitting -/

namespace Fits

variable {a : Arena Value Callable}

theorem size_eq (h : plan.Fits holds a) : plan.size = a.size := by
  have hlive : ∀ i, i < plan.size ↔ i < a.size := fun i => by
    have hi := h ⟨i⟩
    constructor
    · intro hlt
      obtain ⟨q, hq⟩ : ∃ q, plan.get? ⟨i⟩ = some q := ⟨_, Array.getElem?_eq_getElem hlt⟩
      rw [hq] at hi
      cases ha : a.get? ⟨i⟩ with
      | none => rw [ha] at hi; cases hi
      | some scope => exact Arena.lt_size_of_get? ha
    · intro hlt
      obtain ⟨scope, ha⟩ : ∃ scope, a.get? ⟨i⟩ = some scope :=
        ⟨_, Array.getElem?_eq_getElem hlt⟩
      rw [ha] at hi
      cases hq : plan.get? ⟨i⟩ with
      | none => rw [hq] at hi; cases hi
      | some q => exact Arena.lt_size_of_get? hq
  have h₁ := hlive plan.size
  have h₂ := hlive a.size
  omega

theorem next_eq (h : plan.Fits holds a) : plan.next = a.next := by
  rw [Arena.next, Arena.next, h.size_eq]

theorem live (h : plan.Fits holds a) {q : Scope Variable Callable} (hq : plan.get? s = some q) :
    ∃ scope, a.get? s = some scope ∧ q.Fits holds scope := by
  have hs := h s
  rw [hq] at hs
  cases ha : a.get? s with
  | none => rw [ha] at hs; cases hs
  | some scope =>
    rw [ha] at hs
    cases hs with
    | some hfit => exact ⟨scope, rfl, hfit⟩

theorem enter (h : plan.Fits holds a) (p : Option ScopeId) :
    Plan.Fits holds (plan.enter p) (a.enter p) := by
  intro s
  rw [Arena.get?_enter, Arena.get?_enter, h.next_eq]
  split_ifs
  · exact .some (Scope.fits_empty p)
  · exact h s

theorem exit (h : plan.Fits holds a) (t : ScopeId) :
    Plan.Fits holds (plan.exit t) (a.exit t) := by
  intro s
  rw [Arena.get?_exit, Arena.get?_exit]
  split_ifs
  · exact h s
  · exact .none

theorem modify (h : plan.Fits holds a) {f : Scope Variable Callable → Scope Variable Callable}
    {g : Scope Value Callable → Scope Value Callable}
    (hfg : ∀ q scope, plan.get? t = some q → q.Fits holds scope → (f q).Fits holds (g scope)) :
    Plan.Fits holds (plan.modify t f) (a.modify t g) := by
  intro s
  rw [Arena.get?_modify, Arena.get?_modify]
  split_ifs with hs
  · subst hs
    have hlive := h s
    cases hq : plan.get? s with
    | none =>
      rw [hq] at hlive
      cases ha : a.get? s with
      | none => exact .none
      | some scope => rw [ha] at hlive; cases hlive
    | some q =>
      obtain ⟨scope, ha, hfit⟩ := h.live hq
      rw [ha]
      exact .some (hfg q scope hq hfit)
  · exact h s

theorem declare (h : plan.Fits holds a) {v : Variable} {value : Value}
    (hv : holds v.type value) (s : ScopeId) :
    (plan.declare s v).Fits holds (a.bindVariable s v.name value) :=
  h.modify fun _ _ _ hfit => hfit.bindVariable hv

theorem assign (h : plan.Fits holds a) {q : Scope Variable Callable} {name : String}
    {v : Variable} {value : Value} (hq : plan.get? s = some q)
    (hname : q.vars.get? name = some v) (hv : holds v.type value) :
    plan.Fits holds (a.bindVariable s name value) := by
  have hid : plan.modify s id = plan := Arena.ext_get? fun t => by
    rw [Arena.get?_modify]
    split_ifs <;> simp
  rw [← hid]
  refine h.modify fun q' scope hq' hfit => ?_
  rw [hq] at hq'
  cases hq'
  exact hfit.assign hname hv

theorem bindFunction (h : plan.Fits holds a) (s : ScopeId) (name : String) (arity : Nat)
    (f : Callable) :
    Plan.Fits holds (plan.bindFunction s name arity f) (a.bindFunction s name arity f) :=
  h.modify fun _ _ _ hfit => hfit.bindFunction name arity f

theorem path (h : plan.Fits holds a) {l : List (ScopeId × Scope Variable Callable)}
    (hl : plan.Path s l) : ∃ l', a.Path s l' ∧
      List.Forall₂ (fun q q' => q.1 = q'.1 ∧ q.2.Fits holds q'.2) l l' := by
  induction hl with
  | root live top =>
    obtain ⟨scope, ha, hfit⟩ := h.live live
    exact ⟨_, .root ha (hfit.parent.trans top), .cons ⟨rfl, hfit⟩ .nil⟩
  | child live parent before _ ih =>
    obtain ⟨scope, ha, hfit⟩ := h.live live
    obtain ⟨l', hl', hs⟩ := ih
    exact ⟨_, .child ha (hfit.parent.trans parent) before hl', .cons ⟨rfl, hfit⟩ hs⟩

end Fits

end Plan

end TypedImp
