import Mathlib.Data.List.Basic
import TypedImp.Proofs.Scope.Chain

/-!
# Scopes with other functions

Giving one scope other functions changes nothing about variables, and it makes no difference
whether it is done before or after variables are bound and scopes are entered or left. Of the
functions, those are found as before that the scope binds as before (`lookupFunction_refit`).
-/

namespace TypedImp

variable {V F : Type}

def Scope.withFunctions (funs : Table (String × Nat) F) (scope : Scope V F) : Scope V F :=
  { scope with funs }

namespace Arena

/-- Gives a live scope other functions. -/
def refit (a : Arena V F) (t : ScopeId) (funs : Table (String × Nat) F) : Arena V F :=
  a.modify t (.withFunctions funs)

variable {a : Arena V F} {s t : ScopeId} {name : String} {v : V} {funs : Table (String × Nat) F}

theorem get?_refit (a : Arena V F) (t : ScopeId) (funs : Table (String × Nat) F) (s : ScopeId) :
    (a.refit t funs).get? s = if s = t then (a.get? s).map (.withFunctions funs) else a.get? s :=
  get?_modify ..

@[simp]
theorem size_refit (a : Arena V F) (t : ScopeId) (funs : Table (String × Nat) F) :
    (a.refit t funs).size = a.size :=
  size_modify ..

/-! ## Operations -/

theorem refit_refit (a : Arena V F) (t : ScopeId) (funs funs' : Table (String × Nat) F) :
    (a.refit t funs).refit t funs' = a.refit t funs' := by
  refine ext_get? fun s => ?_
  simp only [get?_refit]
  split_ifs
  · rw [Option.map_map]
    rfl
  · rfl

theorem refit_self {scope : Scope V F} (h : a.get? t = some scope) :
    a.refit t scope.funs = a := by
  refine ext_get? fun s => ?_
  rw [get?_refit]
  split_ifs with hs
  · rw [hs, h]
    rfl
  · rfl

/-- Binding a function gives the scope other functions. -/
theorem bindFunction_eq_refit {scope : Scope V F} (h : a.get? t = some scope) (name : String)
    (arity : Nat) (f : F) :
    a.bindFunction t name arity f = a.refit t (scope.funs.insert (name, arity) f) := by
  refine ext_get? fun s => ?_
  rw [bindFunction, get?_modify, get?_refit]
  split_ifs with hs
  · rw [hs, h]
    rfl
  · rfl

theorem enter_refit (h : t.index < a.size) (funs : Table (String × Nat) F) (p : Option ScopeId) :
    (a.refit t funs).enter p = (a.enter p).refit t funs := by
  have hnext : (a.refit t funs).next = a.next := congrArg ScopeId.mk (size_refit ..)
  refine ext_get? fun s => ?_
  simp only [get?_refit, get?_enter, hnext]
  split_ifs with hs ht
  · exact absurd (hs.symm.trans ht).symm (ne_next_of_lt h)
  · rfl
  · rfl
  · rfl

theorem exit_refit (a : Arena V F) (s t : ScopeId) (funs : Table (String × Nat) F) :
    (a.refit t funs).exit s = (a.exit s).refit t funs := by
  refine ext_get? fun u => ?_
  simp only [get?_refit, get?_exit]
  split_ifs <;> rfl

theorem bindVariable_refit (a : Arena V F) (t : ScopeId) (funs : Table (String × Nat) F)
    (s : ScopeId) (name : String) (v : V) :
    (a.refit t funs).bindVariable s name v = (a.bindVariable s name v).refit t funs := by
  refine ext_get? fun u => ?_
  simp only [bindVariable, get?_modify, get?_refit]
  split_ifs
  · simp only [Option.map_map]
    rfl
  · rfl
  · rfl
  · rfl

/-! ## Lookups -/

theorem chain_refit (a : Arena V F) (t : ScopeId) (funs : Table (String × Nat) F) (s : ScopeId) :
    (a.refit t funs).chain s =
      ⟨(a.chain s).scopes.map fun q => (q.1, if q.1 = t then q.2.withFunctions funs else q.2),
        (a.chain s).ending⟩ :=
  chain_modify a t (f := .withFunctions funs) (fun _ => rfl) s

@[simp]
theorem findVariable?_refit (a : Arena V F) (t : ScopeId) (funs : Table (String × Nat) F)
    (s : ScopeId) (name : String) :
    (a.refit t funs).findVariable? s name = a.findVariable? s name := by
  rw [findVariable?, findVariable?, chain_refit, List.findSome?_map]
  congr 1
  funext q
  simp only [Function.comp_apply]
  split_ifs <;> rfl

@[simp]
theorem lookupVariable_refit (a : Arena V F) (t : ScopeId) (funs : Table (String × Nat) F)
    (s : ScopeId) (name : String) :
    (a.refit t funs).lookupVariable s name = a.lookupVariable s name := by
  unfold lookupVariable
  rw [findVariable?_refit, chain_refit]

theorem defineVariable_refit (a : Arena V F) (t : ScopeId) (funs : Table (String × Nat) F)
    (s : ScopeId) (name : String) (v : V) :
    (a.refit t funs).defineVariable s name v =
      (a.defineVariable s name v).map fun b => b.refit t funs := by
  have hget := get?_refit a t funs s
  unfold defineVariable
  rw [hget, bindVariable_refit]
  cases a.get? s with
  | none => split_ifs <;> rfl
  | some scope =>
    split_ifs with ht
    all_goals
      dsimp only [Option.map_some, Scope.withFunctions]
      split_ifs <;> rfl

theorem setVariable_refit (a : Arena V F) (t : ScopeId) (funs : Table (String × Nat) F)
    (s : ScopeId) (name : String) (v : V) :
    (a.refit t funs).setVariable s name v =
      (a.setVariable s name v).map fun p => (p.1, p.2.refit t funs) := by
  rw [setVariable_eq, setVariable_eq, findVariable?_refit, chain_refit]
  cases a.findVariable? s name with
  | none => dsimp only; split <;> rfl
  | some q => simp only [bindVariable_refit, Except.map]

/-- From elsewhere, functions are found as before. -/
theorem lookupFunction_refit_of_not_mem (h : ∀ q ∈ (a.chain s).scopes, q.1 ≠ t) (name : String)
    (arity : Nat) :
    (a.refit t funs).lookupFunction s name arity = a.lookupFunction s name arity := by
  refine lookupFunction_congr ?_ name arity
  rw [chain_refit]
  congr 1
  refine (List.map_congr_left fun q hq => ?_).trans (List.map_id _)
  rw [if_neg (h q hq)]
  rfl

/-- A function that is found is found again if the scope binds it as before. -/
theorem lookupFunction_refit {arity : Nat} {f : F} (h : a.lookupFunction s name arity = .ok f)
    (hsame : ∀ scope, a.get? t = some scope →
      funs.get? (name, arity) = scope.funs.get? (name, arity)) :
    (a.refit t funs).lookupFunction s name arity = .ok f := by
  rw [lookupFunction_eq_ok] at h ⊢
  rw [← h, findFunction?, findFunction?, chain_refit, List.findSome?_map]
  refine findSome?_congr_left fun q hq => ?_
  simp only [Function.comp_apply]
  split_ifs with ht
  · exact hsame q.2 (ht ▸ get?_of_mem_climb hq)
  · rfl

end Arena

end TypedImp
