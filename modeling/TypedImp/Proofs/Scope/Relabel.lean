import TypedImp.Proofs.Scope.Chain

/-!
# Relabelled functions

Where all functions of an arena are relabelled by one map, scopes are entered and left and variables
bound, read and assigned as before, and the function that is found under a name is the relabelled
one (`lookupFunction_relabel`).
-/

namespace TypedImp

namespace Table

variable {κ α β : Type}

def relabel (g : α → β) (t : Table κ α) : Table κ β :=
  t.map fun p => (p.1, g p.2)

theorem keys_relabel (g : α → β) (t : Table κ α) : (t.relabel g).keys = t.keys := by
  rw [keys, relabel, List.map_map]
  rfl

variable [DecidableEq κ]

theorem get?_relabel (g : α → β) (t : Table κ α) (k : κ) :
    (t.relabel g).get? k = (t.get? k).map g := by
  induction t with
  | nil => rfl
  | cons p t ih =>
    rw [relabel, List.map_cons, get?_cons, get?_cons]
    split_ifs
    · rfl
    · exact ih

theorem relabel_insert (g : α → β) (t : Table κ α) (k : κ) (v : α) :
    (t.insert k v).relabel g = (t.relabel g).insert k (g v) := by
  induction t with
  | nil => rfl
  | cons p t ih =>
    simp only [insert, relabel, List.map_cons] at ih ⊢
    split_ifs
    · rfl
    · rw [List.map_cons, ih]

end Table

variable {V F G : Type}

def Scope.relabel (g : F → G) (scope : Scope V F) : Scope V G :=
  ⟨scope.vars, scope.funs.relabel g, scope.parent⟩

namespace Arena

def relabel (g : F → G) (a : Arena V F) : Arena V G :=
  ⟨a.scopes.map (.relabel g)⟩

variable (g : F → G) (a : Arena V F) (s : ScopeId) (name : String) (arity : Nat)

theorem get?_relabel : (a.relabel g).get? s = (a.get? s).map (.relabel g) :=
  Array.getElem?_map ..

theorem size_relabel : (a.relabel g).size = a.size :=
  Array.size_map ..

theorem next_relabel : (a.relabel g).next = a.next :=
  congrArg ScopeId.mk (size_relabel g a)

/-! ## Changes -/

theorem relabel_enter (p : Option ScopeId) : (a.enter p).relabel g = (a.relabel g).enter p := by
  refine ext_get? fun t => ?_
  rw [get?_relabel, get?_enter, get?_enter, next_relabel, get?_relabel]
  split_ifs <;> rfl

theorem relabel_exit : (a.exit s).relabel g = (a.relabel g).exit s := by
  refine ext_get? fun t => ?_
  rw [get?_relabel, get?_exit, get?_exit, get?_relabel]
  split_ifs <;> rfl

theorem relabel_modify {f : Scope V F → Scope V F} {f' : Scope V G → Scope V G}
    (hf : ∀ scope, (f scope).relabel g = f' (scope.relabel g)) :
    (a.modify s f).relabel g = (a.relabel g).modify s f' := by
  refine ext_get? fun t => ?_
  rw [get?_relabel, get?_modify, get?_modify, get?_relabel]
  split_ifs
  · rw [Option.map_map, Option.map_map]
    exact congrArg (Option.map · _) (funext hf)
  · rfl

theorem relabel_bindVariable (value : V) :
    (a.bindVariable s name value).relabel g = (a.relabel g).bindVariable s name value :=
  relabel_modify g a s fun _ => rfl

theorem relabel_bindFunction (function : F) :
    (a.bindFunction s name arity function).relabel g =
      (a.relabel g).bindFunction s name arity (g function) :=
  relabel_modify g a s fun _ => by
    simp only [Scope.bindFunction, Scope.relabel, Table.relabel_insert]

theorem defineVariable_relabel (value : V) : (a.relabel g).defineVariable s name value =
    (a.defineVariable s name value).map (.relabel g) := by
  unfold defineVariable
  rw [get?_relabel]
  cases a.get? s with
  | none => rfl
  | some scope =>
    simp only [Option.map_some, Scope.relabel]
    split_ifs
    · rfl
    · exact congrArg Except.ok (relabel_bindVariable ..).symm

theorem defineFunction_relabel (function : F) :
    (a.relabel g).defineFunction s name arity (g function) =
      (a.defineFunction s name arity function).map (.relabel g) := by
  unfold defineFunction
  rw [get?_relabel]
  cases a.get? s with
  | none => rfl
  | some scope =>
    simp only [Option.map_some, Scope.relabel, Table.get?_relabel, Option.isSome_map]
    split_ifs
    · rfl
    · exact congrArg Except.ok (relabel_bindFunction ..).symm

/-! ## Lookups -/

theorem climb_relabel : ∀ (n : Nat) (s : ScopeId), (a.relabel g).climb n s =
    ⟨(a.climb n s).scopes.map fun q => (q.1, q.2.relabel g), (a.climb n s).ending⟩
  | 0, _ => rfl
  | n + 1, s => by
    simp only [climb, get?_relabel]
    cases a.get? s with
    | none => rfl
    | some scope =>
      have hparent : (scope.relabel g).parent = scope.parent := rfl
      simp only [Option.map_some, hparent]
      cases scope.parent with
      | none => rfl
      | some p => simp only [climb_relabel n p, List.map_cons]

theorem chain_relabel : (a.relabel g).chain s =
    ⟨(a.chain s).scopes.map fun q => (q.1, q.2.relabel g), (a.chain s).ending⟩ := by
  rw [chain, size_relabel, climb_relabel, chain]

theorem findVariable?_relabel :
    (a.relabel g).findVariable? s name = a.findVariable? s name := by
  rw [findVariable?, chain_relabel, List.findSome?_map]
  rfl

theorem findFunction?_relabel : (a.relabel g).findFunction? s name arity =
    (a.findFunction? s name arity).map g := by
  rw [findFunction?, chain_relabel, List.findSome?_map, findFunction?, List.map_findSome?]
  congr 1
  funext q
  exact Table.get?_relabel ..

theorem arities_relabel : (a.relabel g).arities s name = a.arities s name := by
  rw [arities, chain_relabel, List.flatMap_map, arities]
  congr 2
  funext q
  simp only [Scope.arities, Scope.relabel, Table.keys_relabel]

theorem lookupVariable_relabel :
    (a.relabel g).lookupVariable s name = a.lookupVariable s name := by
  rw [lookupVariable, findVariable?_relabel, chain_relabel, lookupVariable]

theorem lookupFunction_relabel : (a.relabel g).lookupFunction s name arity =
    (a.lookupFunction s name arity).map g := by
  rw [lookupFunction, findFunction?_relabel, chain_relabel, arities_relabel, lookupFunction]
  cases a.findFunction? s name arity <;> rfl

theorem setVariable_relabel (value : V) : (a.relabel g).setVariable s name value =
    (a.setVariable s name value).map fun p => (p.1, p.2.relabel g) := by
  rw [setVariable_eq, findVariable?_relabel, chain_relabel, setVariable_eq]
  cases a.findVariable? s name with
  | none => cases (a.chain s).ending <;> rfl
  | some found =>
    exact congrArg (fun b => Except.ok (found.2, b)) (relabel_bindVariable g a ..).symm

end Arena

end TypedImp
