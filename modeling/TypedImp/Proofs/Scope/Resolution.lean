import Mathlib.Data.List.Sort
import TypedImp.Proofs.Scope.History
import TypedImp.Proofs.Scope.Overloads

/-!
# Resolution of overloads

A function is looked up by name and arity along a path. What a name resolves to is told by the
scopes of the path alone (`Resolution`), and there is one answer in every case
(`Resolution.unique`). It depends on which functions the scopes bind and not on the order in which
they were defined (`Congruent.lookupFunction`, `SameDefinitions.congruent`). Main statement:
`overloads_resolve`.
-/

namespace TypedImp

variable {V F : Type}

/-- What a name resolves to along the scopes `l`, for a number of arguments. -/
inductive Resolution (l : List (ScopeId × Scope V F)) (name : String) (n : Nat) :
    Except Error F → Prop
  /-- The nearest scope that binds the name with this arity decides, whatever else the scopes
  around it bind. -/
  | bound {inner outer : List (ScopeId × Scope V F)} {q : ScopeId × Scope V F} {f : F}
      (split : l = inner ++ q :: outer)
      (nearest : ∀ p ∈ inner, p.2.funs.get? (name, n) = none)
      (here : q.2.funs.get? (name, n) = some f) : Resolution l name n (.ok f)
  | unknown (nowhere : ∀ q ∈ l, ∀ m, q.2.funs.get? (name, m) = none) :
      Resolution l name n (.error (.unknownFunction name n))
  | mismatch {available : List Nat} (missing : ∀ q ∈ l, q.2.funs.get? (name, n) = none)
      (somewhere : available ≠ []) (increasing : available.Pairwise (· < ·))
      (exact : ∀ m, m ∈ available ↔ ∃ q ∈ l, ∃ f, q.2.funs.get? (name, m) = some f) :
      Resolution l name n (.error (.arityMismatch name available n))

namespace Resolution

variable {l : List (ScopeId × Scope V F)} {name : String} {n : Nat} {o o' : Except Error F}

theorem toOption_eq (h : Resolution l name n o) :
    o.toOption = l.findSome? fun q => q.2.funs.get? (name, n) := by
  cases h with
  | bound split nearest here =>
    rw [split, List.findSome?_append, List.findSome?_eq_none_iff.2 nearest, Option.none_or,
      List.findSome?_cons, here]
    rfl
  | unknown nowhere => exact (List.findSome?_eq_none_iff.2 fun q hq => nowhere q hq n).symm
  | mismatch missing _ _ _ => exact (List.findSome?_eq_none_iff.2 missing).symm

theorem not_nowhere {available : List Nat} (somewhere : available ≠ [])
    (exact : ∀ m, m ∈ available ↔ ∃ q ∈ l, ∃ f, q.2.funs.get? (name, m) = some f) :
    ¬ ∀ q ∈ l, ∀ m, q.2.funs.get? (name, m) = none := by
  intro nowhere
  obtain ⟨m, hm⟩ := List.exists_mem_of_ne_nil available somewhere
  obtain ⟨q, hq, f, hf⟩ := (exact m).1 hm
  cases (nowhere q hq m).symm.trans hf

/-- The cases do not overlap. -/
theorem unique (h : Resolution l name n o) (h' : Resolution l name n o') : o = o' := by
  have heq : o.toOption = o'.toOption := h.toOption_eq.trans h'.toOption_eq.symm
  cases h with
  | bound _ _ _ =>
    cases h' with
    | bound _ _ _ => exact congrArg Except.ok (Option.some.inj heq)
    | unknown _ => cases heq
    | mismatch _ _ _ _ => cases heq
  | unknown nowhere =>
    cases h' with
    | bound _ _ _ => cases heq
    | unknown _ => rfl
    | mismatch _ somewhere _ exact' => exact absurd nowhere (not_nowhere somewhere exact')
  | mismatch _ somewhere increasing exact =>
    cases h' with
    | bound _ _ _ => cases heq
    | unknown nowhere => exact absurd nowhere (not_nowhere somewhere exact)
    | mismatch _ _ increasing' exact' =>
      rw [increasing.eq_of_mem_iff increasing' fun m => (exact m).trans (exact' m).symm]

end Resolution

namespace Arena

variable {a b : Arena V F} {s t : ScopeId} {name : String} {n : Nat}

/-! ## Answers along a path -/

theorem Path.mem_arities {l : List (ScopeId × Scope V F)} (h : a.Path s l) :
    n ∈ a.arities s name ↔ ∃ q ∈ l, ∃ f, q.2.funs.get? (name, n) = some f := by
  simp only [Arena.mem_arities, ← Option.isSome_iff_exists, h.findFunction?,
    List.findSome?_isSome_iff]

/-- A lookup answers as the scopes of the path say. -/
theorem Path.resolution {l : List (ScopeId × Scope V F)} (h : a.Path s l) (name : String)
    (n : Nat) : Resolution l name n (a.lookupFunction s name n) := by
  cases ho : a.lookupFunction s name n with
  | ok f =>
    rw [lookupFunction_eq_ok, h.findFunction?] at ho
    obtain ⟨inner, q, outer, split, here, nearest⟩ := List.findSome?_eq_some_iff.1 ho
    exact .bound split nearest here
  | error e =>
    obtain ⟨hn, hcases⟩ := h.lookupFunction_eq_error.1 ho
    have missing (m : Nat) (hm : m ∉ a.arities s name) :
        ∀ q ∈ l, q.2.funs.get? (name, m) = none := by
      intro q hq
      rw [Option.eq_none_iff_forall_ne_some]
      exact fun f hf => hm (h.mem_arities.2 ⟨q, hq, f, hf⟩)
    rcases hcases with ⟨hnil, rfl⟩ | ⟨hne, rfl⟩
    · exact .unknown fun q hq m => missing m (hnil ▸ List.not_mem_nil) q hq
    · exact .mismatch (missing n hn) hne (pairwise_arities ..) fun m => h.mem_arities

theorem Path.lookupFunction_iff {l : List (ScopeId × Scope V F)} (h : a.Path s l)
    {o : Except Error F} : a.lookupFunction s name n = o ↔ Resolution l name n o :=
  ⟨fun ho => ho ▸ h.resolution name n, (h.resolution name n).unique⟩

/-! ## Arenas with the same functions -/

/-- The scopes lie inside each other in the same way and bind the same functions. -/
structure Congruent (a b : Arena V F) : Prop where
  size : a.size = b.size
  parent (s : ScopeId) : a.parent? s = b.parent? s
  function (s : ScopeId) (name : String) (n : Nat) :
    a.ownFunction? s name n = b.ownFunction? s name n

namespace Congruent

variable (h : a.Congruent b)
include h

theorem climb (name : String) (n : Nat) : ∀ (budget : Nat) (s : ScopeId),
    (a.climb budget s).ending = (b.climb budget s).ending ∧
      (a.climb budget s).scopes.findSome? (fun q => q.2.funs.get? (name, n)) =
        (b.climb budget s).scopes.findSome? (fun q => q.2.funs.get? (name, n))
  | 0, _ => ⟨rfl, rfl⟩
  | budget + 1, s => by
    by_cases live : s.index < a.size
    · obtain ⟨scope, hs⟩ := exists_get? live
      obtain ⟨scope', hs'⟩ := exists_get? (h.size ▸ live)
      have hparent : scope.parent = scope'.parent := by
        simpa only [parent?, hs, hs', Option.bind_some] using h.parent s
      have hfunction : scope.funs.get? (name, n) = scope'.funs.get? (name, n) := by
        simpa only [ownFunction?, hs, hs', Option.bind_some] using h.function s name n
      simp only [Arena.climb, hs, hs', hparent]
      cases scope'.parent with
      | none => simp only [List.findSome?_cons, hfunction, and_self]
      | some p =>
        obtain ⟨hending, hfind⟩ := climb name n budget p
        simp only [List.findSome?_cons, hfunction, hending, hfind, and_self]
    · have hle := Nat.le_of_not_lt live
      simp only [Arena.climb, get?_eq_none hle, get?_eq_none (h.size ▸ hle), and_self]

theorem findFunction? (s : ScopeId) (name : String) (n : Nat) :
    a.findFunction? s name n = b.findFunction? s name n := by
  rw [Arena.findFunction?, Arena.findFunction?, chain, chain, h.size]
  exact (h.climb name n _ s).2

theorem arities (s : ScopeId) (name : String) : a.arities s name = b.arities s name := by
  refine (pairwise_arities a s name).eq_of_mem_iff (pairwise_arities b s name) fun n => ?_
  rw [mem_arities, mem_arities, h.findFunction?]

/-- Lookups answer alike, also if they fail. -/
theorem lookupFunction (s : ScopeId) (name : String) (n : Nat) :
    a.lookupFunction s name n = b.lookupFunction s name n := by
  have hending : (a.chain s).ending = (b.chain s).ending := by
    rw [chain, chain, h.size]
    exact (h.climb name n _ s).1
  rw [Arena.lookupFunction, Arena.lookupFunction, h.findFunction?, h.arities, hending]

end Congruent

/-! ## Definitions -/

/-- The parents of all scopes, in the order in which they were entered. -/
def parents (a : Arena V F) : List (Option ScopeId) :=
  (List.range a.size).map fun i => a.parent? ⟨i⟩

theorem parents_enter (a : Arena V F) (p : Option ScopeId) :
    (a.enter p).parents = a.parents ++ [p] := by
  rw [parents, size_enter, List.range_succ, List.map_append, parents]
  congr 1
  · refine List.map_congr_left fun i hi => parent?_enter_of_lt ?_ p
    exact List.mem_range.1 hi
  · exact congrArg (fun p => [p]) (parent?_enter_next a p)

theorem parents_bindVariable (a : Arena V F) (t : ScopeId) (name : String) (v : V) :
    (a.bindVariable t name v).parents = a.parents := by
  rw [parents, bindVariable, size_modify]
  exact List.map_congr_left fun i _ => parent?_bindVariable a t name v ⟨i⟩

theorem parents_bindFunction (a : Arena V F) (t : ScopeId) (name : String) (n : Nat) (f : F) :
    (a.bindFunction t name n f).parents = a.parents := by
  rw [parents, bindFunction, size_modify]
  exact List.map_congr_left fun i _ => parent?_bindFunction a t name n f ⟨i⟩

/-- An act that adds a scope or a function, or is about variables. Functions are not replaced. -/
def Act.Adds (a : Arena V F) : Act V F → Prop
  | exit _ => False
  | bindFunction s name arity _ => a.ownFunction? s name arity = none
  | _ => True

instance (a : Arena V F) : (act : Act V F) → Decidable (act.Adds a)
  | .exit _ => .isFalse id
  | .bindFunction s name arity _ => inferInstanceAs (Decidable (a.ownFunction? s name arity = none))
  | .enter _ | .defineVariable _ _ _ | .defineFunction _ _ _ _ | .bindVariable _ _ _
  | .setVariable _ _ _ => .isTrue trivial

/-- Every act adds to what is there. -/
def Building (a : Arena V F) : List (Act V F) → Prop
  | [] => True
  | act :: acts => act.Adds a ∧ (a.after act).Building acts

instance decidableBuilding : (a : Arena V F) → (acts : List (Act V F)) → Decidable (a.Building acts)
  | _, [] => .isTrue trivial
  | a, act :: acts =>
    have := decidableBuilding (a.after act) acts
    inferInstanceAs (Decidable (act.Adds a ∧ (a.after act).Building acts))

def Act.enters : Act V F → List (Option ScopeId)
  | enter parent => [parent]
  | _ => []

/-- The functions that an act defines, with their scopes. It defines none if the scope is not live
or already binds the name with this arity. -/
def defines (a : Arena V F) : Act V F → List (ScopeId × String × Nat × F)
  | .defineFunction s name arity function | .bindFunction s name arity function =>
    if s.index < a.size ∧ a.ownFunction? s name arity = none then [(s, name, arity, function)]
    else []
  | _ => []

def defined (a : Arena V F) : List (Act V F) → List (ScopeId × String × Nat × F)
  | [] => []
  | act :: acts => a.defines act ++ (a.after act).defined acts

/-- What an act that adds to an arena comes to. -/
inductive Addition (a : Arena V F) (act : Act V F) : Arena V F → Prop
  | entered {parent : Option ScopeId} (enters : act.enters = [parent])
      (defines : a.defines act = []) : Addition a act (a.enter parent)
  | function {s : ScopeId} {name : String} {arity : Nat} {function : F} (enters : act.enters = [])
      (defines : a.defines act = [(s, name, arity, function)]) (live : s.index < a.size)
      (fresh : a.ownFunction? s name arity = none) :
      Addition a act (a.bindFunction s name arity function)
  | value {s : ScopeId} {name : String} {value : V} (enters : act.enters = [])
      (defines : a.defines act = []) : Addition a act (a.bindVariable s name value)
  | nothing (enters : act.enters = []) (defines : a.defines act = []) : Addition a act a

theorem defineFunction_cases (a : Arena V F) (s : ScopeId) (name : String) (arity : Nat)
    (function : F) :
    (s.index < a.size ∧ a.ownFunction? s name arity = none ∧
      a.defineFunction s name arity function = .ok (a.bindFunction s name arity function)) ∨
    ¬ (s.index < a.size ∧ a.ownFunction? s name arity = none) ∧
      ∃ e, a.defineFunction s name arity function = .error e := by
  unfold defineFunction ownFunction?
  by_cases live : s.index < a.size
  · obtain ⟨scope, hs⟩ := exists_get? live
    simp only [hs, Option.bind_some, live, true_and]
    cases scope.funs.get? (name, arity) with
    | none => exact .inl ⟨rfl, rfl⟩
    | some f => exact .inr ⟨Option.some_ne_none f, _, rfl⟩
  · exact .inr ⟨fun h => live h.1, _, by rw [get?_eq_none (Nat.le_of_not_lt live)]⟩

theorem bindFunction_of_stale (h : ¬ s.index < a.size) (name : String) (arity : Nat) (f : F) :
    a.bindFunction s name arity f = a := by
  refine ext_get? fun u => ?_
  rw [bindFunction, get?_modify]
  split_ifs with hu
  · rw [hu, get?_eq_none (Nat.le_of_not_lt h), Option.map_none]
  · rfl

theorem after_of_ok {act : Act V F} (h : act.perform a = .ok b) : a.after act = b := by
  rw [after, h]

theorem after_of_error {act : Act V F} {e : Error} (h : act.perform a = .error e) :
    a.after act = a := by
  rw [after, h]

theorem addition_after {act : Act V F} (h : act.Adds a) : a.Addition act (a.after act) := by
  cases ok : act.perform a with
  | error e =>
    rw [after_of_error ok]
    cases act with
    | enter _ => cases ok
    | exit _ => cases ok
    | defineVariable _ _ _ => exact .nothing rfl rfl
    | defineFunction s name arity function =>
      rcases a.defineFunction_cases s name arity function with ⟨-, -, ok'⟩ | ⟨hnot, -⟩
      · cases ok.symm.trans ok'
      · exact .nothing rfl (if_neg hnot)
    | bindVariable _ _ _ => cases ok
    | bindFunction _ _ _ _ => cases ok
    | setVariable _ _ _ => exact .nothing rfl rfl
  | ok b =>
    rw [after_of_ok ok]
    cases act with
    | enter parent =>
      cases ok
      exact .entered rfl rfl
    | exit s => exact h.elim
    | defineVariable s name value =>
      obtain ⟨-, rfl⟩ := defineVariable_eq_ok.1 ok
      exact .value rfl rfl
    | defineFunction s name arity function =>
      rcases a.defineFunction_cases s name arity function with ⟨live, fresh, ok'⟩ | ⟨-, e, he⟩
      · cases ok.symm.trans ok'
        exact .function rfl (if_pos ⟨live, fresh⟩) live fresh
      · cases ok.symm.trans he
    | bindVariable s name value =>
      cases ok
      exact .value rfl rfl
    | bindFunction s name arity function =>
      cases ok
      by_cases live : s.index < a.size
      · exact .function rfl (if_pos ⟨live, h⟩) live h
      · rw [bindFunction_of_stale live]
        exact .nothing rfl (if_neg fun hl => live hl.1)
    | setVariable s name value =>
      obtain ⟨⟨old, c⟩, hset, rfl⟩ := map_eq_ok.1 ok
      obtain ⟨t, -, rfl⟩ := setVariable_eq_ok.1 hset
      exact .value rfl rfl

theorem parents_after {act : Act V F} (h : act.Adds a) :
    (a.after act).parents = a.parents ++ act.enters := by
  have hadd := addition_after h
  generalize a.after act = b at hadd ⊢
  cases hadd with
  | entered enters _ => rw [enters, parents_enter]
  | function enters _ _ _ => rw [enters, List.append_nil, parents_bindFunction]
  | value enters _ => rw [enters, List.append_nil, parents_bindVariable]
  | nothing enters _ => rw [enters, List.append_nil]

theorem ownFunction?_after {act : Act V F} (h : act.Adds a) {f : F} :
    (a.after act).ownFunction? s name n = some f ↔
      a.ownFunction? s name n = some f ∨ (s, name, n, f) ∈ a.defines act := by
  have hadd := addition_after h
  generalize a.after act = b at hadd ⊢
  cases hadd with
  | entered _ defines => simp [defines]
  | value _ defines => simp [defines]
  | nothing _ defines => simp [defines]
  | @function t name' n' g _ defines live fresh =>
    rw [ownFunction?_bindFunction live, defines, List.mem_singleton]
    simp only [Prod.mk.injEq]
    split_ifs with hkey
    · obtain ⟨rfl, rfl, rfl⟩ := hkey
      simp [fresh, eq_comm]
    · rw [or_iff_left]
      rintro ⟨rfl, rfl, rfl, rfl⟩
      exact hkey ⟨rfl, rfl, rfl⟩

theorem parents_afterAll : ∀ (acts : List (Act V F)) {a : Arena V F}, a.Building acts →
    (a.afterAll acts).parents = a.parents ++ acts.flatMap Act.enters
  | [], _, _ => (List.append_nil _).symm
  | act :: acts, a, h => by
    rw [List.flatMap_cons, ← List.append_assoc, ← parents_after h.1]
    exact parents_afterAll acts h.2

/-- The functions of a scope are those that it had and those that were defined in it. -/
theorem ownFunction?_afterAll {f : F} : ∀ (acts : List (Act V F)) {a : Arena V F},
    a.Building acts → ((a.afterAll acts).ownFunction? s name n = some f ↔
      a.ownFunction? s name n = some f ∨ (s, name, n, f) ∈ a.defined acts)
  | [], _, _ => by simp [afterAll, defined]
  | act :: acts, a, h => by
    rw [defined, List.mem_append, ← or_assoc, ← ownFunction?_after h.1]
    exact ownFunction?_afterAll acts h.2

/-- Two ways to build on an arena that enter the same scopes, one after the other, and define the
same functions in them, in whatever order. -/
structure SameDefinitions (a : Arena V F) (acts acts' : List (Act V F)) : Prop where
  building : a.Building acts
  building' : a.Building acts'
  enters : acts.flatMap Act.enters = acts'.flatMap Act.enters
  defined (d : ScopeId × String × Nat × F) : d ∈ a.defined acts ↔ d ∈ a.defined acts'

theorem SameDefinitions.congruent {acts acts' : List (Act V F)} (h : a.SameDefinitions acts acts') :
    (a.afterAll acts).Congruent (a.afterAll acts') := by
  have hparents : (a.afterAll acts).parents = (a.afterAll acts').parents := by
    rw [parents_afterAll acts h.building, parents_afterAll acts' h.building', h.enters]
  have hsize : (a.afterAll acts).size = (a.afterAll acts').size := by
    simpa [parents] using congrArg List.length hparents
  refine ⟨hsize, fun s => ?_, fun s name n => Option.ext fun f => ?_⟩
  · by_cases live : s.index < (a.afterAll acts).size
    · simp only [parents, hsize, List.map_inj_left, List.mem_range] at hparents
      exact hparents s.index (hsize ▸ live)
    · have hle := Nat.le_of_not_lt live
      rw [parent?, parent?, get?_eq_none hle, get?_eq_none (hsize ▸ hle)]
  · rw [ownFunction?_afterAll acts h.building, ownFunction?_afterAll acts' h.building', h.defined]

/-- A lookup from a live scope answers as the scopes from there to the root say, and it does not
matter in which order functions were defined. -/
theorem overloads_resolve (name : String) (n : Nat) :
    (∀ a : Arena V F, a.Ordered → ∀ s : ScopeId, s.index < a.size →
      ∃ l, a.Path s l ∧ ∀ o, a.lookupFunction s name n = o ↔ Resolution l name n o) ∧
    ∀ (a : Arena V F) (acts acts' : List (Act V F)), a.SameDefinitions acts acts' →
      ∀ s, (a.afterAll acts).lookupFunction s name n =
        (a.afterAll acts').lookupFunction s name n := by
  refine ⟨fun a ordered s live => ?_, fun a acts acts' same s => ?_⟩
  · obtain ⟨l, hl⟩ := ordered.exists_path live
    exact ⟨l, hl, fun o => hl.lookupFunction_iff⟩
  · exact same.congruent.lookupFunction s name n

/-- Functions of one name in two scopes, the outer ones first. -/
def outerFirst : List (Act Nat Nat) :=
  [.enter none, .defineFunction ⟨0⟩ "f" 2 20, .defineFunction ⟨0⟩ "f" 1 10, .enter (some ⟨0⟩),
    .defineFunction ⟨1⟩ "f" 0 7, .defineFunction ⟨1⟩ "f" 1 8]

def innerFirst : List (Act Nat Nat) :=
  [.enter none, .enter (some ⟨0⟩), .defineFunction ⟨1⟩ "f" 1 8, .defineFunction ⟨1⟩ "f" 0 7,
    .defineFunction ⟨0⟩ "f" 1 10, .defineFunction ⟨0⟩ "f" 2 20]

theorem overloads_resolve_twice :
    let a := (empty : Arena Nat Nat).afterAll outerFirst
    let b := (empty : Arena Nat Nat).afterAll innerFirst
    a.Ordered ∧ 1 < a.size ∧ (empty : Arena Nat Nat).SameDefinitions outerFirst innerFirst ∧
      (∃ l, a.Path ⟨1⟩ l ∧ Resolution l "f" 2 (.ok 20)) ∧
      (∃ l, a.Path ⟨1⟩ l ∧ Resolution l "f" 3 (.error (.arityMismatch "f" [0, 1, 2] 3))) ∧
      a.lookupFunction ⟨1⟩ "f" 3 = b.lookupFunction ⟨1⟩ "f" 3 := by
  intro a b
  have ordered : a.Ordered := Ordered.empty.afterAll outerFirst (by decide)
  have live : 1 < a.size := by decide
  have same : (empty : Arena Nat Nat).SameDefinitions outerFirst innerFirst := by
    refine ⟨by decide, by decide, rfl, fun d => List.Perm.mem_iff ?_⟩
    decide
  obtain ⟨l, hl, hiff⟩ := (overloads_resolve "f" 2).1 a ordered ⟨1⟩ live
  obtain ⟨l', hl', hiff'⟩ := (overloads_resolve "f" 3).1 a ordered ⟨1⟩ live
  exact ⟨ordered, live, same, ⟨l, hl, (hiff _).1 rfl⟩, ⟨l', hl', (hiff' _).1 rfl⟩,
    (overloads_resolve "f" 3).2 empty outerFirst innerFirst same ⟨1⟩⟩

end Arena

end TypedImp
