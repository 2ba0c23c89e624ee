import Mathlib.Tactic.Common
import TypedImp.Scope.Arena

/-!
# Chains

Where every parent lies before its children, the chain of a scope ends at a root and every name is
found on it or nowhere (`Path.chain`). Entering a scope and binding in scopes off the chain leave
a chain as it is, and leaving a scope takes back all that happened since it was entered
(`exit_enter`, `exit_modify`).
-/

namespace TypedImp

namespace Arena

variable {V F : Type} {a b : Arena V F} {s t p : ScopeId}

/-! ## Operations on single scopes -/

theorem get?_enter (a : Arena V F) (p : Option ScopeId) (s : ScopeId) :
    (a.enter p).get? s = if s = a.next then some (.empty p) else a.get? s := by
  obtain ⟨i⟩ := s
  simp only [get?, enter, next, size, Array.getElem?_push, ScopeId.mk.injEq]

theorem get?_exit (a : Arena V F) (t s : ScopeId) :
    (a.exit t).get? s = if s.index < t.index then a.get? s else none := by
  simp only [get?, exit, Array.take_eq_extract, Array.getElem?_extract, Nat.zero_add,
    Nat.sub_zero]
  split_ifs with h₁ h₂ h₂
  · rfl
  · omega
  · rw [Array.getElem?_eq_none]
    omega
  · rfl

theorem get?_modify (a : Arena V F) (t s : ScopeId) (f : Scope V F → Scope V F) :
    (a.modify t f).get? s = if s = t then (a.get? s).map f else a.get? s := by
  obtain ⟨i⟩ := s
  obtain ⟨j⟩ := t
  simp only [get?, modify, Array.getElem?_modify, ScopeId.mk.injEq, eq_comm]

theorem lt_size_of_get? {scope : Scope V F} (h : a.get? s = some scope) : s.index < a.size := by
  obtain ⟨i⟩ := s
  exact (Array.getElem?_eq_some_iff.1 h).1

theorem get?_next (a : Arena V F) : a.get? a.next = none := by
  simp [get?, next, size]

theorem get?_eq_none (h : a.size ≤ s.index) : a.get? s = none :=
  Array.getElem?_eq_none h

theorem exists_get? (h : s.index < a.size) : ∃ scope, a.get? s = some scope :=
  ⟨_, Array.getElem?_eq_getElem h⟩

theorem size_enter (a : Arena V F) (p : Option ScopeId) : (a.enter p).size = a.size + 1 :=
  Array.size_push ..

theorem ne_next_of_lt (h : s.index < a.size) : s ≠ a.next := by
  rintro rfl
  exact Nat.lt_irrefl _ h

theorem get?_enter_of_lt (h : s.index < a.size) (p : Option ScopeId) :
    (a.enter p).get? s = a.get? s := by
  rw [get?_enter, if_neg (ne_next_of_lt h)]

theorem parent?_enter (a : Arena V F) (p : Option ScopeId) (s : ScopeId) :
    (a.enter p).parent? s = if s = a.next then p else a.parent? s := by
  unfold parent?
  rw [get?_enter]
  split_ifs <;> rfl

theorem parent?_enter_next (a : Arena V F) (p : Option ScopeId) :
    (a.enter p).parent? a.next = p := by
  rw [parent?_enter, if_pos rfl]

theorem parent?_enter_of_lt (h : s.index < a.size) (p : Option ScopeId) :
    (a.enter p).parent? s = a.parent? s := by
  rw [parent?_enter, if_neg (ne_next_of_lt h)]

theorem size_exit (a : Arena V F) (t : ScopeId) : (a.exit t).size = min t.index a.size := by
  simp [exit, size]

theorem parent?_exit (a : Arena V F) (t s : ScopeId) :
    (a.exit t).parent? s = if s.index < t.index then a.parent? s else none := by
  unfold parent?
  rw [get?_exit]
  split_ifs <;> rfl

theorem lt_size_of_parent? (h : a.parent? s = some p) : s.index < a.size := by
  obtain ⟨scope, hs, -⟩ := Option.bind_eq_some_iff.1 h
  exact lt_size_of_get? hs

@[simp]
theorem size_modify (a : Arena V F) (t : ScopeId) (f : Scope V F → Scope V F) :
    (a.modify t f).size = a.size := by
  simp [modify, size]

theorem parent?_modify (a : Arena V F) (t s : ScopeId) {f : Scope V F → Scope V F}
    (hf : ∀ scope, (f scope).parent = scope.parent) :
    (a.modify t f).parent? s = a.parent? s := by
  unfold parent?
  rw [get?_modify]
  split_ifs
  · rcases a.get? s with _ | scope
    · rfl
    · exact hf scope
  · rfl

@[simp]
theorem parent?_bindVariable (a : Arena V F) (t : ScopeId) (name : String) (v : V) (s : ScopeId) :
    (a.bindVariable t name v).parent? s = a.parent? s :=
  parent?_modify a t s fun _ => rfl

@[simp]
theorem parent?_bindFunction (a : Arena V F) (t : ScopeId) (name : String) (arity : Nat) (f : F)
    (s : ScopeId) : (a.bindFunction t name arity f).parent? s = a.parent? s :=
  parent?_modify a t s fun _ => rfl

/-- The variable that the scope itself binds under a name. -/
def ownVariable? (a : Arena V F) (s : ScopeId) (name : String) : Option V :=
  (a.get? s).bind (·.vars.get? name)

/-- The function that the scope itself binds under a name and arity. -/
def ownFunction? (a : Arena V F) (s : ScopeId) (name : String) (arity : Nat) : Option F :=
  (a.get? s).bind (·.funs.get? (name, arity))

theorem ownVariable?_bindVariable (live : t.index < a.size) (name : String) (v : V) (s : ScopeId)
    (name' : String) : (a.bindVariable t name v).ownVariable? s name' =
      if s = t ∧ name' = name then some v else a.ownVariable? s name' := by
  unfold ownVariable? bindVariable
  rw [get?_modify]
  by_cases hs : s = t
  · obtain ⟨scope, hscope⟩ := exists_get? live
    simp only [hs, hscope, if_true, Option.map_some, Option.bind_some, Scope.bindVariable,
      Table.get?_insert, true_and]
  · simp only [hs, if_false, false_and]

@[simp]
theorem ownFunction?_bindVariable (a : Arena V F) (t : ScopeId) (x : String) (v : V) (s : ScopeId)
    (name : String) (n : Nat) :
    (a.bindVariable t x v).ownFunction? s name n = a.ownFunction? s name n := by
  unfold ownFunction? bindVariable
  rw [get?_modify]
  split_ifs
  · cases a.get? s <;> rfl
  · rfl

@[simp]
theorem ownFunction?_enter (a : Arena V F) (p : Option ScopeId) (s : ScopeId) (name : String)
    (n : Nat) : (a.enter p).ownFunction? s name n = a.ownFunction? s name n := by
  unfold ownFunction?
  rw [get?_enter]
  split_ifs with hs
  · rw [hs, get?_next]
    rfl
  · rfl

theorem ownFunction?_bindFunction (live : t.index < a.size) (name : String) (n : Nat) (f : F)
    (s : ScopeId) (name' : String) (n' : Nat) :
    (a.bindFunction t name n f).ownFunction? s name' n' =
      if s = t ∧ (name', n') = (name, n) then some f else a.ownFunction? s name' n' := by
  unfold ownFunction? bindFunction
  rw [get?_modify]
  by_cases hs : s = t
  · obtain ⟨scope, hscope⟩ := exists_get? live
    simp only [hs, hscope, if_true, Option.map_some, Option.bind_some, Scope.bindFunction,
      Table.get?_insert, true_and]
  · simp only [hs, if_false, false_and]

theorem ext_get? (h : ∀ s, a.get? s = b.get? s) : a = b := by
  obtain ⟨as⟩ := a
  obtain ⟨bs⟩ := b
  congr 1
  exact Array.ext_getElem? fun i => h ⟨i⟩

theorem exit_enter (a : Arena V F) (p : Option ScopeId) : (a.enter p).exit a.next = a := by
  refine ext_get? fun s => ?_
  rw [get?_exit, get?_enter]
  split_ifs with h₁ h₂
  · subst h₂
    omega
  · rfl
  · rw [eq_comm]
    by_contra h
    obtain ⟨scope, hs⟩ := Option.ne_none_iff_exists'.1 h
    exact h₁ (lt_size_of_get? hs)

theorem exit_modify (a : Arena V F) (h : s.index ≤ t.index) (f : Scope V F → Scope V F) :
    (a.modify t f).exit s = a.exit s := by
  refine ext_get? fun u => ?_
  simp only [get?_exit, get?_modify]
  split_ifs with h₁ h₂
  · subst h₂
    omega
  · rfl
  · rfl

/-! ## Chains -/

/-- Changing what a scope binds changes no more of a chain than that scope. -/
theorem climb_modify (a : Arena V F) (t : ScopeId) {f : Scope V F → Scope V F}
    (hf : ∀ scope, (f scope).parent = scope.parent) :
    ∀ (n : Nat) (s : ScopeId), (a.modify t f).climb n s =
      ⟨(a.climb n s).scopes.map fun q => (q.1, if q.1 = t then f q.2 else q.2),
        (a.climb n s).ending⟩
  | 0, _ => rfl
  | n + 1, s => by
    have hget := get?_modify a t s f
    cases h : a.get? s with
    | none =>
      simp only [h, Option.map_none, ite_self] at hget
      simp only [climb, h, hget, List.map_nil]
    | some scope =>
      rw [h, Option.map_some, ← apply_ite some] at hget
      have hparent : (if s = t then f scope else scope).parent = scope.parent := by
        split_ifs
        · exact hf scope
        · rfl
      simp only [climb, h, hget, hparent]
      split
      · rfl
      · simp only [climb_modify a t hf n, List.map_cons]

theorem chain_modify (a : Arena V F) (t : ScopeId) {f : Scope V F → Scope V F}
    (hf : ∀ scope, (f scope).parent = scope.parent) (s : ScopeId) :
    (a.modify t f).chain s =
      ⟨(a.chain s).scopes.map fun q => (q.1, if q.1 = t then f q.2 else q.2),
        (a.chain s).ending⟩ := by
  rw [chain, size_modify]
  exact climb_modify a t hf _ s

/-! ## Paths -/

/-- The scopes from one up to its root, innermost first. Every parent lies before its child. -/
inductive Path (a : Arena V F) : ScopeId → List (ScopeId × Scope V F) → Prop
  | root {s : ScopeId} {scope : Scope V F} (live : a.get? s = some scope)
      (top : scope.parent = none) : Path a s [(s, scope)]
  | child {s p : ScopeId} {scope : Scope V F} {up : List (ScopeId × Scope V F)}
      (live : a.get? s = some scope) (parent : scope.parent = some p) (before : p.index < s.index)
      (rest : Path a p up) : Path a s ((s, scope) :: up)

namespace Path

variable {l : List (ScopeId × Scope V F)}

theorem head (h : a.Path s l) : ∃ scope up, l = (s, scope) :: up ∧ a.get? s = some scope := by
  cases h with
  | root live _ => exact ⟨_, _, rfl, live⟩
  | child live _ _ _ => exact ⟨_, _, rfl, live⟩

theorem lt_size (h : a.Path s l) : s.index < a.size := by
  obtain ⟨scope, up, -, live⟩ := h.head
  exact lt_size_of_get? live

theorem climb (h : a.Path s l) : ∀ {n : Nat}, s.index < n → a.climb n s = ⟨l, .root⟩ := by
  induction h with
  | root live top =>
    rintro (_ | n) hn
    · omega
    · simp only [Arena.climb, live, top]
  | child live parent before _ ih =>
    rintro (_ | n) hn
    · omega
    · simp only [Arena.climb, live, parent, ih (by omega : _ < n)]

/-- A path is the whole chain, and the chain ends at the root. -/
theorem chain (h : a.Path s l) : a.chain s = ⟨l, .root⟩ :=
  h.climb (Nat.lt_succ_of_lt h.lt_size)

theorem mem (h : a.Path s l) : ∀ q ∈ l, q.1.index ≤ s.index ∧ a.get? q.1 = some q.2 := by
  induction h with
  | root live _ => simpa using live
  | child live _ before _ ih =>
    intro q hq
    rcases List.mem_cons.1 hq with rfl | hq
    · exact ⟨Nat.le_refl _, live⟩
    · exact ⟨by have := (ih q hq).1; omega, (ih q hq).2⟩

/-- The path from a scope on it is the rest of the whole one. -/
theorem of_mem (h : a.Path s l) : ∀ q ∈ l, ∃ up, a.Path q.1 up ∧ up <:+ l := by
  induction h with
  | root live top =>
    simp only [List.mem_singleton, forall_eq]
    exact ⟨_, .root live top, List.suffix_refl _⟩
  | child live parent before rest ih =>
    rw [List.forall_mem_cons]
    refine ⟨⟨_, .child live parent before rest, List.suffix_refl _⟩, fun q hq => ?_⟩
    obtain ⟨up, hup, hsuffix⟩ := ih q hq
    exact ⟨up, hup, hsuffix.trans (List.suffix_cons _ _)⟩

theorem congr (h : a.Path s l) (hb : ∀ t : ScopeId, t.index ≤ s.index → b.get? t = a.get? t) :
    b.Path s l := by
  induction h with
  | root live top => exact .root ((hb _ (Nat.le_refl _)).trans live) top
  | child live parent before _ ih =>
    exact .child ((hb _ (Nat.le_refl _)).trans live) parent before
      (ih fun t ht => hb t (by omega))

theorem enter (h : a.Path s l) (p : Option ScopeId) : (a.enter p).Path s l := by
  refine h.congr fun t ht => ?_
  rw [get?_enter, if_neg]
  rintro rfl
  have := h.lt_size
  simp only [next] at ht
  omega

/-- The path of a new scope is that of its parent below the new scope. -/
theorem enter_next (h : a.Path p l) :
    (a.enter (some p)).Path a.next ((a.next, .empty (some p)) :: l) :=
  .child (by rw [get?_enter, if_pos rfl]) rfl h.lt_size (h.enter _)

theorem modify {scope : Scope V F} {up : List (ScopeId × Scope V F)}
    (h : a.Path s ((s, scope) :: up)) {f : Scope V F → Scope V F}
    (hf : (f scope).parent = scope.parent) : (a.modify s f).Path s ((s, f scope) :: up) := by
  cases h with
  | root live top => exact .root (by rw [get?_modify, if_pos rfl, live]; rfl) (hf.trans top)
  | child live parent before rest =>
    refine .child (by rw [get?_modify, if_pos rfl, live]; rfl) (hf.trans parent) before ?_
    refine rest.congr fun t ht => ?_
    rw [get?_modify, if_neg]
    rintro rfl
    omega

/-- Changing what a scope binds leaves every path a path. -/
theorem exists_modify (h : a.Path s l) {f : Scope V F → Scope V F}
    (hf : ∀ scope, (f scope).parent = scope.parent) : ∃ l', (a.modify t f).Path s l' := by
  have hget {s : ScopeId} {scope : Scope V F} (live : a.get? s = some scope) :
      ∃ scope', (a.modify t f).get? s = some scope' ∧ scope'.parent = scope.parent := by
    rw [get?_modify, live]
    split_ifs
    · exact ⟨_, rfl, hf scope⟩
    · exact ⟨_, rfl, rfl⟩
  induction h with
  | root live top =>
    obtain ⟨scope', live', hp⟩ := hget live
    exact ⟨_, .root live' (hp.trans top)⟩
  | child live parent before _ ih =>
    obtain ⟨scope', live', hp⟩ := hget live
    obtain ⟨l', hl'⟩ := ih
    exact ⟨_, .child live' (hp.trans parent) before hl'⟩

theorem findVariable? (h : a.Path s l) (name : String) :
    a.findVariable? s name = l.findSome? fun q => (q.2.vars.get? name).map (q.1, ·) := by
  rw [Arena.findVariable?, h.chain]

theorem findFunction? (h : a.Path s l) (name : String) (arity : Nat) :
    a.findFunction? s name arity = l.findSome? fun q => q.2.funs.get? (name, arity) := by
  rw [Arena.findFunction?, h.chain]

end Path

/-! ## Lookups -/

theorem findSome?_congr_left {α β : Type} {offer offer' : α → Option β} :
    ∀ {l : List α}, (∀ x ∈ l, offer x = offer' x) → l.findSome? offer = l.findSome? offer'
  | [], _ => rfl
  | x :: l, h => by
    rw [List.forall_mem_cons] at h
    rw [List.findSome?_cons, List.findSome?_cons, h.1, findSome?_congr_left h.2]

theorem get?_of_mem_climb : ∀ {n : Nat} {s : ScopeId} {q : ScopeId × Scope V F},
    q ∈ (a.climb n s).scopes → a.get? q.1 = some q.2
  | 0, _, _, h => by simp [climb] at h
  | n + 1, s, q, h => by
    unfold climb at h
    split at h
    · simp at h
    · rename_i scope hs
      split at h
      · simp only [List.mem_singleton] at h
        rw [h]
        exact hs
      · rcases List.mem_cons.1 h with rfl | h
        · exact hs
        · exact get?_of_mem_climb h

/-- What is found from a scope lies in a scope of its chain. -/
theorem mem_chain_of_findVariable? {name : String} {value : V}
    (h : a.findVariable? s name = some (t, value)) :
    ∃ scope, (t, scope) ∈ (a.chain s).scopes ∧ scope.vars.get? name = some value := by
  obtain ⟨⟨t', scope⟩, hmem, hq⟩ := List.exists_of_findSome?_eq_some h
  obtain ⟨v, hv, hpair⟩ := Option.map_eq_some_iff.1 hq
  cases hpair
  exact ⟨scope, hmem, hv⟩

theorem get?_of_findVariable? {name : String} {value : V}
    (h : a.findVariable? s name = some (t, value)) :
    ∃ scope, a.get? t = some scope ∧ scope.vars.get? name = some value := by
  obtain ⟨scope, hmem, hv⟩ := mem_chain_of_findVariable? h
  exact ⟨scope, get?_of_mem_climb hmem, hv⟩

theorem get?_of_findFunction? {name : String} {arity : Nat} {function : F}
    (h : a.findFunction? s name arity = some function) :
    ∃ t scope, a.get? t = some scope ∧ scope.funs.get? (name, arity) = some function := by
  obtain ⟨q, hmem, hq⟩ := List.exists_of_findSome?_eq_some h
  exact ⟨q.1, q.2, get?_of_mem_climb hmem, hq⟩

/-- A set of scopes that has the parent of each contains the chains of all of them. -/
theorem forall_mem_climb {P : ScopeId → Prop}
    (hP : ∀ s p, P s → a.parent? s = some p → P p) : ∀ (n : Nat) {s : ScopeId}, P s →
    ∀ q ∈ (a.climb n s).scopes, P q.1
  | 0, _, _, _, hq => by simp [climb] at hq
  | n + 1, s, hs, q, hq => by
    unfold climb at hq
    split at hq
    · simp at hq
    · rename_i scope hscope
      split at hq
      · rw [List.mem_singleton.1 hq]
        exact hs
      · rename_i p hp
        rcases List.mem_cons.1 hq with rfl | hq
        · exact hs
        · exact forall_mem_climb hP n (hP s p hs (by rw [parent?, hscope]; exact hp)) q hq

theorem of_findVariable? {P : ScopeId → Prop} (hP : ∀ s p, P s → a.parent? s = some p → P p)
    (hs : P s) {name : String} {v : V} (h : a.findVariable? s name = some (t, v)) : P t := by
  obtain ⟨scope, hmem, -⟩ := mem_chain_of_findVariable? h
  exact forall_mem_climb hP _ hs _ hmem

theorem lookupVariable_eq_ok {name : String} {value : V} :
    a.lookupVariable s name = .ok value ↔ ∃ t, a.findVariable? s name = some (t, value) := by
  unfold lookupVariable
  split
  · rename_i t v h
    simp [h]
  · rename_i h
    simp [h]

theorem lookupVariable_congr (h : b.chain s = a.chain s) (name : String) :
    b.lookupVariable s name = a.lookupVariable s name := by
  unfold lookupVariable findVariable?
  rw [h]

theorem lookupFunction_congr (h : b.chain s = a.chain s) (name : String) (arity : Nat) :
    b.lookupFunction s name arity = a.lookupFunction s name arity := by
  unfold lookupFunction findFunction? arities
  rw [h]

theorem lookupFunction_eq_ok {name : String} {arity : Nat} {function : F} :
    a.lookupFunction s name arity = .ok function ↔
      a.findFunction? s name arity = some function := by
  unfold lookupFunction
  split
  · rename_i f h
    simp [h]
  · rename_i h
    simp [h]

theorem exists_findSome?_of_suffix {α β : Type} {xs ys : List α} {offer : α → Option β} {b : β}
    (h : ys <:+ xs) (hb : ys.findSome? offer = some b) : ∃ b', xs.findSome? offer = some b' := by
  obtain ⟨y, hy, hoffer⟩ := List.exists_of_findSome?_eq_some hb
  rw [← Option.isSome_iff_exists, List.findSome?_isSome_iff]
  exact ⟨y, h.subset hy, Option.isSome_of_eq_some hoffer⟩

/-- A variable that is found from a scope is found, under that name, from all scopes inside it. -/
theorem Path.exists_lookupVariable {l : List (ScopeId × Scope V F)} (h : a.Path s l)
    {q : ScopeId × Scope V F} (hq : q ∈ l) {name : String} {v : V}
    (hv : a.lookupVariable q.1 name = .ok v) : ∃ v', a.lookupVariable s name = .ok v' := by
  obtain ⟨up, hup, hsuffix⟩ := h.of_mem q hq
  obtain ⟨t, hfind⟩ := lookupVariable_eq_ok.1 hv
  rw [hup.findVariable?] at hfind
  obtain ⟨⟨t', v'⟩, hfound⟩ := exists_findSome?_of_suffix hsuffix hfind
  exact ⟨v', lookupVariable_eq_ok.2 ⟨t', (h.findVariable? name).trans hfound⟩⟩

theorem Path.exists_lookupFunction {l : List (ScopeId × Scope V F)} (h : a.Path s l)
    {q : ScopeId × Scope V F} (hq : q ∈ l) {name : String} {n : Nat} {f : F}
    (hf : a.lookupFunction q.1 name n = .ok f) : ∃ f', a.lookupFunction s name n = .ok f' := by
  obtain ⟨up, hup, hsuffix⟩ := h.of_mem q hq
  rw [lookupFunction_eq_ok, hup.findFunction?] at hf
  obtain ⟨f', hfound⟩ := exists_findSome?_of_suffix hsuffix hf
  exact ⟨f', lookupFunction_eq_ok.2 ((h.findFunction? name n).trans hfound)⟩

/-- The first scope that binds a variable is the one that a lookup finds it in. -/
theorem holder_eq (a : Arena V F) (name : String) : ∀ (n : Nat) (s : ScopeId), a.holder name n s =
    match (a.climb n s).scopes.findSome? fun (t, scope) => (scope.vars.get? name).map (t, ·) with
    | some (t, _) => .ok t
    | none => .error (a.climb n s).ending
  | 0, _ => rfl
  | n + 1, s => by
    cases live : a.get? s with
    | none => simp only [holder, climb, live, List.findSome?_nil]
    | some scope =>
      cases hv : scope.vars.get? name with
      | some v =>
        cases hp : scope.parent <;>
          simp only [holder, climb, live, hp, hv, Option.isSome_some, if_true, List.findSome?_cons,
            Option.map_some]
      | none =>
        cases hp : scope.parent with
        | none => simp [holder, climb, live, hp, hv]
        | some p => simp [holder, climb, live, hp, hv, holder_eq a name n p]

/-- The slot of a variable is what a lookup finds; if there is none, the chain has to end at the
root. -/
theorem slot_eq (a : Arena V F) (s : ScopeId) (name : String) : a.slot s name =
    match a.findVariable? s name with
    | some found => .ok found
    | none =>
      match (a.chain s).ending with
      | .stale t => .error (notLive t)
      | ending => .error (notFound s ending (.unknownVariable name)) := by
  have hholder : a.holder name (a.size + 1) s =
      match a.findVariable? s name with
      | some (t, _) => .ok t
      | none => .error (a.chain s).ending :=
    holder_eq a name _ s
  rw [slot, hholder]
  cases hfind : a.findVariable? s name with
  | none => cases (a.chain s).ending <;> rfl
  | some found =>
    obtain ⟨scope, live, hv⟩ := get?_of_findVariable? hfind
    simp only [live, hv]

theorem setVariable_eq (a : Arena V F) (s : ScopeId) (name : String) (value : V) :
    a.setVariable s name value =
      match a.findVariable? s name with
      | some (t, old) => .ok (old, a.bindVariable t name value)
      | none =>
        match (a.chain s).ending with
        | .stale t => .error (notLive t)
        | ending => .error (notFound s ending (.unknownVariable name)) := by
  rw [setVariable, slot_eq]
  cases a.findVariable? s name with
  | none => cases (a.chain s).ending <;> rfl
  | some found => rfl

theorem setVariable_eq_ok {name : String} {old value : V} :
    a.setVariable s name value = .ok (old, b) ↔
      ∃ t, a.findVariable? s name = some (t, old) ∧ b = a.bindVariable t name value := by
  rw [setVariable_eq]
  split
  · rename_i t v h
    simp only [h, Except.ok.injEq, Prod.mk.injEq, Option.some.injEq]
    constructor
    · rintro ⟨rfl, rfl⟩
      exact ⟨t, ⟨rfl, rfl⟩, rfl⟩
    · rintro ⟨_, ⟨rfl, rfl⟩, rfl⟩
      exact ⟨rfl, rfl⟩
  · rename_i h
    split <;> simp [h]

theorem defineVariable_eq_ok {name : String} {value : V} :
    a.defineVariable s name value = .ok b ↔
      (∃ scope, a.get? s = some scope ∧ scope.vars.get? name = none) ∧
        b = a.bindVariable s name value := by
  unfold defineVariable
  split
  · rename_i h
    simp [h]
  · rename_i scope h
    split_ifs with hs
    · simp [h, Option.isSome_iff_ne_none.1 hs]
    · simp only [Option.not_isSome_iff_eq_none] at hs
      simp [h, hs, eq_comm]

theorem defineFunction_eq_ok {name : String} {arity : Nat} {function : F} :
    a.defineFunction s name arity function = .ok b ↔
      (∃ scope, a.get? s = some scope ∧ scope.funs.get? (name, arity) = none) ∧
        b = a.bindFunction s name arity function := by
  unfold defineFunction
  split
  · rename_i h
    simp [h]
  · rename_i scope h
    split_ifs with hs
    · simp [h, Option.isSome_iff_ne_none.1 hs]
    · simp only [Option.not_isSome_iff_eq_none] at hs
      simp [h, hs, eq_comm]

end Arena

end TypedImp
