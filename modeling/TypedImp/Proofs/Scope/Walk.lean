import Mathlib.Data.List.Perm.Subperm
import TypedImp.Proofs.Scope.History

/-!
# Walks up a chain

A lookup follows parent links until a scope binds the name or there is no further scope, however
many links that takes. It is a walk (`Arena.Walk`), and where the links run in a circle a walk need
not end. One that ends has met no scope twice (`Walk.nodup`), so the budget of a chain suffices for
it, and lookups give what their walks end with (`Reads.eq`, `Writes.eq`, `Resolves.eq`). Main
statements: where scopes are entered inside live ones only, all walks end (`lookups_end`); a scope
that is entered inside one that was left may become its own parent, and then a walk for a name that
it does not bind goes on for ever (`lookups_endless`).
-/

namespace TypedImp

/-- What is offered first on a chain, or why the chain goes no further. -/
def Chain.first {V F β : Type} (c : Chain V F) (offer : Scope V F → Option β) :
    Except ChainEnd (ScopeId × β) :=
  match c.scopes.findSome? fun q => (offer q.2).map (q.1, ·) with
  | some found => .ok found
  | none => .error c.ending

theorem Chain.toOption_first {V F β : Type} (c : Chain V F) (offer : Scope V F → Option β) :
    (c.first offer).toOption = c.scopes.findSome? fun q => (offer q.2).map (q.1, ·) := by
  unfold first
  cases c.scopes.findSome? fun q => (offer q.2).map (q.1, ·) <;> rfl

namespace Arena

variable {V F β : Type} {a : Arena V F} {s t : ScopeId}

/-! ## Walks -/

/-- Goes up from a scope, through scopes that do not offer what is looked for, to the first that
does or to where the links end. -/
inductive Walk (a : Arena V F) (offer : Scope V F → Option β) :
    ScopeId → List (ScopeId × Scope V F) → Except ChainEnd (ScopeId × β) → Prop
  | stale {s : ScopeId} (gone : a.get? s = none) : Walk a offer s [] (.error (.stale s))
  | found {s : ScopeId} {scope : Scope V F} {b : β} (live : a.get? s = some scope)
      (here : offer scope = some b) : Walk a offer s [(s, scope)] (.ok (s, b))
  | root {s : ScopeId} {scope : Scope V F} (live : a.get? s = some scope)
      (missing : offer scope = none) (top : scope.parent = none) :
      Walk a offer s [(s, scope)] (.error .root)
  | up {s p : ScopeId} {scope : Scope V F} {passed : List (ScopeId × Scope V F)}
      {result : Except ChainEnd (ScopeId × β)} (live : a.get? s = some scope)
      (missing : offer scope = none) (parent : scope.parent = some p)
      (rest : Walk a offer p passed result) : Walk a offer s ((s, scope) :: passed) result

namespace Walk

variable {offer : Scope V F → Option β} {l l' : List (ScopeId × Scope V F)}
  {r r' : Except ChainEnd (ScopeId × β)}

theorem unique (h : a.Walk offer s l r) : ∀ {l' : List (ScopeId × Scope V F)}
    {r' : Except ChainEnd (ScopeId × β)}, a.Walk offer s l' r' → l' = l ∧ r' = r := by
  induction h with
  | stale gone =>
    intro l' r' h'
    cases h' <;> simp_all
  | found live here =>
    intro l' r' h'
    cases h' <;> simp_all
  | root live missing top =>
    intro l' r' h'
    cases h' <;> simp_all
  | up live missing parent _ ih =>
    intro l' r' h'
    cases h' with
    | stale gone' => simp_all
    | found live' here' => simp_all
    | root live' _ top' => simp_all
    | up live' _ parent' rest' =>
      cases live.symm.trans live'
      cases parent.symm.trans parent'
      obtain ⟨rfl, rfl⟩ := ih rest'
      exact ⟨rfl, rfl⟩

theorem get?_of_mem (h : a.Walk offer s l r) : ∀ q ∈ l, a.get? q.1 = some q.2 := by
  induction h with
  | stale _ => simp
  | found live _ => simpa using live
  | root live _ _ => simpa using live
  | up live _ _ _ ih => exact List.forall_mem_cons.2 ⟨live, ih⟩

/-- From a scope that it passes, the walk is the rest of the whole one. -/
theorem of_mem (h : a.Walk offer s l r) :
    ∀ q ∈ l, ∃ rest, a.Walk offer q.1 rest r ∧ rest <:+ l := by
  induction h with
  | stale _ => simp
  | found live here =>
    simp only [List.mem_singleton, forall_eq]
    exact ⟨_, .found live here, List.suffix_refl _⟩
  | root live missing top =>
    simp only [List.mem_singleton, forall_eq]
    exact ⟨_, .root live missing top, List.suffix_refl _⟩
  | up live missing parent rest ih =>
    rw [List.forall_mem_cons]
    refine ⟨⟨_, .up live missing parent rest, List.suffix_refl _⟩, fun q hq => ?_⟩
    obtain ⟨rest', hrest', hsuffix⟩ := ih q hq
    exact ⟨rest', hrest', hsuffix.trans (List.suffix_cons _ _)⟩

/-- A walk that ends does not come back to a scope: it would go round for ever. -/
theorem nodup (h : a.Walk offer s l r) : (l.map Prod.fst).Nodup := by
  induction h with
  | stale _ => simp
  | found _ _ => simp
  | root _ _ _ => simp
  | @up s p scope passed r live missing parent rest ih =>
    rw [List.map_cons, List.nodup_cons]
    refine ⟨fun hmem => ?_, ih⟩
    obtain ⟨q, hq, hqs⟩ := List.mem_map.1 hmem
    -- back at `s`, the walk would be the whole one again, and yet a part of it
    obtain ⟨passed', hpassed', hsuffix⟩ := rest.of_mem q hq
    rw [hqs] at hpassed'
    obtain ⟨rfl, -⟩ := (Walk.up live missing parent rest).unique hpassed'
    have := hsuffix.length_le
    rw [List.length_cons] at this
    omega

/-- Where nothing is offered, nothing is found. -/
theorem exists_error (h : a.Walk (fun _ => (none : Option β)) s l r) : ∃ e, r = .error e := by
  induction h with
  | stale _ => exact ⟨_, rfl⟩
  | found _ here => cases here
  | root _ _ _ => exact ⟨_, rfl⟩
  | up _ _ _ _ ih => exact ih

theorem length_le (h : a.Walk offer s l r) : l.length ≤ a.size := by
  have hsubset : l.map Prod.fst ⊆ (List.range a.size).map ScopeId.mk := by
    intro s hs
    obtain ⟨q, hq, rfl⟩ := List.mem_map.1 hs
    exact List.mem_map.2 ⟨_, List.mem_range.2 (lt_size_of_get? (h.get?_of_mem q hq)), rfl⟩
  simpa using (List.subperm_of_subset h.nodup hsubset).length_le

/-- No walk from one of these scopes has an end if none of them offers what is looked for and each
has a parent among them. -/
theorem not_of_closed {P : ScopeId → Prop} (hP : ∀ s, P s → ∃ scope p, a.get? s = some scope ∧
    offer scope = none ∧ scope.parent = some p ∧ P p) (hs : P s) : ¬ a.Walk offer s l r := by
  intro h
  induction h with
  | stale gone =>
    obtain ⟨_, _, live, -⟩ := hP _ hs
    cases gone.symm.trans live
  | found live here =>
    obtain ⟨_, _, live', missing, -⟩ := hP _ hs
    cases live.symm.trans live'
    cases here.symm.trans missing
  | root live _ top =>
    obtain ⟨_, _, live', -, parent, -⟩ := hP _ hs
    cases live.symm.trans live'
    cases top.symm.trans parent
  | up live _ parent _ ih =>
    obtain ⟨_, _, live', -, parent', hp⟩ := hP _ hs
    cases live.symm.trans live'
    cases parent.symm.trans parent'
    exact ih hp

end Walk

/-! ## Walks along a chain -/

theorem first_cons (q : ScopeId × Scope V F) (l : List (ScopeId × Scope V F)) (e : ChainEnd)
    (offer : Scope V F → Option β) : (⟨q :: l, e⟩ : Chain V F).first offer =
      match offer q.2 with
      | some b => .ok (q.1, b)
      | none => (⟨l, e⟩ : Chain V F).first offer := by
  unfold Chain.first
  rw [List.findSome?_cons]
  cases offer q.2 <;> rfl

namespace Walk

variable {offer : Scope V F → Option β} {l : List (ScopeId × Scope V F)}
  {r : Except ChainEnd (ScopeId × β)}

theorem first_climb (h : a.Walk offer s l r) :
    ∀ {n : Nat}, l.length < n → (a.climb n s).first offer = r := by
  induction h with
  | stale gone =>
    rintro (_ | n) hn
    · omega
    · simp only [climb, gone]
      rfl
  | found live here =>
    rintro (_ | n) hn
    · omega
    · simp only [climb, live]
      split <;> rw [first_cons, here]
  | root live missing top =>
    rintro (_ | n) hn
    · omega
    · simp only [climb, live, top, first_cons, missing]
      rfl
  | up live missing parent _ ih =>
    rintro (_ | n) hn
    · omega
    · simp only [climb, live, parent, first_cons, missing]
      exact ih (Nat.lt_of_succ_lt_succ hn)

/-- The chain of a scope is long enough for every walk that ends. -/
theorem first_chain (h : a.Walk offer s l r) : (a.chain s).first offer = r :=
  h.first_climb (Nat.lt_succ_of_le h.length_le)

/-- A walk that nothing stops passes the whole chain. -/
theorem climb_eq {e : ChainEnd} (h : a.Walk offer s l (.error e)) :
    ∀ {n : Nat}, l.length < n → a.climb n s = ⟨l, e⟩ := by
  generalize hr : (.error e : Except ChainEnd (ScopeId × β)) = r at h
  induction h with
  | stale gone =>
    cases hr
    rintro (_ | n) hn
    · omega
    · simp only [climb, gone]
  | found live here => cases hr
  | root live missing top =>
    cases hr
    rintro (_ | n) hn
    · omega
    · simp only [climb, live, top]
  | up live missing parent _ ih =>
    rintro (_ | n) hn
    · omega
    · simp only [climb, live, parent, ih hr (Nat.lt_of_succ_lt_succ hn)]

theorem chain_eq {e : ChainEnd} (h : a.Walk offer s l (.error e)) : a.chain s = ⟨l, e⟩ :=
  h.climb_eq (Nat.lt_succ_of_le h.length_le)

theorem ne_cut {e : ChainEnd} (h : a.Walk offer s l (.error e)) : e ≠ .cut := by
  generalize hr : (.error e : Except ChainEnd (ScopeId × β)) = r at h
  induction h with
  | stale _ =>
    cases hr
    exact nofun
  | found _ _ => cases hr
  | root _ _ _ =>
    cases hr
    exact nofun
  | up _ _ _ _ ih => exact ih hr

end Walk

/-! ## Lookups as walks -/

/-- What the walk of a variable's lookup comes to. -/
inductive Reads (a : Arena V F) (s : ScopeId) (name : String) : Except Error V → Prop
  | bound {l : List (ScopeId × Scope V F)} {t : ScopeId} {v : V}
      (walk : a.Walk (·.vars.get? name) s l (.ok (t, v))) : Reads a s name (.ok v)
  | unbound {l : List (ScopeId × Scope V F)} {e : ChainEnd}
      (walk : a.Walk (·.vars.get? name) s l (.error e)) :
      Reads a s name (.error (.unknownVariable name))

/-- What the walk of an assignment comes to. It does not go past a scope that is not live. -/
inductive Writes (a : Arena V F) (s : ScopeId) (name : String) (value : V) :
    Except Error (V × Arena V F) → Prop
  | bound {l : List (ScopeId × Scope V F)} {t : ScopeId} {old : V}
      (walk : a.Walk (·.vars.get? name) s l (.ok (t, old))) :
      Writes a s name value (.ok (old, a.bindVariable t name value))
  | unbound {l : List (ScopeId × Scope V F)} (walk : a.Walk (·.vars.get? name) s l (.error .root)) :
      Writes a s name value (.error (.unknownVariable name))
  | stale {l : List (ScopeId × Scope V F)} {t : ScopeId}
      (walk : a.Walk (·.vars.get? name) s l (.error (.stale t))) :
      Writes a s name value (.error (notLive t))

/-- What the walks of a function's lookup come to. If the first one finds nothing, a second one
goes past all scopes and collects the arities that the name has in them. -/
inductive Resolves (a : Arena V F) (s : ScopeId) (name : String) (arity : Nat) :
    Except Error F → Prop
  | bound {l : List (ScopeId × Scope V F)} {t : ScopeId} {f : F}
      (walk : a.Walk (·.funs.get? (name, arity)) s l (.ok (t, f))) : Resolves a s name arity (.ok f)
  | unbound {l l' : List (ScopeId × Scope V F)} {e e' : ChainEnd}
      (walk : a.Walk (·.funs.get? (name, arity)) s l (.error e))
      (again : a.Walk (fun _ => (none : Option Unit)) s l' (.error e'))
      (nowhere : increasing (l'.flatMap fun q => q.2.arities name) = []) :
      Resolves a s name arity (.error (.unknownFunction name arity))
  | mismatch {l l' : List (ScopeId × Scope V F)} {e e' : ChainEnd} {n : Nat} {ns : List Nat}
      (walk : a.Walk (·.funs.get? (name, arity)) s l (.error e))
      (again : a.Walk (fun _ => (none : Option Unit)) s l' (.error e'))
      (available : increasing (l'.flatMap fun q => q.2.arities name) = n :: ns) :
      Resolves a s name arity (.error (.arityMismatch name (n :: ns) arity))

theorem notFound_eq {e : ChainEnd} (h : e ≠ .cut) (s : ScopeId) (error : Error) :
    notFound s e error = error := by
  cases e with
  | cut => exact absurd rfl h
  | root | stale _ => rfl

variable {name : String} {value : V} {arity : Nat}

theorem findVariable?_of_first {r : Except ChainEnd (ScopeId × V)}
    (h : (a.chain s).first (·.vars.get? name) = r) : a.findVariable? s name = r.toOption := by
  rw [← h, Chain.toOption_first]
  rfl

theorem findFunction?_of_first {r : Except ChainEnd (ScopeId × F)}
    (h : (a.chain s).first (·.funs.get? (name, arity)) = r) :
    a.findFunction? s name arity = r.toOption.map Prod.snd := by
  rw [← h, Chain.toOption_first, List.map_findSome?]
  unfold findFunction?
  congr 1
  funext q
  exact (Option.map_map ..).trans (Option.map_id' ..) |>.symm

theorem Reads.eq {o : Except Error V} (h : a.Reads s name o) : a.lookupVariable s name = o := by
  unfold lookupVariable
  cases h with
  | bound walk => rw [findVariable?_of_first walk.first_chain, Except.toOption]
  | unbound walk =>
    rw [findVariable?_of_first walk.first_chain, Except.toOption, walk.chain_eq]
    exact congrArg Except.error (notFound_eq walk.ne_cut s _)

theorem Writes.eq {o : Except Error (V × Arena V F)} (h : a.Writes s name value o) :
    a.setVariable s name value = o := by
  rw [setVariable_eq]
  cases h with
  | bound walk => rw [findVariable?_of_first walk.first_chain, Except.toOption]
  | unbound walk =>
    rw [findVariable?_of_first walk.first_chain, Except.toOption, walk.chain_eq]
    rfl
  | stale walk =>
    rw [findVariable?_of_first walk.first_chain, Except.toOption, walk.chain_eq]

theorem Resolves.eq {o : Except Error F} (h : a.Resolves s name arity o) :
    a.lookupFunction s name arity = o := by
  unfold lookupFunction
  cases h with
  | bound walk => rw [findFunction?_of_first walk.first_chain]; rfl
  | unbound walk again nowhere =>
    rw [findFunction?_of_first walk.first_chain, arities, again.chain_eq, nowhere]
    exact congrArg Except.error (notFound_eq again.ne_cut s _)
  | mismatch walk again available =>
    rw [findFunction?_of_first walk.first_chain, arities, again.chain_eq, available]
    exact congrArg Except.error (notFound_eq again.ne_cut s _)

/-! ## Where walks end -/

namespace Ordered

theorem exists_walk (h : a.Ordered) (offer : Scope V F → Option β) (s : ScopeId) :
    ∃ l r, a.Walk offer s l r := by
  obtain ⟨i⟩ := s
  induction i using Nat.strongRecOn with
  | _ i ih =>
    cases live : a.get? ⟨i⟩ with
    | none => exact ⟨_, _, .stale live⟩
    | some scope =>
      cases here : offer scope with
      | some b => exact ⟨_, _, .found live here⟩
      | none =>
        cases hp : scope.parent with
        | none => exact ⟨_, _, .root live here hp⟩
        | some p =>
          have hparent : a.parent? ⟨i⟩ = some p := by rw [parent?, live, Option.bind_some, hp]
          obtain ⟨l, r, hrest⟩ := ih p.index (h _ _ hparent)
          exact ⟨_, _, .up live here hp hrest⟩

theorem exists_reads (h : a.Ordered) (s : ScopeId) (name : String) : ∃ o, a.Reads s name o := by
  obtain ⟨l, r, walk⟩ := h.exists_walk (·.vars.get? name) s
  cases r with
  | ok found => exact ⟨_, .bound walk⟩
  | error e => exact ⟨_, .unbound walk⟩

theorem exists_writes (h : a.Ordered) (s : ScopeId) (name : String) (value : V) :
    ∃ o, a.Writes s name value o := by
  obtain ⟨l, r, walk⟩ := h.exists_walk (·.vars.get? name) s
  cases r with
  | ok found => exact ⟨_, .bound walk⟩
  | error e =>
    cases e with
    | root => exact ⟨_, .unbound walk⟩
    | stale t => exact ⟨_, .stale walk⟩
    | cut => exact absurd rfl walk.ne_cut

theorem exists_resolves (h : a.Ordered) (s : ScopeId) (name : String) (arity : Nat) :
    ∃ o, a.Resolves s name arity o := by
  obtain ⟨l, r, walk⟩ := h.exists_walk (·.funs.get? (name, arity)) s
  cases r with
  | ok found => exact ⟨_, .bound walk⟩
  | error e =>
    obtain ⟨l', r', again⟩ := h.exists_walk (fun _ => (none : Option Unit)) s
    obtain ⟨e', rfl⟩ := again.exists_error
    cases hn : increasing (l'.flatMap fun q => q.2.arities name) with
    | nil => exact ⟨_, .unbound walk again hn⟩
    | cons n ns => exact ⟨_, .mismatch walk again hn⟩

end Ordered

/-- Whatever is done to an arena, with ids that may be stale, the walks of all lookups end as long
as scopes are entered inside live ones only, and what they end with is what the lookups give. -/
theorem lookups_end (acts : List (Act V F)) (h : (empty : Arena V F).Nested acts) (s : ScopeId)
    (name : String) (arity : Nat) (value : V) :
    let a := (empty : Arena V F).afterAll acts
    a.Reads s name (a.lookupVariable s name) ∧
      a.Writes s name value (a.setVariable s name value) ∧
      a.Resolves s name arity (a.lookupFunction s name arity) := by
  intro a
  have ordered : a.Ordered := Ordered.empty.afterAll acts h
  obtain ⟨_, hreads⟩ := ordered.exists_reads s name
  obtain ⟨_, hwrites⟩ := ordered.exists_writes s name value
  obtain ⟨_, hresolves⟩ := ordered.exists_resolves s name arity
  exact ⟨hreads.eq ▸ hreads, hwrites.eq ▸ hwrites, hresolves.eq ▸ hresolves⟩

theorem lookups_end_strayed :
    let a := (empty : Arena Nat Nat).afterAll strayed
    (empty : Arena Nat Nat).Nested strayed ∧ a.Reads ⟨1⟩ "x" (.ok 5) ∧
      a.Writes ⟨2⟩ "x" 6 (.error (notLive ⟨2⟩)) ∧
      a.Resolves ⟨1⟩ "f" 0 (.error (.arityMismatch "f" [1] 0)) :=
  have nested : (empty : Arena Nat Nat).Nested strayed := by decide
  ⟨nested, (lookups_end strayed nested ⟨1⟩ "x" 0 0).1, (lookups_end strayed nested ⟨2⟩ "x" 0 6).2.1,
    (lookups_end strayed nested ⟨1⟩ "f" 0 0).2.2⟩

/-! ## Where they do not -/

/-- Enters a scope inside `p`, and then each further one inside the one before it. -/
def nest (a : Arena V F) (p : ScopeId) : Nat → Arena V F
  | 0 => a.enter (some p)
  | n + 1 => (a.nest p n).enter (some ⟨a.size + n⟩)

theorem size_nest (a : Arena V F) (p : ScopeId) : ∀ n : Nat, (a.nest p n).size = a.size + n + 1
  | 0 => size_enter ..
  | n + 1 => by rw [nest, size_enter, size_nest a p n]; omega

/-- All scopes are empty. The first is inside `p`, the others inside the first and each other. -/
theorem get?_nest (a : Arena V F) (p : ScopeId) : ∀ {n i : Nat}, i ≤ n →
    ∃ q, (a.nest p n).get? ⟨a.size + i⟩ = some (.empty (some q)) ∧
      (q = p ∨ ∃ j < i, q = ⟨a.size + j⟩)
  | 0, i, hi => by
    obtain rfl := Nat.le_zero.1 hi
    exact ⟨p, by rw [nest, get?_enter]; exact if_pos rfl, .inl rfl⟩
  | n + 1, i, hi => by
    rw [nest, get?_enter, next, size_nest]
    rcases Nat.lt_or_eq_of_le hi with hlt | rfl
    · rw [if_neg (by simp only [ScopeId.mk.injEq]; omega)]
      exact get?_nest a p (Nat.le_of_lt_succ hlt)
    · exact ⟨_, if_pos rfl, .inr ⟨n, Nat.lt_succ_self n, rfl⟩⟩

/-- If a scope is entered inside one that is not live, scopes that are entered inside live ones may
close a circle: the missing one is given out again as their last. No walk through them ends. -/
theorem not_walk_nest (a : Arena V F) {offer : Scope V F → Option β}
    (hoffer : ∀ parent, offer (.empty parent) = none) {n i : Nat} (hi : i ≤ n)
    {l : List (ScopeId × Scope V F)} {r : Except ChainEnd (ScopeId × β)} :
    ¬ (a.nest ⟨a.size + n⟩ n).Walk offer ⟨a.size + i⟩ l r := by
  refine Walk.not_of_closed (P := fun s => ∃ i ≤ n, s = ⟨a.size + i⟩) ?_ ⟨i, hi, rfl⟩
  rintro _ ⟨i, hi, rfl⟩
  obtain ⟨q, live, hq⟩ := get?_nest a ⟨a.size + n⟩ hi
  refine ⟨_, q, live, hoffer _, rfl, ?_⟩
  rcases hq with rfl | ⟨j, hj, rfl⟩
  · exact ⟨n, Nat.le_refl n, rfl⟩
  · exact ⟨j, by omega, rfl⟩

/-- The outermost scope is left, and its id is given out again for a scope inside itself. -/
def reentered : List (Act Nat Nat) :=
  [.enter none, .exit ⟨0⟩, .enter (some ⟨0⟩)]

/-- All ids were given out before they are used, and yet no lookup ends. -/
theorem lookups_endless :
    let a := (empty : Arena Nat Nat).afterAll reentered
    (empty : Arena Nat Nat).Known [] reentered ∧ ⟨0⟩ ∈ (empty : Arena Nat Nat).issued reentered ∧
      (∀ o, ¬ a.Reads ⟨0⟩ "x" o) ∧ (∀ o, ¬ a.Writes ⟨0⟩ "x" 1 o) ∧
      ∀ o, ¬ a.Resolves ⟨0⟩ "f" 0 o := by
  have endless {β : Type} {offer : Scope Nat Nat → Option β}
      (hoffer : ∀ parent, offer (.empty parent) = none) {l r} :
      ¬ ((empty : Arena Nat Nat).afterAll reentered).Walk offer ⟨0⟩ l r :=
    not_walk_nest empty hoffer (Nat.le_refl 0)
  refine ⟨by decide, by decide, ?_, ?_, ?_⟩
  · rintro _ (walk | walk) <;> exact endless (fun _ => rfl) walk
  · rintro _ (walk | walk | walk) <;> exact endless (fun _ => rfl) walk
  · rintro _ (walk | ⟨walk, -, -⟩ | ⟨walk, -, -⟩) <;> exact endless (fun _ => rfl) walk

end Arena

end TypedImp
