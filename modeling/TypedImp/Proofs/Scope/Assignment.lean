import TypedImp.Proofs.Scope.Walk

/-!
# Assignments

An assignment looks for its variable in a loop of its own, and looks again in the scope where the
loop has stopped. The slot that it writes is the one that a lookup from the same scope reads. After
that, the lookups that come to this slot give the new value, from whichever scope they start
(`findVariable?_bindVariable`), and all others give what they gave before. Main statement:
`assignments_agree`.
-/

namespace TypedImp

namespace Arena

variable {V F : Type} {a b : Arena V F} {s t u : ScopeId} {name : String} {old : V}

/-- Scope `u` is the first, from `s` on, that binds a variable of this name. -/
def Nearest (a : Arena V F) (name : String) (s u : ScopeId) : Prop :=
  ∃ l v, a.Walk (·.vars.get? name) s l (.ok (u, v))

theorem nearest_iff (h : a.Ordered) :
    a.Nearest name s u ↔ ∃ v, a.findVariable? s name = some (u, v) := by
  constructor
  · rintro ⟨l, v, walk⟩
    exact ⟨v, findVariable?_of_first walk.first_chain⟩
  · rintro ⟨v, hfind⟩
    obtain ⟨l, r, walk⟩ := h.exists_walk (·.vars.get? name) s
    rw [findVariable?_of_first walk.first_chain] at hfind
    cases r with
    | ok found =>
      cases hfind
      exact ⟨l, v, walk⟩
    | error e => cases hfind

theorem ownVariable?_of_findVariable? (h : a.findVariable? s name = some (u, old)) :
    a.ownVariable? u name = some old := by
  obtain ⟨scope, live, hv⟩ := get?_of_findVariable? h
  rw [ownVariable?, live, Option.bind_some, hv]

theorem lt_size_of_ownVariable? (h : a.ownVariable? u name = some old) : u.index < a.size := by
  obtain ⟨scope, live, -⟩ := Option.bind_eq_some_iff.1 h
  exact lt_size_of_get? live

/-! ## Lookups after a write -/

theorem chain_bindVariable (a : Arena V F) (u : ScopeId) (name : String) (value : V) (t : ScopeId) :
    (a.bindVariable u name value).chain t =
      ⟨(a.chain t).scopes.map fun q => (q.1, if q.1 = u then q.2.bindVariable name value else q.2),
        (a.chain t).ending⟩ :=
  chain_modify a u (f := (·.bindVariable name value)) (fun _ => rfl) t

/-- A new value in a slot is found wherever the slot was found, and nothing else is found in another
place. -/
theorem findVariable?_bindVariable (h : a.ownVariable? u name = some old) (value : V) (t : ScopeId)
    (other : String) : (a.bindVariable u name value).findVariable? t other =
      (a.findVariable? t other).map fun p =>
        (p.1, if p.1 = u ∧ other = name then value else p.2) := by
  -- scope by scope along the chain: what is offered now is what was offered, with the new value
  have hoffer (q : ScopeId × Scope V F) (hq : q ∈ (a.chain t).scopes) :
      (if q.1 = u then q.2.bindVariable name value else q.2).vars.get? other =
        (q.2.vars.get? other).map fun v => if q.1 = u ∧ other = name then value else v := by
    by_cases hslot : q.1 = u ∧ other = name
    · have hold : q.2.vars.get? name = some old := by
        rwa [ownVariable?, ← hslot.1, get?_of_mem_climb hq, Option.bind_some] at h
      simp [hslot, Scope.bindVariable, hold]
    · simp only [hslot, if_false, Option.map_id']
      split_ifs with hu
      · rw [Scope.bindVariable, Table.get?_insert, if_neg fun hname => hslot ⟨hu, hname⟩]
      · rfl
  unfold findVariable?
  rw [chain_bindVariable, List.findSome?_map, List.map_findSome?]
  refine findSome?_congr_left fun q hq => ?_
  simp only [Function.comp_apply, hoffer q hq, Option.map_map]
  rfl

/-- `b` is `a` with a new value in the slot of a variable. -/
structure Written (a b : Arena V F) (u : ScopeId) (name : String) (value : V) : Prop where
  reached (t : ScopeId) (h : a.Nearest name t u) : b.lookupVariable t name = .ok value
  /-- From scopes below another binding of the name, and for other names, nothing has changed. -/
  elsewhere (t : ScopeId) (other : String) (h : ¬ (other = name ∧ a.Nearest name t u)) :
    b.lookupVariable t other = a.lookupVariable t other
  size : b.size = a.size
  parent (t : ScopeId) : b.parent? t = a.parent? t
  ownVariable (t : ScopeId) (other : String) : b.ownVariable? t other =
    if t = u ∧ other = name then some value else a.ownVariable? t other
  ownFunction (t : ScopeId) (other : String) (arity : Nat) :
    b.ownFunction? t other arity = a.ownFunction? t other arity

theorem Ordered.written (h : a.Ordered) (hold : a.ownVariable? u name = some old) (value : V) :
    a.Written (a.bindVariable u name value) u name value where
  reached t ht := by
    obtain ⟨v, hfind⟩ := (nearest_iff h).1 ht
    rw [lookupVariable_eq_ok]
    exact ⟨u, by simp [findVariable?_bindVariable hold, hfind]⟩
  elsewhere t other ht := by
    have hending : ((a.bindVariable u name value).chain t).ending = (a.chain t).ending := by
      rw [chain_bindVariable]
    rw [lookupVariable, lookupVariable, hending, findVariable?_bindVariable hold]
    cases hfind : a.findVariable? t other with
    | none => rfl
    | some found =>
      have hne : ¬ (found.1 = u ∧ other = name) := by
        rintro ⟨rfl, rfl⟩
        exact ht ⟨rfl, (nearest_iff h).2 ⟨_, hfind⟩⟩
      rw [Option.map_some, if_neg hne]
  size := size_modify ..
  parent := parent?_bindVariable a u name value
  ownVariable := ownVariable?_bindVariable (lt_size_of_ownVariable? hold) name value
  ownFunction := ownFunction?_bindVariable a u name value

/-! ## Assignments next to lookups -/

/-- What an assignment from a scope comes to, and what a lookup gives there. -/
inductive Assigns (a : Arena V F) (s : ScopeId) (name : String) : Prop
  | bound {u : ScopeId} {old : V} (nearest : a.Nearest name s u)
      (held : a.ownVariable? u name = some old) (read : a.lookupVariable s name = .ok old)
      (slot : a.slot s name = .ok (u, old))
      (write : ∀ value, ∃ b, a.setVariable s name value = .ok (old, b) ∧ a.Written b u name value)
  | unbound (nowhere : ∀ u, ¬ a.Nearest name s u)
      (read : a.lookupVariable s name = .error (.unknownVariable name))
      (slot : a.slot s name = .error (.unknownVariable name))
      (write : ∀ value, a.setVariable s name value = .error (.unknownVariable name))

/-- Where every parent lies before its children, an assignment from a live scope succeeds if and
only if a lookup does. It writes the slot that the lookup reads, and no other. -/
theorem assignments_agree (h : a.Ordered) (live : s.index < a.size) (name : String) :
    a.Assigns s name := by
  obtain ⟨l, hl⟩ := h.exists_path live
  cases hfind : a.findVariable? s name with
  | some found =>
    obtain ⟨u, old⟩ := found
    have hold := ownVariable?_of_findVariable? hfind
    refine .bound ((nearest_iff h).2 ⟨old, hfind⟩) hold
      (lookupVariable_eq_ok.2 ⟨u, hfind⟩) (by rw [slot_eq, hfind]) fun value => ?_
    exact ⟨_, setVariable_eq_ok.2 ⟨u, hfind, rfl⟩, h.written hold value⟩
  | none =>
    refine .unbound (fun u hu => ?_) ?_ ?_ fun value => ?_
    · obtain ⟨v, hv⟩ := (nearest_iff h).1 hu
      cases hfind.symm.trans hv
    · rw [lookupVariable, hfind, hl.chain]
      rfl
    · rw [slot_eq, hfind, hl.chain]
      rfl
    · rw [setVariable_eq, hfind, hl.chain]
      rfl

/-- Two scopes inside the same one, of which the first has a variable of its own. -/
def siblings : List (Act Nat Nat) :=
  [.enter none, .defineVariable ⟨0⟩ "x" 5, .enter (some ⟨0⟩), .defineVariable ⟨1⟩ "x" 6,
    .enter (some ⟨0⟩)]

theorem assignments_agree_siblings :
    let a := (empty : Arena Nat Nat).afterAll siblings
    a.Ordered ∧ 2 < a.size ∧ a.slot ⟨2⟩ "x" = .ok (⟨0⟩, 5) ∧ a.Assigns ⟨2⟩ "x" ∧
      a.slot ⟨2⟩ "y" = .error (.unknownVariable "y") ∧ a.Assigns ⟨2⟩ "y" := by
  intro a
  have ordered : a.Ordered := Ordered.empty.afterAll siblings (by decide)
  have live : 2 < a.size := by decide
  exact ⟨ordered, live, rfl, assignments_agree ordered live "x", rfl,
    assignments_agree ordered live "y"⟩

end Arena

end TypedImp
