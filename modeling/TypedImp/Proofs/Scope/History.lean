import TypedImp.Proofs.Outcome
import TypedImp.Proofs.Scope.Chain

/-!
# What is done to an arena

A host enters and leaves scopes and binds names in them, in any order and with ids that may be
stale (`Arena.Act`). As long as scopes are entered inside live ones only, every parent lies before
its children (`Ordered.afterAll`), and a path leads from every live scope up to a root
(`Ordered.exists_path`).
-/

namespace TypedImp

namespace Arena

variable {V F : Type} {a : Arena V F} {s p : ScopeId}

/-- What changes an arena. -/
inductive Act (V F : Type) where
  | enter (parent : Option ScopeId)
  | exit (s : ScopeId)
  | defineVariable (s : ScopeId) (name : String) (value : V)
  | defineFunction (s : ScopeId) (name : String) (arity : Nat) (function : F)
  | bindVariable (s : ScopeId) (name : String) (value : V)
  | bindFunction (s : ScopeId) (name : String) (arity : Nat) (function : F)
  | setVariable (s : ScopeId) (name : String) (value : V)

namespace Act

def perform (a : Arena V F) : Act V F → Except Error (Arena V F)
  | enter parent => .ok (a.enter parent)
  | exit s => .ok (a.exit s)
  | defineVariable s name value => a.defineVariable s name value
  | defineFunction s name arity function => a.defineFunction s name arity function
  | bindVariable s name value => .ok (a.bindVariable s name value)
  | bindFunction s name arity function => .ok (a.bindFunction s name arity function)
  | setVariable s name value => (a.setVariable s name value).map Prod.snd

/-- The ids that the act is given. -/
def ids : Act V F → List ScopeId
  | enter parent => parent.toList
  | exit s | defineVariable s _ _ | defineFunction s _ _ _ | bindVariable s _ _
  | bindFunction s _ _ _ | setVariable s _ _ => [s]

/-- The ids that the act gives out. -/
def gives (a : Arena V F) : Act V F → List ScopeId
  | enter _ => [a.next]
  | _ => []

/-- A scope that is entered has a live parent, or none. -/
def Nests (a : Arena V F) : Act V F → Prop
  | enter (some parent) => parent.index < a.size
  | _ => True

instance (a : Arena V F) : (act : Act V F) → Decidable (act.Nests a)
  | enter (some parent) => inferInstanceAs (Decidable (parent.index < a.size))
  | enter none | exit _ | defineVariable _ _ _ | defineFunction _ _ _ _ | bindVariable _ _ _
  | bindFunction _ _ _ _ | setVariable _ _ _ => .isTrue trivial

end Act

/-- An act that fails changes nothing. -/
def after (a : Arena V F) (act : Act V F) : Arena V F :=
  match act.perform a with
  | .ok b => b
  | .error _ => a

def afterAll (a : Arena V F) (acts : List (Act V F)) : Arena V F :=
  acts.foldl after a

/-- All ids that acts give out, one after the other. -/
def issued (a : Arena V F) : List (Act V F) → List ScopeId
  | [] => []
  | act :: acts => act.gives a ++ (a.after act).issued acts

/-- Every act nests where it is done. -/
def Nested (a : Arena V F) : List (Act V F) → Prop
  | [] => True
  | act :: acts => act.Nests a ∧ (a.after act).Nested acts

instance decidableNested : (a : Arena V F) → (acts : List (Act V F)) → Decidable (a.Nested acts)
  | _, [] => .isTrue trivial
  | a, act :: acts =>
    have := decidableNested (a.after act) acts
    inferInstanceAs (Decidable (act.Nests a ∧ (a.after act).Nested acts))

/-- Every act is given ids only that were given out before it, live or not. -/
def Known (a : Arena V F) (ids : List ScopeId) : List (Act V F) → Prop
  | [] => True
  | act :: acts => (∀ s ∈ act.ids, s ∈ ids) ∧ (a.after act).Known (act.gives a ++ ids) acts

instance decidableKnown : (a : Arena V F) → (ids : List ScopeId) → (acts : List (Act V F)) →
    Decidable (a.Known ids acts)
  | _, _, [] => .isTrue trivial
  | a, ids, act :: acts =>
    have := decidableKnown (a.after act) (act.gives a ++ ids) acts
    inferInstanceAs (Decidable ((∀ s ∈ act.ids, s ∈ ids) ∧ (a.after act).Known _ acts))

/-- Scopes that are entered and left in turn, the second one not at its own end, with ids of scopes
that were left. -/
def strayed : List (Act Nat Nat) :=
  [.enter none, .defineVariable ⟨0⟩ "x" 5, .enter (some ⟨0⟩), .enter (some ⟨1⟩), .exit ⟨1⟩,
    .setVariable ⟨2⟩ "x" 6, .enter (some ⟨0⟩), .defineFunction ⟨1⟩ "f" 1 7]

/-! ## Parents -/

/-- Apart from entering and leaving, no act changes a parent. -/
theorem parent?_after (a : Arena V F) (act : Act V F) :
    (∃ parent, act = .enter parent ∧ a.after act = a.enter parent) ∨
      (∃ s, a.after act = a.exit s) ∨ ∀ s, (a.after act).parent? s = a.parent? s := by
  unfold after
  cases ok : act.perform a with
  | error e => exact .inr (.inr fun _ => rfl)
  | ok b =>
    cases act with
    | enter parent =>
      cases ok
      exact .inl ⟨parent, rfl, rfl⟩
    | exit s =>
      cases ok
      exact .inr (.inl ⟨s, rfl⟩)
    | defineVariable s name value =>
      obtain ⟨-, rfl⟩ := defineVariable_eq_ok.1 ok
      exact .inr (.inr fun t => parent?_bindVariable a s name value t)
    | defineFunction s name arity function =>
      obtain ⟨-, rfl⟩ := defineFunction_eq_ok.1 ok
      exact .inr (.inr fun t => parent?_bindFunction a s name arity function t)
    | bindVariable s name value =>
      cases ok
      exact .inr (.inr fun t => parent?_bindVariable a s name value t)
    | bindFunction s name arity function =>
      cases ok
      exact .inr (.inr fun t => parent?_bindFunction a s name arity function t)
    | setVariable s name value =>
      obtain ⟨⟨old, c⟩, hset, rfl⟩ := map_eq_ok.1 ok
      obtain ⟨t, -, rfl⟩ := setVariable_eq_ok.1 hset
      exact .inr (.inr fun u => parent?_bindVariable a t name value u)

/-- Every parent lies before its children. -/
def Ordered (a : Arena V F) : Prop :=
  ∀ s p, a.parent? s = some p → p.index < s.index

namespace Ordered

theorem empty : (Arena.empty : Arena V F).Ordered := by
  intro s p h
  simp [parent?, get?, Arena.empty] at h

theorem enter (h : a.Ordered) {parent : Option ScopeId}
    (hp : ∀ p ∈ parent, p.index < a.size) : (a.enter parent).Ordered := by
  intro s p hs
  rw [parent?_enter] at hs
  split_ifs at hs with hn
  · rw [hn]
    exact hp p hs
  · exact h s p hs

theorem exit (h : a.Ordered) (t : ScopeId) : (a.exit t).Ordered := by
  intro s p hs
  rw [parent?_exit] at hs
  split_ifs at hs
  exact h s p hs

theorem after (h : a.Ordered) {act : Act V F} (hact : act.Nests a) : (a.after act).Ordered := by
  rcases parent?_after a act with ⟨parent, rfl, heq⟩ | ⟨s, heq⟩ | hsame
  · rw [heq]
    refine h.enter ?_
    rintro p rfl
    exact hact
  · rw [heq]
    exact h.exit s
  · intro s p hs
    exact h s p (hsame s ▸ hs)

theorem afterAll : ∀ (acts : List (Act V F)) {a : Arena V F}, a.Ordered → a.Nested acts →
    (a.afterAll acts).Ordered
  | [], _, h, _ => h
  | _ :: acts, _, h, hacts => afterAll acts (h.after hacts.1) hacts.2

/-- A parent is live as long as its children are. -/
theorem live_parent (h : a.Ordered) (hp : a.parent? s = some p) : p.index < a.size :=
  Nat.lt_trans (h s p hp) (lt_size_of_parent? hp)

theorem exists_path (h : a.Ordered) (hs : s.index < a.size) : ∃ l, a.Path s l := by
  obtain ⟨i⟩ := s
  induction i using Nat.strongRecOn with
  | _ i ih =>
    obtain ⟨scope, live⟩ := exists_get? hs
    cases hp : scope.parent with
    | none => exact ⟨_, .root live hp⟩
    | some p =>
      have hparent : a.parent? ⟨i⟩ = some p := by rw [parent?, live, Option.bind_some, hp]
      have before : p.index < i := h _ _ hparent
      obtain ⟨up, hup⟩ := ih p.index before (h.live_parent hparent)
      exact ⟨_, .child live hp before hup⟩

end Ordered

end Arena

end TypedImp
