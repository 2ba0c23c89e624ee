import TypedImp.Proofs.Types.Alignment
import TypedImp.Proofs.Typing.Expression

/-!
# Assignability and inheritance

Whether a type may stand in place of another is fixed by their numbers (`Assignable`), and this
orders all types. Members are inherited along parent links, which grow with what a host registers.
The two agree: the member scope of a type lies on the chain of every type that may stand in its
place (`Reachable.mem_path`), so that all its members are found there too. Main statement:
`assignable_substitutes`.
-/

namespace TypedImp

/-! ## The order of types -/

namespace Assignable

variable {t s u : TypeId}

theorem trans (h : Assignable t s) (h' : Assignable s u) : Assignable t u := by
  cases h with
  | same => exact h'
  | any => exact .any u
  | comparable hs =>
    -- an ordered type gives way to itself only
    cases h' with
    | same => exact .comparable hs
    | any => exact absurd hs (by decide)
    | comparable _ => exact absurd hs (by decide)

theorem antisymm (h : Assignable t s) (h' : Assignable s t) : t = s := by
  cases h with
  | same => rfl
  | any =>
    cases h' with
    | same => rfl
    | any => rfl
    | comparable hany => exact absurd hany (by decide)
  | comparable hs =>
    cases h' with
    | same => rfl
    | any => exact absurd hs (by decide)
    | comparable hc => exact absurd hc (by decide)

end Assignable

/-! ## The member scopes of types -/

namespace Registry

variable {r : Registry} {t s : TypeId}

/-- The parent of a built-in type's member scope stays what it is. -/
theorem Reachable.parent?_builtin (hr : r.Reachable) (ht : t ∈ Builtin.allTypes) :
    r.members.parent? ⟨t.number⟩ = Registry.builtin.members.parent? ⟨t.number⟩ := by
  induction hr with
  | builtin => rfl
  | registerType hr ok ih =>
    obtain ⟨info, -, rfl⟩ := registerType_eq_ok ok
    have live := hr.aligned.live (hr.issued_of_mem ht)
    exact (Arena.parent?_enter_of_lt live _).trans ih
  | defineField _ ok ih =>
    obtain ⟨info, -, rfl⟩ := defineField_eq_ok ok
    exact (Arena.parent?_bindVariable ..).trans ih
  | defineMethod _ ok ih =>
    obtain ⟨info, -, rfl⟩ := defineMethod_eq_ok ok
    exact (Arena.parent?_bindFunction ..).trans ih

/-- The members of a type lie on the chain of every type that may stand in its place. -/
theorem Reachable.mem_path (hr : r.Reachable) (h : Assignable t s)
    {l : List (ScopeId × Scope FieldMember MethodMember)} (hl : r.members.Path ⟨s.number⟩ l) :
    ∃ q ∈ l, q.1 = ⟨t.number⟩ := by
  cases h with
  | same =>
    obtain ⟨scope, up, rfl, -⟩ := hl.head
    exact ⟨_, .head _, rfl⟩
  | any => exact hr.aligned.any_mem hl
  | comparable hs =>
    have hbuiltin : ∀ s ∈ [TypeId.integer, .decimal, .character, .string],
        s ∈ Builtin.allTypes ∧ Registry.builtin.members.parent? ⟨s.number⟩ = some ⟨3⟩ := by
      decide +kernel
    obtain ⟨hmem, hparent⟩ := hbuiltin s hs
    rw [← hr.parent?_builtin hmem] at hparent
    cases hl with
    | root live top =>
      rw [Arena.parent?, live, Option.bind_some, top] at hparent
      cases hparent
    | child live parent _ rest =>
      rw [Arena.parent?, live, Option.bind_some, parent] at hparent
      cases hparent
      obtain ⟨scope, up, rfl, -⟩ := rest.head
      exact ⟨_, .tail _ (.head _), rfl⟩

/-- The chains of two types of which one may stand in place of the other. -/
theorem Reachable.exists_chains (hr : r.Reachable) (h : Assignable t s) {info : TypeInfo}
    (ht : r.info t = .ok info) (hs : r.Issued s) :
    ∃ info' l, r.info s = .ok info' ∧ r.members.Path info'.members l ∧
      ∃ q ∈ l, q.1 = info.members := by
  obtain ⟨info', hs'⟩ := issued_iff.1 hs
  obtain ⟨l, hl⟩ := hr.rooted s info' hs'
  refine ⟨info', l, hs', hl, ?_⟩
  rw [hr.aligned.members hs'] at hl
  rw [hr.aligned.members ht]
  exact hr.mem_path h hl

/-- Assignability orders all types, issued or not, and each type has the members of those that it
may stand in place of. -/
structure Substitutes (r : Registry) : Prop where
  refl (t : TypeId) : r.requireAssignable t t = .ok ()
  trans (t s u : TypeId) (h : r.requireAssignable t s = .ok ())
    (h' : r.requireAssignable s u = .ok ()) : r.requireAssignable t u = .ok ()
  antisymm (t s : TypeId) (h : r.requireAssignable t s = .ok ())
    (h' : r.requireAssignable s t = .ok ()) : t = s
  any (s : TypeId) : r.requireAssignable .any s = .ok ()
  field (t s : TypeId) (ht : r.Issued t) (hs : r.Issued s) (h : r.requireAssignable t s = .ok ())
    (name : String) : (∃ f, r.field t name = .ok f) → ∃ f, r.field s name = .ok f
  method (t s : TypeId) (ht : r.Issued t) (hs : r.Issued s) (h : r.requireAssignable t s = .ok ())
    (name : String) (n : Nat) : (∃ m, r.method t name n = .ok m) → ∃ m, r.method s name n = .ok m

/-- Whatever a host registers, assignable types can be substituted for each other. -/
theorem assignable_substitutes (hr : r.Reachable) : r.Substitutes where
  refl t := Typing.requireAssignable_eq_ok.2 (.same t)
  trans t s u h h' := by
    rw [Typing.requireAssignable_eq_ok] at h h' ⊢
    exact h.trans h'
  antisymm t s h h' := by
    rw [Typing.requireAssignable_eq_ok] at h h'
    exact h.antisymm h'
  any s := Typing.requireAssignable_eq_ok.2 (.any s)
  field t s _ hs h name := by
    rw [Typing.requireAssignable_eq_ok] at h
    rintro ⟨f, hf⟩
    obtain ⟨info, ht, hlookup⟩ := field_eq_ok.1 hf
    obtain ⟨info', l, hs', hl, q, hq, hqt⟩ := hr.exists_chains h ht hs
    rw [← hqt] at hlookup
    obtain ⟨f', hf'⟩ := hl.exists_lookupVariable hq hlookup
    exact ⟨f', field_eq_ok.2 ⟨info', hs', hf'⟩⟩
  method t s _ hs h name n := by
    rw [Typing.requireAssignable_eq_ok] at h
    rintro ⟨m, hm⟩
    obtain ⟨info, ht, hlookup⟩ := method_eq_ok.1 hm
    obtain ⟨info', l, hs', hl, q, hq, hqt⟩ := hr.exists_chains h ht hs
    rw [← hqt] at hlookup
    obtain ⟨m', hm'⟩ := hl.exists_lookupFunction hq hlookup
    exact ⟨m', method_eq_ok.2 ⟨info', hs', hm'⟩⟩

/-- A method that is supplied for all ordered types. -/
def rank : MethodMember :=
  ⟨⟨"rank", "rank", [.comparable], .integer⟩, none⟩

def ranked : Registry :=
  { linkedPoints with members := linkedPoints.members.bindFunction ⟨3⟩ "rank" 1 rank }

theorem defineMethod_ranked : linkedPoints.defineMethod .comparable rank = .ok ranked := by
  rfl

theorem assignable_substitutes_ranked :
    ranked.Reachable ∧ ranked.requireAssignable .comparable .string = .ok () ∧
      ranked.method .string "rank" 0 = .ok rank ∧ ranked.Substitutes := by
  have hr : ranked.Reachable := .defineMethod reachable_linkedPoints defineMethod_ranked
  exact ⟨hr, rfl, rfl, assignable_substitutes hr⟩

end Registry

end TypedImp
