import TypedImp.Proofs.Types.Members

/-!
# Registries without further members

A type that was added to the built-in ones, and was not given members, has no members but those
that it inherits. The built-in types keep theirs (`Memberless.field_eq`, `Memberless.method_eq`),
and what a type inherits some built-in type has (`Memberless.field_of`, `Memberless.method_of`).
-/

namespace TypedImp

namespace Arena

variable {V F : Type} {a : Arena V F} {s : ScopeId} {l : List (ScopeId × Scope V F)}

/-- A scope that is entered later does not change what is found from an earlier one. -/
theorem Path.lookupVariable_enter (h : a.Path s l) (p : Option ScopeId) (name : String) :
    (a.enter p).lookupVariable s name = a.lookupVariable s name := by
  simp only [lookupVariable, Arena.findVariable?, h.chain, (h.enter p).chain]

theorem Path.lookupFunction_enter (h : a.Path s l) (p : Option ScopeId) (name : String)
    (arity : Nat) : (a.enter p).lookupFunction s name arity = a.lookupFunction s name arity := by
  simp only [lookupFunction, Arena.findFunction?, arities, h.chain, (h.enter p).chain]

/-- In a new scope, all that is found is its parent's. -/
theorem Path.lookupVariable_next {v : V} (h : a.Path s l) {name : String}
    (hv : (a.enter (some s)).lookupVariable a.next name = .ok v) :
    a.lookupVariable s name = .ok v := by
  rw [lookupVariable_eq_ok, h.enter_next.findVariable?] at hv
  rw [lookupVariable_eq_ok, h.findVariable?]
  exact hv

theorem Path.lookupFunction_next {f : F} (h : a.Path s l) {name : String} {arity : Nat}
    (hf : (a.enter (some s)).lookupFunction a.next name arity = .ok f) :
    a.lookupFunction s name arity = .ok f := by
  rw [lookupFunction_eq_ok, h.enter_next.findFunction?] at hf
  rw [lookupFunction_eq_ok, h.findFunction?]
  exact hf

end Arena

namespace Registry

open Builtin

variable {r r' : Registry} {type parent : TypeId} {name target : String} {n : Nat}

/-- The built-in types and further ones that were not given members. -/
inductive Memberless : Registry → Prop
  | builtin : Memberless .builtin
  | registerType {r r' : Registry} {name target : String} {parent : TypeId} (h : Memberless r)
      (ok : r.registerType name target parent = .ok r') : Memberless r'

theorem Memberless.reachable (h : r.Memberless) : r.Reachable := by
  induction h with
  | builtin => exact .builtin
  | registerType _ ok ih => exact ih.registerType ok

/-- The members of every type lie on a path. -/
def Rooted (r : Registry) : Prop :=
  ∀ type info, r.info type = .ok info → ∃ l, r.members.Path info.members l

theorem info_addType (r : Registry) (name target : String) (p : Option ScopeId) (type : TypeId) :
    (r.addType name target p).info type =
      if type = r.next then .ok ⟨name, target, r.members.next⟩ else r.info type := by
  obtain ⟨i⟩ := type
  simp only [info, addType, next, TypeId.mk.injEq, Array.getElem?_push]
  split_ifs <;> rfl

theorem ne_next_of_info {info : TypeInfo} (h : r.info type = .ok info) : type ≠ r.next := by
  rintro rfl
  simp [Registry.info, next] at h

section

variable {info : TypeInfo} (hr : r.Rooted)
include hr

theorem Rooted.addType (hp : r.info parent = .ok info) :
    (r.addType name target (some info.members)).Rooted := by
  obtain ⟨l, hl⟩ := hr parent info hp
  intro type info' h
  rw [info_addType] at h
  split_ifs at h with hn
  · cases h
    exact ⟨_, hl.enter_next⟩
  · obtain ⟨l', hl'⟩ := hr type info' h
    exact ⟨l', hl'.enter _⟩

theorem Rooted.field_addType {p : Option ScopeId} {member : String} (hn : type ≠ r.next) :
    (r.addType name target p).field type member = r.field type member := by
  rw [field, field, info_addType, if_neg hn]
  cases h : r.info type with
  | error e => rfl
  | ok info' =>
    obtain ⟨l, hl⟩ := hr type info' h
    exact hl.lookupVariable_enter _ _

theorem Rooted.method_addType {p : Option ScopeId} {member : String} (hn : type ≠ r.next) :
    (r.addType name target p).method type member n = r.method type member n := by
  rw [method, method, info_addType, if_neg hn]
  cases h : r.info type with
  | error e => rfl
  | ok info' =>
    obtain ⟨l, hl⟩ := hr type info' h
    exact congrArg (Except.mapError _) (hl.lookupFunction_enter _ _ _)

theorem Rooted.field_next (hp : r.info parent = .ok info) {member : String} {f : FieldMember}
    (h : (r.addType name target (some info.members)).field r.next member = .ok f) :
    r.field parent member = .ok f := by
  obtain ⟨l, hl⟩ := hr parent info hp
  rw [field, info_addType, if_pos rfl] at h
  rw [field, hp]
  exact hl.lookupVariable_next h

theorem Rooted.method_next (hp : r.info parent = .ok info) {member : String} {m : MethodMember}
    (h : (r.addType name target (some info.members)).method r.next member n = .ok m) :
    r.method parent member n = .ok m := by
  obtain ⟨l, hl⟩ := hr parent info hp
  obtain ⟨info', hi, h⟩ := method_eq_ok.1 h
  rw [info_addType, if_pos rfl] at hi
  cases hi
  exact method_eq_ok.2 ⟨info, hp, hl.lookupFunction_next h⟩

end

theorem rooted_builtin : builtin.Rooted := by
  intro type info h
  obtain ⟨hmembers, hmem⟩ := info_builtin h
  rw [hmembers]
  have hany : builtin.members.Path ⟨0⟩ [(⟨0⟩, own .any)] := .root rfl rfl
  have hcomparable := Arena.Path.child (a := builtin.members) (s := ⟨3⟩) rfl rfl (by decide) hany
  simp only [allTypes, List.mem_cons, List.not_mem_nil, or_false] at hmem
  rcases hmem with rfl | rfl | rfl | rfl | rfl | rfl | rfl | rfl | rfl
  · exact ⟨_, hany⟩
  · exact ⟨_, .child rfl rfl (by decide) hany⟩
  · exact ⟨_, .child rfl rfl (by decide) hany⟩
  · exact ⟨_, hcomparable⟩
  · exact ⟨_, .child rfl rfl (by decide) hany⟩
  all_goals exact ⟨_, .child rfl rfl (by decide) hcomparable⟩

namespace Memberless

theorem rooted (h : r.Memberless) : r.Rooted := by
  induction h with
  | builtin => exact rooted_builtin
  | registerType _ ok ih =>
    obtain ⟨info, hp, rfl⟩ := registerType_eq_ok ok
    exact ih.addType hp

theorem ne_next (h : r.Memberless) (ht : type ∈ allTypes) : type ≠ r.next := by
  suffices ∃ info, r.info type = .ok info by
    obtain ⟨info, hi⟩ := this
    exact ne_next_of_info hi
  induction h with
  | builtin =>
    obtain ⟨info, hi, -⟩ := info_of_mem ht
    exact ⟨info, hi⟩
  | registerType _ ok ih =>
    obtain ⟨_, -, rfl⟩ := registerType_eq_ok ok
    obtain ⟨info, hi⟩ := ih
    exact ⟨info, by rw [info_addType, if_neg (ne_next_of_info hi), hi]⟩

theorem field_eq (h : r.Memberless) (ht : type ∈ allTypes) :
    r.field type name = Registry.builtin.field type name := by
  induction h with
  | builtin => rfl
  | registerType h ok ih =>
    obtain ⟨_, -, rfl⟩ := registerType_eq_ok ok
    rw [h.rooted.field_addType (h.ne_next ht), ih]

theorem method_eq (h : r.Memberless) (ht : type ∈ allTypes) :
    r.method type name n = Registry.builtin.method type name n := by
  induction h with
  | builtin => rfl
  | registerType h ok ih =>
    obtain ⟨_, -, rfl⟩ := registerType_eq_ok ok
    rw [h.rooted.method_addType (h.ne_next ht), ih]

theorem field_of (h : r.Memberless) {f : FieldMember} (hf : r.field type name = .ok f) :
    ∃ type', Registry.builtin.field type' name = .ok f := by
  induction h generalizing type with
  | builtin => exact ⟨type, hf⟩
  | @registerType r _ _ _ parent h ok ih =>
    obtain ⟨info, hp, rfl⟩ := registerType_eq_ok ok
    by_cases hn : type = r.next
    · exact ih (h.rooted.field_next hp (hn ▸ hf))
    · exact ih (h.rooted.field_addType hn ▸ hf)

theorem method_of (h : r.Memberless) {m : MethodMember} (hm : r.method type name n = .ok m) :
    ∃ type', Registry.builtin.method type' name n = .ok m := by
  induction h generalizing type with
  | builtin => exact ⟨type, hm⟩
  | @registerType r _ _ _ parent h ok ih =>
    obtain ⟨info, hp, rfl⟩ := registerType_eq_ok ok
    by_cases hn : type = r.next
    · exact ih (h.rooted.method_next hp (hn ▸ hm))
    · exact ih (h.rooted.method_addType hn ▸ hm)

end Memberless

end Registry

end TypedImp
