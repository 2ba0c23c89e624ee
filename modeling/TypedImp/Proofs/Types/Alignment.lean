import Mathlib.Logic.Relation
import TypedImp.Proofs.Scope.History
import TypedImp.Proofs.Types.Issued

/-!
# The parts of a registry

Of a registry that can be built, every name is an identifier (`Reachable.isIdentifier`) and leads to
one type (`Reachable.typeNamed?_eq_some`). Member scopes have the numbers of their types, and the
parent links from each lead down to the scope of `any` (`Aligned.descends`), so that every type has
or inherits what is bound there (`Reachable.exists_stringify`).
-/

namespace TypedImp

/-! ## Names -/

def IsLetter (c : Char) : Prop :=
  ('A' ≤ c ∧ c ≤ 'Z') ∨ ('a' ≤ c ∧ c ≤ 'z') ∨ c = '_'

def IsDigit (c : Char) : Prop :=
  '0' ≤ c ∧ c ≤ '9'

/-- ASCII letters, digits and underscores, not with a digit first. -/
def IsIdentifier (name : String) : Prop :=
  ∃ c cs, name.toList = c :: cs ∧ IsLetter c ∧ ∀ d ∈ cs, IsLetter d ∨ IsDigit d

theorem isLetter_iff {c : Char} : (c.isAlpha || c == '_') = true ↔ IsLetter c := by
  delta Char.isAlpha Char.isUpper Char.isLower IsLetter
  simp only [Char.le_def, Bool.or_eq_true, Bool.and_eq_true, decide_eq_true_eq, beq_iff_eq,
    or_assoc]

theorem isDigit_iff {c : Char} : c.isDigit = true ↔ IsDigit c := by
  delta Char.isDigit IsDigit
  simp only [Char.le_def, Bool.and_eq_true, decide_eq_true_eq]

theorem isTypeName_iff {name : String} : isTypeName name = true ↔ IsIdentifier name := by
  have hrest (c : Char) : (c.isAlphanum || c == '_') = true ↔ IsLetter c ∨ IsDigit c := by
    rw [← isLetter_iff, ← isDigit_iff, ← Bool.or_eq_true, Char.isAlphanum]
    cases c.isAlpha <;> cases c.isDigit <;> simp
  unfold isTypeName IsIdentifier
  cases h : name.toList with
  | nil => simp
  | cons c cs =>
    simp only [Bool.and_eq_true, List.all_eq_true, isLetter_iff, hrest, List.cons.injEq]
    constructor
    · exact fun h => ⟨c, cs, ⟨rfl, rfl⟩, h⟩
    · rintro ⟨_, _, ⟨rfl, rfl⟩, h⟩
      exact h

namespace Registry

open Builtin

variable {r r' : Registry} {type : TypeId} {name : String}

/-! ## The order of registration -/

/-- The types of a registry under their names, in order. -/
def entries (r : Registry) : List (String × TypeId) :=
  r.types.toList.zipIdx.map fun p => (p.1.name, ⟨p.2⟩)

theorem mem_entries :
    (name, type) ∈ r.entries ↔ ∃ info, r.info type = .ok info ∧ info.name = name := by
  simp only [entries, List.mem_map, Prod.mk.injEq, Prod.exists, List.mem_zipIdx_iff_getElem?,
    info_eq_ok]
  constructor
  · rintro ⟨info, i, hi, rfl, rfl⟩
    exact ⟨info, hi, rfl⟩
  · rintro ⟨info, hi, rfl⟩
    exact ⟨info, type.number, hi, rfl, rfl⟩

theorem mem_types_entries : type ∈ r.entries.map Prod.snd ↔ r.Issued type := by
  rw [issued_iff]
  constructor
  · intro h
    obtain ⟨⟨_, _⟩, hmem, rfl⟩ := List.mem_map.1 h
    obtain ⟨info, hi, -⟩ := mem_entries.1 hmem
    exact ⟨info, hi⟩
  · rintro ⟨info, hi⟩
    exact List.mem_map.2 ⟨_, mem_entries.2 ⟨info, hi, rfl⟩, rfl⟩

theorem entries_types (r : Registry) :
    r.entries.map Prod.snd = (List.range r.types.size).map TypeId.mk := by
  rw [entries, List.map_map, List.range_eq_range', ← Array.length_toList, ← List.zipIdx_map_snd,
    List.map_map]
  rfl

theorem length_entries (r : Registry) : r.entries.length = r.types.size := by
  rw [entries, List.length_map, List.length_zipIdx, Array.length_toList]

theorem entries_names (r : Registry) : r.entries.map Prod.fst = r.types.toList.map (·.name) := by
  conv_rhs => rw [← List.zipIdx_map_fst 0 r.types.toList]
  rw [entries, List.map_map, List.map_map]
  rfl

theorem entries_addType (r : Registry) (name target : String) (p : Option ScopeId) :
    (r.addType name target p).entries = r.entries ++ [(name, r.next)] := by
  rw [entries, addType, Array.toList_push, List.zipIdx_append, List.map_append]
  simp only [entries, next, List.zipIdx_cons, List.zipIdx_nil, List.map_cons, List.map_nil,
    Nat.zero_add, Array.length_toList]

/-- Every name leads to the first type of that name. -/
theorem get?_entries (r : Registry) (name : String) :
    Table.get? r.entries name = r.typeNamed? name := by
  suffices ∀ (infos : List TypeInfo) (k : Nat),
      Table.get? ((infos.zipIdx k).map fun p => (p.1.name, (⟨p.2⟩ : TypeId))) name =
        (infos.findIdx? (·.name = name)).map fun i => ⟨i + k⟩ from this r.types.toList 0
  intro infos
  induction infos with
  | nil => exact fun _ => rfl
  | cons info infos ih =>
    intro k
    rw [List.zipIdx_cons, List.map_cons, Table.get?_cons, List.findIdx?_cons, ih]
    by_cases hn : name = info.name
    · simp [hn]
    · simp [hn, Ne.symm hn, Nat.add_assoc, Nat.add_comm 1, Function.comp_def]

theorem typeNamed?_addType (h : r.typeNamed? name = none) (target : String) (p : Option ScopeId)
    (n : String) : (r.addType name target p).typeNamed? n =
      if n = name then some r.next else r.typeNamed? n := by
  simp only [typeNamed?, Option.map_eq_none_iff] at h
  simp only [typeNamed?, addType, Array.toList_push, List.findIdx?_append, List.findIdx?_cons,
    List.findIdx?_nil]
  by_cases hn : n = name
  · subst hn
    simp [h, next]
  · simp [hn, Ne.symm hn]

theorem Reachable.typeNamed?_eq_some (hr : r.Reachable) :
    r.typeNamed? name = some type ↔ (name, type) ∈ r.entries := by
  rw [mem_entries]
  constructor
  · exact info_of_typeNamed?
  · rintro ⟨info, hi, rfl⟩
    rw [← nameOf_eq hi]
    exact hr.typeNamed?_nameOf (issued_iff.2 ⟨info, hi⟩)

theorem Reachable.isIdentifier (hr : r.Reachable) :
    ∀ info ∈ r.types.toList, IsIdentifier info.name := by
  suffices ∀ info ∈ r.types.toList, isTypeName info.name = true from
    fun info hi => isTypeName_iff.1 (this info hi)
  refine hr.types_induction (P := fun infos => ∀ info ∈ infos, isTypeName info.name = true)
    (by decide +kernel) fun ih hname _ => ?_
  exact List.forall_mem_append.2 ⟨ih, by simpa using hname⟩

/-! ## Member scopes -/

/-- Type number `n` has member scope number `n`, and all scopes lie inside that of `any`. -/
structure Aligned (r : Registry) : Prop where
  size : r.members.size = r.types.size
  members {type : TypeId} {info : TypeInfo} (h : r.info type = .ok info) :
    info.members = ⟨type.number⟩
  ordered : r.members.Ordered
  parent {s : ScopeId} (h : s.index < r.members.size) : r.members.parent? s = none ↔ s = ⟨0⟩

theorem aligned_builtin : builtin.Aligned where
  size := by decide +kernel
  members h := (info_builtin h).1
  ordered s p h := by
    obtain ⟨i⟩ := s
    rcases i with _ | _ | _ | _ | _ | _ | _ | _ | _ | i
    all_goals cases h
    all_goals decide
  parent {s} h := by
    obtain ⟨i⟩ := s
    have key : ∀ i < 9, builtin.members.parent? ⟨i⟩ = none ↔ (⟨i⟩ : ScopeId) = ⟨0⟩ := by
      decide +kernel
    exact key i h

namespace Aligned

variable (h : r.Aligned)
include h

theorem addType {parent : TypeId} {info : TypeInfo} (hp : r.info parent = .ok info)
    (target : String) : (r.addType name target (some info.members)).Aligned where
  size := by
    rw [Registry.addType, Arena.size_enter, h.size]
    exact (Array.size_push ..).symm
  members hi := by
    rw [info_addType] at hi
    split_ifs at hi with hn
    · cases hi
      rw [hn, Arena.next, h.size]
      rfl
    · exact h.members hi
  ordered := h.ordered.enter fun p hp' => by
    cases hp'
    rw [h.members hp, h.size]
    exact issued_iff.2 ⟨info, hp⟩
  parent {s} hs := by
    have hsize : r.members.size ≠ 0 := by
      rw [h.size]
      exact Nat.ne_of_gt (Nat.zero_lt_of_lt (issued_iff.2 ⟨info, hp⟩))
    rw [Registry.addType, Arena.size_enter] at hs
    rw [Registry.addType, Arena.parent?_enter]
    split_ifs with hn
    · refine iff_of_false not_false ?_
      rw [hn]
      exact fun h0 => hsize (congrArg ScopeId.index h0)
    · refine h.parent (Nat.lt_of_le_of_ne (Nat.le_of_lt_succ hs) fun heq => hn ?_)
      obtain ⟨i⟩ := s
      exact congrArg ScopeId.mk heq

theorem modify (s : ScopeId) {f : Scope FieldMember MethodMember → Scope FieldMember MethodMember}
    (hf : ∀ scope, (f scope).parent = scope.parent) :
    Aligned { r with members := r.members.modify s f } where
  size := (Arena.size_modify ..).trans h.size
  members := h.members
  ordered t p ht := h.ordered t p ((Arena.parent?_modify r.members s t hf).symm.trans ht)
  parent {t} ht := by
    rw [Arena.size_modify] at ht
    rw [Arena.parent?_modify r.members s t hf]
    exact h.parent ht

theorem live (hi : r.Issued type) : type.number < r.members.size :=
  h.size ▸ hi

/-- The links from a scope lead down to that of `any`. -/
theorem descends {i : Nat} (hi : i < r.members.size) :
    Relation.ReflTransGen (fun s p => r.members.parent? s = some p ∧ p.index < s.index)
      ⟨i⟩ ⟨0⟩ := by
  induction i using Nat.strongRecOn with
  | _ i ih =>
    cases hp : r.members.parent? ⟨i⟩ with
    | none => rw [(h.parent hi).1 hp]
    | some p =>
      have before : p.index < i := h.ordered _ _ hp
      exact .head ⟨hp, before⟩ (ih p.index before (h.ordered.live_parent hp))

theorem any_mem {s : ScopeId} {l : List (ScopeId × Scope FieldMember MethodMember)}
    (hl : r.members.Path s l) : ∃ q ∈ l, q.1 = ⟨0⟩ := by
  induction hl with
  | root live top =>
    refine ⟨_, .head _, (h.parent (Arena.lt_size_of_get? live)).1 ?_⟩
    rw [Arena.parent?, live, Option.bind_some, top]
  | child _ _ _ _ ih =>
    obtain ⟨q, hq, hany⟩ := ih
    exact ⟨q, .tail _ hq, hany⟩

end Aligned

theorem Reachable.aligned (hr : r.Reachable) : r.Aligned := by
  induction hr with
  | builtin => exact aligned_builtin
  | registerType _ ok ih =>
    obtain ⟨info, hp, rfl⟩ := registerType_eq_ok ok
    exact ih.addType hp _
  | defineField _ ok ih =>
    obtain ⟨info, -, rfl⟩ := defineField_eq_ok ok
    exact ih.modify _ fun _ => rfl
  | defineMethod _ ok ih =>
    obtain ⟨info, -, rfl⟩ := defineMethod_eq_ok ok
    exact ih.modify _ fun _ => rfl

/-- The scope of `any` always binds `stringify`. -/
theorem Reachable.any_stringify (hr : r.Reachable) : ∃ scope, r.members.get? ⟨0⟩ = some scope ∧
    (scope.funs.get? ("stringify", 1)).isSome := by
  induction hr with
  | builtin => exact ⟨_, rfl, by decide +kernel⟩
  | registerType _ ok ih =>
    obtain ⟨info, -, rfl⟩ := registerType_eq_ok ok
    obtain ⟨scope, live, hbound⟩ := ih
    exact ⟨scope, (Arena.get?_enter_of_lt (Arena.lt_size_of_get? live) _).trans live, hbound⟩
  | defineField _ ok ih =>
    obtain ⟨info, -, rfl⟩ := defineField_eq_ok ok
    obtain ⟨scope, live, hbound⟩ := ih
    rw [Arena.bindVariable, Arena.get?_modify]
    split_ifs
    · exact ⟨scope.bindVariable _ _, by rw [live]; rfl, hbound⟩
    · exact ⟨scope, live, hbound⟩
  | defineMethod _ ok ih =>
    obtain ⟨info, -, rfl⟩ := defineMethod_eq_ok ok
    obtain ⟨scope, live, hbound⟩ := ih
    rw [Arena.bindFunction, Arena.get?_modify]
    split_ifs
    · refine ⟨scope.bindFunction _ _ _, by rw [live]; rfl, ?_⟩
      simp only [Scope.bindFunction, Table.get?_insert]
      split_ifs
      · rfl
      · exact hbound
    · exact ⟨scope, live, hbound⟩

/-- Every issued type has or inherits `stringify`. -/
theorem Reachable.exists_stringify (hr : r.Reachable) (hi : r.Issued type) :
    ∃ method, r.method type "stringify" 0 = .ok method := by
  obtain ⟨info, hinfo⟩ := issued_iff.1 hi
  obtain ⟨l, hl⟩ := hr.rooted type info hinfo
  obtain ⟨scope, live, hbound⟩ := hr.any_stringify
  obtain ⟨⟨_, _⟩, hq, rfl⟩ := hr.aligned.any_mem hl
  have hfound : (r.members.findFunction? info.members "stringify" 1).isSome := by
    rw [hl.findFunction?, List.findSome?_isSome_iff]
    refine ⟨_, hq, ?_⟩
    cases live.symm.trans (hl.mem _ hq).2
    exact hbound
  obtain ⟨method, hmethod⟩ := Option.isSome_iff_exists.1 hfound
  exact ⟨method, method_eq_ok.2 ⟨info, hinfo, Arena.lookupFunction_eq_ok.2 hmethod⟩⟩

end Registry

end TypedImp
