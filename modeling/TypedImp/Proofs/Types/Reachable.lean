import Mathlib.Tactic.Common
import TypedImp.Proofs.Outcome
import TypedImp.Proofs.Scope.Bindings
import TypedImp.Types.Builtin

/-!
# Registries that can be built

A registry starts with the built-in types and grows by types, fields and methods. Every field in it
is kept under its own name and every method under its name and arity (`Reachable.keyed`), so a
method that is found for a number of arguments has that many parameters and the receiver
(`Reachable.arity_of_method`).
-/

namespace TypedImp

namespace Registry

/-- The registries that can be built from the built-in types. -/
inductive Reachable : Registry → Prop
  | builtin : Reachable builtin
  | registerType {r r' : Registry} {name target : String} {parent : TypeId} (h : Reachable r)
      (ok : r.registerType name target parent = .ok r') : Reachable r'
  | defineField {r r' : Registry} {type : TypeId} {field : FieldMember} (h : Reachable r)
      (ok : r.defineField type field = .ok r') : Reachable r'
  | defineMethod {r r' : Registry} {type : TypeId} {method : MethodMember} (h : Reachable r)
      (ok : r.defineMethod type method = .ok r') : Reachable r'

theorem registerType_eq_ok {r r' : Registry} {name target : String} {parent : TypeId}
    (h : r.registerType name target parent = .ok r') :
    ∃ info, r.info parent = .ok info ∧ r' = r.addType name target (some info.members) := by
  unfold registerType at h
  split_ifs at h
  simp only [bind_eq_ok, pure_eq_ok] at h
  obtain ⟨info, hi, rfl⟩ := h
  exact ⟨info, hi, rfl⟩

theorem isTypeName_of_registerType {r r' : Registry} {name target : String} {parent : TypeId}
    (h : r.registerType name target parent = .ok r') : isTypeName name = true := by
  unfold registerType at h
  split_ifs at h with hname
  simpa using hname

theorem typeNamed?_of_registerType {r r' : Registry} {name target : String} {parent : TypeId}
    (h : r.registerType name target parent = .ok r') : r.typeNamed? name = none := by
  unfold registerType at h
  split_ifs at h with _ hnamed
  simpa using hnamed

theorem defineField_eq_ok {r r' : Registry} {type : TypeId} {field : FieldMember}
    (h : r.defineField type field = .ok r') : ∃ info, r.info type = .ok info ∧
      r' = { r with members := r.members.bindVariable info.members field.name field } := by
  simp only [defineField, bind_eq_ok, pure_eq_ok, Arena.defineVariable_eq_ok] at h
  obtain ⟨info, hi, members, ⟨-, rfl⟩, rfl⟩ := h
  exact ⟨info, hi, rfl⟩

theorem defineMethod_eq_ok {r r' : Registry} {type : TypeId} {method : MethodMember}
    (h : r.defineMethod type method = .ok r') : ∃ info, r.info type = .ok info ∧
      r' = { r with
        members := r.members.bindFunction info.members method.name method.arity method } := by
  simp only [defineMethod, bind_eq_ok, pure_eq_ok, Arena.defineFunction_eq_ok] at h
  obtain ⟨info, hi, members, ⟨-, rfl⟩, rfl⟩ := h
  exact ⟨info, hi, rfl⟩

/-- What holds of the built-in types and is kept by each type that is issued behind others holds of
all types, as members do not change them. -/
theorem Reachable.types_induction {r : Registry} {P : List TypeInfo → Prop} (hr : r.Reachable)
    (hbuiltin : P Registry.builtin.types.toList)
    (hpush : ∀ {r : Registry} {info : TypeInfo}, P r.types.toList → isTypeName info.name = true →
      r.typeNamed? info.name = none → P (r.types.toList ++ [info])) : P r.types.toList := by
  induction hr with
  | builtin => exact hbuiltin
  | registerType _ ok ih =>
    have hname := isTypeName_of_registerType ok
    have hfresh := typeNamed?_of_registerType ok
    obtain ⟨info, -, rfl⟩ := registerType_eq_ok ok
    rw [addType, Array.toList_push]
    exact hpush ih hname hfresh
  | defineField _ ok ih =>
    obtain ⟨info, -, rfl⟩ := defineField_eq_ok ok
    exact ih
  | defineMethod _ ok ih =>
    obtain ⟨info, -, rfl⟩ := defineMethod_eq_ok ok
    exact ih

theorem foldl_all {α : Type} {var : String → FieldMember → Prop}
    {fn : String × Nat → MethodMember → Prop} {step : Registry → α → Registry} : ∀ {xs : List α},
    (∀ x ∈ xs, ∀ r : Registry, r.members.All var fn → (step r x).members.All var fn) →
    ∀ {r : Registry}, r.members.All var fn → (xs.foldl step r).members.All var fn
  | [], _, _, h => h
  | x :: _, hstep, r, h =>
    foldl_all (fun y hy => hstep y (.tail _ hy)) (hstep x (.head _) r h)

/-- What holds of all built-in members holds of all that are kept. -/
theorem builtin_all {var : String → FieldMember → Prop} {fn : String × Nat → MethodMember → Prop}
    (hvar : ∀ p ∈ Builtin.fields, var p.2.name p.2)
    (hfn : ∀ p ∈ Builtin.methods, fn (p.2.name, p.2.arity) p.2) : builtin.members.All var fn := by
  have htypes : lattice.members.All var fn := foldl_all (fun _ _ _ h => h.enter _) .empty
  exact foldl_all (fun p hp _ h => h.bindVariable _ (hvar p hp))
    (foldl_all (fun p hp _ h => h.bindFunction _ (hfn p hp)) htypes)

/-- Every field is kept under its own name, and every method under its name and arity. -/
theorem Reachable.keyed {r : Registry} (h : r.Reachable) :
    r.members.All (fun name field => name = field.name)
      fun key method => key = (method.name, method.arity) := by
  induction h with
  | builtin => exact builtin_all (fun _ _ => rfl) fun _ _ => rfl
  | registerType _ ok ih =>
    obtain ⟨info, -, rfl⟩ := registerType_eq_ok ok
    exact ih.enter _
  | defineField _ ok ih =>
    obtain ⟨info, -, rfl⟩ := defineField_eq_ok ok
    exact ih.bindVariable _ rfl
  | defineMethod _ ok ih =>
    obtain ⟨info, -, rfl⟩ := defineMethod_eq_ok ok
    exact ih.bindFunction _ rfl

theorem field_eq_ok {r : Registry} {type : TypeId} {name : String} {field : FieldMember} :
    r.field type name = .ok field ↔ ∃ info, r.info type = .ok info ∧
      r.members.lookupVariable info.members name = .ok field :=
  bind_eq_ok

theorem method_eq_ok {r : Registry} {type : TypeId} {name : String} {n : Nat}
    {method : MethodMember} : r.method type name n = .ok method ↔ ∃ info, r.info type = .ok info ∧
      r.members.lookupFunction info.members name (Function.withReceiver n) = .ok method := by
  rw [Registry.method, bind_eq_ok]
  refine exists_congr fun info => and_congr_right fun _ => ?_
  cases r.members.lookupFunction info.members name (Function.withReceiver n) with
  | error e => exact ⟨(nomatch ·), (nomatch ·)⟩
  | ok m => exact Iff.rfl

theorem Reachable.name_of_field {r : Registry} (h : r.Reachable) {type : TypeId} {name : String}
    {field : FieldMember} (hf : r.field type name = .ok field) : field.name = name := by
  obtain ⟨info, -, hl⟩ := field_eq_ok.1 hf
  exact (h.keyed.lookupVariable hl).symm

theorem Reachable.key_of_method {r : Registry} (h : r.Reachable) {type : TypeId} {name : String}
    {n : Nat} {method : MethodMember} (hm : r.method type name n = .ok method) :
    (name, Function.withReceiver n) = (method.name, method.arity) := by
  obtain ⟨info, -, hl⟩ := method_eq_ok.1 hm
  exact h.keyed.lookupFunction hl

theorem Reachable.arity_of_method {r : Registry} (h : r.Reachable) {type : TypeId} {name : String}
    {n : Nat} {method : MethodMember} (hm : r.method type name n = .ok method) :
    method.arity = Function.withReceiver n :=
  (congrArg Prod.snd (h.key_of_method hm)).symm

end Registry

end TypedImp
