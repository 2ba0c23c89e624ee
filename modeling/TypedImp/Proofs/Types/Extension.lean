import TypedImp.Proofs.Types.Issued

/-!
# Registries that grow

A host goes on to register types and to define members (`Registry.Call`). As long as members are
defined for new types only, whatever the registry knew stays as it was (`Extends.info_eq`,
`Extends.field_eq`, `Extends.method_eq`): types are issued behind the others, and the members of
a type lie in its own scope and in those of types that were issued before it.
-/

namespace TypedImp

namespace Registry

/-- What a host may ask of a registry. -/
inductive Call where
  | registerType (name target : String) (parent : TypeId)
  | defineField (type : TypeId) (field : FieldMember)
  | defineMethod (type : TypeId) (method : MethodMember)

def Call.perform (r : Registry) : Call → Except Error Registry
  | registerType name target parent => r.registerType name target parent
  | defineField type field => r.defineField type field
  | defineMethod type method => r.defineMethod type method

/-- A call that fails changes nothing. -/
def after (r : Registry) (call : Call) : Registry :=
  match call.perform r with
  | .ok r' => r'
  | .error _ => r

def afterAll (r : Registry) (calls : List Call) : Registry :=
  calls.foldl after r

/-- The call defines members for no type that the registry has issued. -/
def Call.Adds (r : Registry) : Call → Prop
  | registerType _ _ _ => True
  | defineField type _ | defineMethod type _ => ¬ r.Issued type

instance (r : Registry) : (call : Call) → Decidable (call.Adds r)
  | .registerType _ _ _ => .isTrue trivial
  | .defineField type _ | .defineMethod type _ => inferInstanceAs (Decidable (¬ r.Issued type))

/-- The registry has grown behind all that it was. -/
structure Extends (r r' : Registry) : Prop where
  types : r.types.toList <+: r'.types.toList
  size : r.members.size ≤ r'.members.size
  scopes (s : ScopeId) (h : s.index < r.members.size) : r'.members.get? s = r.members.get? s
  /-- The members of new types lie in new scopes. -/
  fresh {type : TypeId} {info : TypeInfo} (h : ¬ r.Issued type) (hi : r'.info type = .ok info) :
    r.members.size ≤ info.members.index

variable {r r' r'' : Registry} {type : TypeId} {name : String}

/-! ## Calls -/

namespace Extends

theorem refl (r : Registry) : r.Extends r where
  types := List.prefix_refl _
  size := Nat.le_refl _
  scopes _ _ := rfl
  fresh h hi := (h (issued_iff.2 ⟨_, hi⟩)).elim

theorem addType (h : r.Extends r') (target : String) (p : Option ScopeId) :
    r.Extends (r'.addType name target p) where
  types := by
    rw [Registry.addType, Array.toList_push]
    exact h.types.trans (List.prefix_append ..)
  size := Nat.le_trans h.size (Nat.le_of_lt (Nat.lt_of_lt_of_eq (Nat.lt_succ_self _)
    (Arena.size_enter ..).symm))
  scopes s hs := (Arena.get?_enter_of_lt (Nat.lt_of_lt_of_le hs h.size) p).trans (h.scopes s hs)
  fresh hn hi := by
    rw [info_addType] at hi
    split_ifs at hi
    · cases hi
      exact h.size
    · exact h.fresh hn hi

/-- What is changed in the scope of a new type is out of the way of the others. -/
theorem modify (h : r.Extends r') (hn : ¬ r.Issued type) {info : TypeInfo}
    (hi : r'.info type = .ok info) (f : Scope FieldMember MethodMember → Scope _ _) :
    r.Extends { r' with members := r'.members.modify info.members f } where
  types := h.types
  size := (Arena.size_modify ..).symm ▸ h.size
  scopes s hs := by
    rw [Arena.get?_modify, if_neg, h.scopes s hs]
    rintro rfl
    exact absurd (h.fresh hn hi) (Nat.not_le_of_lt hs)
  fresh := h.fresh

theorem after (h : r.Extends r') {call : Call} (hc : call.Adds r) : r.Extends (r'.after call) := by
  unfold Registry.after
  cases ok : call.perform r' with
  | error e => exact h
  | ok r'' =>
    cases call with
    | registerType name target parent =>
      obtain ⟨info, -, rfl⟩ := registerType_eq_ok ok
      exact h.addType target _
    | defineField type field =>
      obtain ⟨info, hi, rfl⟩ := defineField_eq_ok ok
      exact h.modify hc hi _
    | defineMethod type method =>
      obtain ⟨info, hi, rfl⟩ := defineMethod_eq_ok ok
      exact h.modify hc hi _

theorem afterAll : ∀ (calls : List Call) {r' : Registry}, r.Extends r' →
    (∀ call ∈ calls, call.Adds r) → r.Extends (r'.afterAll calls)
  | [], _, h, _ => h
  | call :: calls, _, h, hc => by
    rw [List.forall_mem_cons] at hc
    exact afterAll calls (h.after hc.1) hc.2

end Extends

theorem Reachable.perform (hr : r.Reachable) {call : Call} (ok : call.perform r = .ok r') :
    r'.Reachable := by
  cases call with
  | registerType name target parent => exact hr.registerType ok
  | defineField type field => exact hr.defineField ok
  | defineMethod type method => exact hr.defineMethod ok

/-- Types are only issued behind the others. -/
theorem types_perform {call : Call} (ok : call.perform r = .ok r') :
    r.types.toList <+: r'.types.toList := by
  cases call with
  | registerType name target parent =>
    obtain ⟨info, -, rfl⟩ := registerType_eq_ok ok
    rw [addType, Array.toList_push]
    exact List.prefix_append ..
  | defineField type field =>
    obtain ⟨info, -, rfl⟩ := defineField_eq_ok ok
    exact List.prefix_refl _
  | defineMethod type method =>
    obtain ⟨info, -, rfl⟩ := defineMethod_eq_ok ok
    exact List.prefix_refl _

theorem Reachable.after (hr : r.Reachable) (call : Call) : (r.after call).Reachable := by
  unfold Registry.after
  cases ok : call.perform r with
  | error e => exact hr
  | ok r' => exact hr.perform ok

theorem Reachable.afterAll : ∀ (calls : List Call) {r : Registry}, r.Reachable →
    (r.afterAll calls).Reachable
  | [], _, hr => hr
  | call :: calls, _, hr => afterAll calls (hr.after call)

/-! ## What stays as it was -/

namespace Extends

variable (h : r.Extends r')
include h

theorem info_of_ok {info : TypeInfo} (hi : r.info type = .ok info) : r'.info type = .ok info :=
  info_of_prefix h.types hi

theorem info_eq (hi : r.Issued type) : r'.info type = r.info type := by
  obtain ⟨info, hinfo⟩ := issued_iff.1 hi
  rw [h.info_of_ok hinfo, hinfo]

theorem nameOf_eq (hi : r.Issued type) : r'.nameOf type = r.nameOf type := by
  obtain ⟨info, hinfo⟩ := issued_iff.1 hi
  rw [Registry.nameOf_eq hinfo, Registry.nameOf_eq (h.info_of_ok hinfo)]

variable (hr : r.Reachable) (hi : r.Issued type)
include hr hi

theorem field_eq (name : String) : r'.field type name = r.field type name := by
  obtain ⟨info, hinfo⟩ := issued_iff.1 hi
  obtain ⟨l, hl⟩ := hr.rooted type info hinfo
  have hl' : r'.members.Path info.members l :=
    hl.congr fun t ht => h.scopes t (Nat.lt_of_le_of_lt ht hl.lt_size)
  rw [field, field, h.info_eq hi, hinfo]
  exact Arena.lookupVariable_congr (hl'.chain.trans hl.chain.symm) name

theorem method_eq (name : String) (arity : Nat) :
    r'.method type name arity = r.method type name arity := by
  obtain ⟨info, hinfo⟩ := issued_iff.1 hi
  obtain ⟨l, hl⟩ := hr.rooted type info hinfo
  have hl' : r'.members.Path info.members l :=
    hl.congr fun t ht => h.scopes t (Nat.lt_of_le_of_lt ht hl.lt_size)
  rw [method, method, h.info_eq hi, hinfo]
  exact congrArg (Except.mapError _)
    (Arena.lookupFunction_congr (hl'.chain.trans hl.chain.symm) name _)

end Extends

end Registry

end TypedImp
