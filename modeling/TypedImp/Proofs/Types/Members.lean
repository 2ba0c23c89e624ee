import TypedImp.Proofs.Types.Reachable

/-!
# The members of the built-in types

There are no more members than `stringify` for every type, `compare` for the ordered types, and
`slice` and `length` for strings (`hasMethod_of_method`, `hasField_of_field`). A value of another
type than the one that a member was looked up for has that member too, or none of the name
(`method_of_hasMethod`, `field_of_hasField`).
-/

namespace TypedImp

namespace Builtin

def stringifyMethod : MethodMember :=
  ⟨⟨"stringify", "toString", [.any], .string⟩, some stringify⟩

def compareMethod (type : TypeId) : MethodMember :=
  ⟨⟨"compare", "compareTo", [.any, type], type⟩, some comparison⟩

def sliceMethod : MethodMember :=
  ⟨⟨"slice", "substring", [.any, .integer, .integer], .string⟩, some slice⟩

def lengthField : FieldMember :=
  ⟨⟨"length", "length()", .integer⟩, some length⟩

/-- The methods of the built-in types, by name and number of parameters. -/
inductive HasMethod : TypeId → String → Nat → MethodMember → Prop
  | stringify (type : TypeId) : HasMethod type "stringify" 1 stringifyMethod
  | compare {type : TypeId} (h : type ∈ [.comparable, .integer, .decimal, .character, .string]) :
      HasMethod type "compare" 2 (compareMethod type)
  | slice : HasMethod .string "slice" 3 sliceMethod

theorem HasMethod.name_eq {type : TypeId} {name : String} {n : Nat} {m : MethodMember}
    (h : HasMethod type name n m) : m.name = name := by
  cases h <;> rfl

inductive HasField : TypeId → String → FieldMember → Prop
  | length : HasField .string "length" lengthField

theorem HasField.name_eq {type : TypeId} {name : String} {f : FieldMember}
    (h : HasField type name f) : f.name = name := by
  cases h
  rfl

def own (type : TypeId) : Scope FieldMember MethodMember :=
  if type = .any then ⟨[], [(("stringify", 1), stringifyMethod)], none⟩
  else if type = .comparable then ⟨[], [(("compare", 2), compareMethod type)], some ⟨0⟩⟩
  else if type = .string then
    ⟨[("length", lengthField)], [(("compare", 2), compareMethod type), (("slice", 3), sliceMethod)],
      some ⟨3⟩⟩
  else if type.isComparable then ⟨[], [(("compare", 2), compareMethod type)], some ⟨3⟩⟩
  else ⟨[], [], some ⟨0⟩⟩

def ancestry (type : TypeId) : List TypeId :=
  type ::
    if type = .any then [] else if type.isComparable then [.comparable, .any] else [.any]

def allTypes : List TypeId :=
  [.any, .nil, .integerIterable, .comparable, .boolean, .integer, .decimal, .character, .string]

theorem type_mem_allTypes (d : Datum) : d.type ∈ allTypes := by
  cases d <;> simp [Datum.type, allTypes]

end Builtin

namespace Registry

open Builtin

variable {type : TypeId} {name : String} {n : Nat}

theorem info_builtin {info : TypeInfo} (h : builtin.info type = .ok info) :
    info.members = ⟨type.number⟩ ∧ type ∈ allTypes := by
  obtain ⟨i⟩ := type
  rcases i with _ | _ | _ | _ | _ | _ | _ | _ | _ | i
  all_goals cases h
  all_goals exact ⟨rfl, by decide⟩

theorem info_of_mem (h : type ∈ allTypes) :
    ∃ info, builtin.info type = .ok info ∧ info.members = ⟨type.number⟩ := by
  simp only [allTypes, List.mem_cons, List.not_mem_nil, or_false] at h
  rcases h with rfl | rfl | rfl | rfl | rfl | rfl | rfl | rfl | rfl
  all_goals exact ⟨_, rfl, rfl⟩

theorem chain_builtin (h : type ∈ allTypes) : builtin.members.chain ⟨type.number⟩ =
    ⟨(ancestry type).map fun t => (⟨t.number⟩, own t), .root⟩ := by
  simp only [allTypes, List.mem_cons, List.not_mem_nil, or_false] at h
  rcases h with rfl | rfl | rfl | rfl | rfl | rfl | rfl | rfl | rfl
  all_goals rfl

theorem method_builtin (h : type ∈ allTypes) : builtin.method type name n =
    (builtin.members.lookupFunction ⟨type.number⟩ name (Function.withReceiver n)).mapError
      (withoutReceiver n) := by
  obtain ⟨info, hi, hmembers⟩ := info_of_mem h
  rw [method, hi, ← hmembers]
  rfl

theorem hasField_of_own {f : FieldMember} (h : (own type).vars.get? name = some f) :
    HasField type name f := by
  unfold own at h
  split_ifs at h with h₁ h₂ h₃
  · cases h
  · cases h
  · subst h₃
    rw [Table.get?_cons] at h
    split_ifs at h with hn
    · cases h
      subst hn
      exact .length
    · cases h
  · cases h
  · cases h

theorem hasMethod_of_own {m : MethodMember} (h : (own type).funs.get? (name, n) = some m) :
    HasMethod type name n m := by
  unfold own at h
  split_ifs at h with h₁ h₂ h₃ h₄
  · rw [Table.get?_cons] at h
    split_ifs at h with hk
    · cases h
      cases hk
      exact .stringify _
    · cases h
  · rw [Table.get?_cons] at h
    split_ifs at h with hk
    · cases h
      cases hk
      subst h₂
      exact .compare (by decide)
    · cases h
  · subst h₃
    rw [Table.get?_cons, Table.get?_cons] at h
    split_ifs at h with hk hk'
    · cases h
      cases hk
      exact .compare (by decide)
    · cases h
      cases hk'
      exact .slice
    · cases h
  · rw [Table.get?_cons] at h
    split_ifs at h with hk
    · cases h
      cases hk
      refine .compare ?_
      simp only [TypeId.isComparable, Bool.or_eq_true, decide_eq_true_eq] at h₄
      rcases h₄ with ((rfl | rfl) | rfl) | rfl <;> decide
    · cases h
  · cases h

theorem own_compare (h : type ∈ [.comparable, .integer, .decimal, .character, .string]) :
    (own type).funs.get? ("compare", 2) = some (compareMethod type) := by
  simp only [List.mem_cons, List.not_mem_nil, or_false] at h
  rcases h with rfl | rfl | rfl | rfl | rfl <;> rfl

theorem string_of_mem_ancestry (h : .string ∈ ancestry type) : type = .string := by
  simp only [ancestry, List.mem_cons] at h
  rcases h with h | h
  · exact h.symm
  · split_ifs at h <;>
      simp [TypeId.string, TypeId.any, TypeId.comparable] at h

theorem hasField_of_field {f : FieldMember} (h : builtin.field type name = .ok f) :
    HasField type name f := by
  simp only [field, bind_eq_ok] at h
  obtain ⟨info, hi, h⟩ := h
  obtain ⟨hmembers, hmem⟩ := info_builtin hi
  rw [hmembers, Arena.lookupVariable_eq_ok, Arena.findVariable?, chain_builtin hmem] at h
  obtain ⟨t, h⟩ := h
  rw [List.findSome?_map] at h
  obtain ⟨u, hu, h⟩ := List.exists_of_findSome?_eq_some h
  obtain ⟨f', hf, hp⟩ := Option.map_eq_some_iff.1 h
  cases hp
  cases hasField_of_own hf
  rw [string_of_mem_ancestry hu]
  exact .length

theorem find_of_method {m : MethodMember} (h : builtin.method type name n = .ok m) :
    type ∈ allTypes ∧ (ancestry type).findSome? (fun t => (own t).funs.get?
      (name, Function.withReceiver n)) = some m := by
  obtain ⟨info, hi, hl⟩ := method_eq_ok.1 h
  obtain ⟨hmembers, hmem⟩ := info_builtin hi
  rw [hmembers, Arena.lookupFunction_eq_ok, Arena.findFunction?, chain_builtin hmem,
    List.findSome?_map] at hl
  exact ⟨hmem, hl⟩

theorem hasMethod_of_method {m : MethodMember} (h : builtin.method type name n = .ok m) :
    HasMethod type name (Function.withReceiver n) m := by
  obtain ⟨-, h⟩ := find_of_method h
  generalize Function.withReceiver n = a at h
  rw [ancestry, List.findSome?_cons] at h
  cases hown : (own type).funs.get? (name, a) with
  | some m' =>
    rw [hown] at h
    cases h
    exact hasMethod_of_own hown
  | none =>
    rw [hown] at h
    obtain ⟨t, ht, hm⟩ := List.exists_of_findSome?_eq_some h
    cases hasMethod_of_own hm with
    | stringify _ => exact .stringify _
    | compare hc =>
      -- an ordered type has a `compare` of its own
      split_ifs at ht with hany hordered
      · cases ht
      · rw [own_compare] at hown
        · cases hown
        · simp only [TypeId.isComparable, Bool.or_eq_true, decide_eq_true_eq] at hordered
          rcases hordered with ((rfl | rfl) | rfl) | rfl <;> decide
      · rw [List.mem_singleton] at ht
        subst ht
        exact absurd hc (by decide)
    | slice => split_ifs at ht <;> simp [TypeId.string, TypeId.any, TypeId.comparable] at ht

/-- The length of a value of some type is that of a string, or there is no such field. -/
theorem field_of_hasField {f : FieldMember} (h : HasField type name f) {other : TypeId}
    (ho : other ∈ allTypes) :
    builtin.field other name = .ok f ∨
      builtin.field other name = .error (.unknownVariable name) := by
  cases h
  simp only [allTypes, List.mem_cons, List.not_mem_nil, or_false] at ho
  rcases ho with rfl | rfl | rfl | rfl | rfl | rfl | rfl | rfl | rfl
  on_goal 9 => exact .inl rfl
  all_goals exact .inr rfl

/-- A method that some type has is found in another one under its name and number of parameters, or
there is none of the name. -/
theorem method_of_hasMethod {m : MethodMember}
    (h : HasMethod type name (Function.withReceiver n) m) {other : TypeId}
    (ho : other ∈ allTypes) :
    (∃ m', builtin.method other name n = .ok m') ∨
      builtin.method other name n = .error (.unknownFunction name n) := by
  rw [method_builtin ho]
  generalize Function.withReceiver n = a at h
  simp only [allTypes, List.mem_cons, List.not_mem_nil, or_false] at ho
  cases h with
  | stringify _ =>
    left
    rcases ho with rfl | rfl | rfl | rfl | rfl | rfl | rfl | rfl | rfl
    all_goals exact ⟨_, rfl⟩
  | compare _ =>
    rcases ho with rfl | rfl | rfl | rfl | rfl | rfl | rfl | rfl | rfl
    all_goals first | exact .inr rfl | exact .inl ⟨_, rfl⟩
  | slice =>
    rcases ho with rfl | rfl | rfl | rfl | rfl | rfl | rfl | rfl | rfl
    all_goals first | exact .inr rfl | exact .inl ⟨_, rfl⟩

theorem method_of_hasMethod_self {m : MethodMember}
    (h : HasMethod type name (Function.withReceiver n) m) (ht : type ∈ allTypes) :
    builtin.method type name n = .ok m := by
  rw [method_builtin ht]
  generalize Function.withReceiver n = a at h
  simp only [allTypes, List.mem_cons, List.not_mem_nil, or_false] at ht
  cases h with
  | stringify _ =>
    rcases ht with rfl | rfl | rfl | rfl | rfl | rfl | rfl | rfl | rfl
    all_goals rfl
  | compare h =>
    simp only [List.mem_cons, List.not_mem_nil, or_false] at h
    rcases h with rfl | rfl | rfl | rfl | rfl
    all_goals rfl
  | slice => rfl

end Registry

/-! ## What members answer -/

/-- What a value without members of its own answers as a field. -/
def FieldMember.answer (field : FieldMember) (name : String) (receiver : Value) :
    Except Error Value :=
  match field.getter with
  | some getter => getter [receiver]
  | none => .error (.unknownVariable name)

/-- What a value without members of its own answers as a method. -/
def MethodMember.answer (method : MethodMember) (name : String) (receiver : Value)
    (arguments : List Value) : Except Error Value :=
  match method.body with
  | some body => body (receiver :: arguments)
  | none => .error (.unknownFunction name arguments.length)

namespace Builtin

variable {name : String} {v : Value} {values : List Value}

theorem answer_stringify : stringifyMethod.answer name v values = .ok (.string v.toText) :=
  rfl

theorem answer_compare {type : TypeId} {w : Value} :
    (compareMethod type).answer name v (w :: values) =
      match v.datum.compare? w.datum with
      | some ordering => .ok (signIn v.datum ordering)
      | none => .error (.operandMismatch "compare" w.datum.className) :=
  rfl

theorem answer_length : lengthField.answer name v =
    match v.datum with
    | .string text => .ok (.integer text.length)
    | other => .error (.typeMismatch "string" other.className) := by
  obtain ⟨type, datum, members⟩ := v
  cases datum <;> rfl

/-- `slice` gives a string, unless an argument is of the wrong class or out of bounds. -/
theorem answer_slice (name : String) (v a b : Value) (values : List Value) :
    (∃ text, sliceMethod.answer name v (a :: b :: values) = .ok (.string text)) ∨
    (∃ expected received, sliceMethod.answer name v (a :: b :: values) =
      .error (.typeMismatch expected received) ∧
        ¬ (v.datum.type = .string ∧ a.datum.type = .integer ∧ b.datum.type = .integer)) ∨
    ∃ start stop length, sliceMethod.answer name v (a :: b :: values) =
      .error (.indexOutOfBounds start stop length) := by
  obtain ⟨_, d, _⟩ := v
  obtain ⟨_, e, _⟩ := a
  obtain ⟨_, f, _⟩ := b
  cases d with
  | string text =>
    cases e with
    | integer start =>
      cases f with
      | integer stop =>
        by_cases h : 0 ≤ start && start ≤ stop && stop ≤ text.length
        · exact .inl ⟨_, if_pos h⟩
        · exact .inr (.inr ⟨_, _, _, if_neg h⟩)
      | _ => exact .inr (.inl ⟨_, _, rfl, fun h => nomatch h.2.2⟩)
    | _ => exact .inr (.inl ⟨_, _, rfl, fun h => nomatch h.2.1⟩)
  | _ => exact .inr (.inl ⟨_, _, rfl, fun h => nomatch h.1⟩)

theorem exists_cons (h : Function.withReceiver values.length = 2) :
    ∃ w rest, values = w :: rest := by
  cases values with
  | nil => cases h
  | cons w rest => exact ⟨w, rest, rfl⟩

theorem exists_cons_cons (h : Function.withReceiver values.length = 3) :
    ∃ a b rest, values = a :: b :: rest := by
  rcases values with _ | ⟨a, _ | ⟨b, rest⟩⟩
  · cases h
  · cases h
  · exact ⟨a, b, rest, rfl⟩

end Builtin

end TypedImp
