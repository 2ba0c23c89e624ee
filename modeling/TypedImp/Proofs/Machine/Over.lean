import TypedImp.Proofs.Machine.Stock
import TypedImp.Proofs.Types.Reachable

/-!
# The objects in a value

A value is over some objects if all objects in it, itself included, are among them. The built-in
members give nothing but single data (`Registry.atomic_builtin`), so what they give is over any
objects (`Registry.keeps_builtin`).
-/

namespace TypedImp

/-- The value has members in none but these scopes, and so have the values in it. -/
inductive Value.Over (objects : List ScopeId) : Value → Prop
  | mk {type : TypeId} {datum : Datum} {members : Option ScopeId}
      (hmembers : ∀ s, members = some s → s ∈ objects)
      (hitems : ∀ items, datum = .sequence items → ∀ item ∈ items, Over objects item) :
      Over objects (.mk type datum members)

/-- From values of these objects the body computes such values only. -/
def Body.Keeps (objects : List ScopeId) (body : Body) : Prop :=
  ∀ values v, (∀ w ∈ values, w.Over objects) → body values = .ok v → v.Over objects

/-- The members of types give no objects but these. -/
structure Registry.Keeps (r : Registry) (objects : List ScopeId) : Prop where
  getter {type : TypeId} {name : String} {field : FieldMember} {getter : Body}
    (h : r.field type name = .ok field) (hg : field.getter = some getter) : getter.Keeps objects
  body {type : TypeId} {name : String} {n : Nat} {method : MethodMember} {body : Body}
    (h : r.method type name n = .ok method) (hb : method.body = some body) : body.Keeps objects

variable {objects objects' : List ScopeId} {v : Value} {s : ScopeId} {r : Registry}

namespace Value

theorem Over.members (h : v.Over objects) (hs : v.members = some s) : s ∈ objects := by
  cases h with
  | mk hmembers _ => exact hmembers s hs

theorem Over.items (h : v.Over objects) {items : List Value} (hi : v.datum = .sequence items) :
    ∀ item ∈ items, item.Over objects := by
  cases h with
  | mk _ hitems => exact hitems items hi

theorem Over.mono (h : v.Over objects) (hsub : ∀ s ∈ objects, s ∈ objects') : v.Over objects' := by
  induction h with
  | mk hmembers _ ih => exact .mk (fun s hs => hsub s (hmembers s hs)) ih

theorem over_of (d : Datum) (h : ∀ items, d ≠ .sequence items) : (Value.of d).Over objects :=
  .mk (fun _ h => nomatch h) fun items hi => (h items hi).elim

end Value

/-! ## Values of single data -/

/-- The body computes values without items or members, of the type of their datum. -/
def Body.Atomic (body : Body) : Prop :=
  ∀ values v, body values = .ok v → ∃ d, v = .of d ∧ ∀ items, d ≠ .sequence items

/-- Members give no items, no members and no values of new types. -/
def Registry.Atomic (r : Registry) : Prop :=
  r.members.All (fun _ field => ∀ getter, field.getter = some getter → getter.Atomic)
    fun _ method => ∀ body, method.body = some body → body.Atomic

theorem Body.Atomic.keeps {body : Body} (h : body.Atomic) : body.Keeps objects := by
  intro values v _ hv
  obtain ⟨d, rfl, hd⟩ := h values v hv
  exact Value.over_of d hd

theorem Registry.Atomic.keeps (h : r.Atomic) : r.Keeps objects where
  getter hf hg := by
    obtain ⟨info, -, hl⟩ := field_eq_ok.1 hf
    exact (Arena.All.lookupVariable h hl _ hg).keeps
  body hm hb := by
    obtain ⟨info, -, hl⟩ := method_eq_ok.1 hm
    exact (Arena.All.lookupFunction h hl _ hb).keeps

namespace Builtin

theorem atomic_stringify : stringify.Atomic := by
  intro values v h
  obtain ⟨w, -, h⟩ := bind_eq_ok.1 h
  cases h
  exact ⟨_, rfl, nofun⟩

theorem atomic_comparison : comparison.Atomic := by
  intro values v h
  obtain ⟨receiver, -, h⟩ := bind_eq_ok.1 h
  obtain ⟨other, -, h⟩ := bind_eq_ok.1 h
  split at h
  · cases h
    unfold signIn
    split <;> exact ⟨_, rfl, nofun⟩
  · cases h

theorem atomic_length : length.Atomic := by
  intro values v h
  obtain ⟨text, -, h⟩ := bind_eq_ok.1 h
  cases h
  exact ⟨_, rfl, nofun⟩

theorem atomic_slice : slice.Atomic := by
  intro values v h
  obtain ⟨text, -, h⟩ := bind_eq_ok.1 h
  obtain ⟨start, -, h⟩ := bind_eq_ok.1 h
  obtain ⟨stop, -, h⟩ := bind_eq_ok.1 h
  split_ifs at h
  cases h
  exact ⟨_, rfl, nofun⟩

end Builtin

theorem Registry.atomic_builtin : Registry.builtin.Atomic := by
  refine builtin_all ?_ ?_
  · simp only [Builtin.fields, List.forall_mem_singleton]
    rintro _ ⟨⟩
    exact Builtin.atomic_length
  · simp only [Builtin.methods, List.map_cons, List.map_nil, List.cons_append, List.nil_append,
      List.forall_mem_cons, List.not_mem_nil, IsEmpty.forall_iff, implies_true, and_true]
    refine ⟨?_, ?_, ?_, ?_, ?_, ?_, ?_⟩ <;> rintro _ ⟨⟩
    · exact Builtin.atomic_stringify
    iterate 5 exact Builtin.atomic_comparison
    exact Builtin.atomic_slice

theorem Registry.keeps_builtin : Registry.builtin.Keeps objects :=
  atomic_builtin.keeps

/-- The stock of the values over some objects. -/
def Stock.over (objects : List ScopeId) (bound : String × Nat → Callable → Prop)
    (hr : r.Keeps objects) (hb : ∀ key body, bound key (.body body) → body.Keeps objects) :
    Stock r where
  good := Value.Over objects
  bound := bound
  good_of := Value.over_of
  good_item hv h := hv.items h
  good_body h hvalues hv := hb _ _ h _ _ hvalues hv
  good_getter h hg hv hw := hr.getter h hg _ _ (List.forall_mem_singleton.2 hv) hw
  good_method h hb hvalues hv := hr.body h hb _ _ hvalues hv

end TypedImp
