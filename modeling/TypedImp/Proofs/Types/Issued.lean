import TypedImp.Proofs.Types.Memberless

/-!
# Issued types

A registry knows the types that it issued, and no others. Of a registry that can be built, the
names tell these types apart (`Reachable.typeNamed?_nameOf`), the built-in types are the first of
them (`Reachable.builtin_prefix`) and the members of each lie on a path (`Reachable.rooted`). Its
members may still mention types that it did not issue; in a closed registry none does
(`Registry.Closed`).
-/

namespace TypedImp

namespace Registry

open Builtin

variable {r r' : Registry} {type : TypeId} {name : String}

/-- The registry has given out the number of the type. -/
def Issued (r : Registry) (type : TypeId) : Prop :=
  type.number < r.types.size

instance (r : Registry) (type : TypeId) : Decidable (r.Issued type) :=
  inferInstanceAs (Decidable (_ < _))

theorem info_eq_ok {info : TypeInfo} :
    r.info type = .ok info ↔ r.types.toList[type.number]? = some info := by
  unfold Registry.info
  rw [Array.getElem?_toList]
  cases r.types[type.number]? <;> simp

theorem info_eq_error (h : ¬ r.Issued type) : r.info type =
    .error (.inconsistent s!"type id {type.number} was not issued by this registry") := by
  unfold Registry.info
  rw [Array.getElem?_eq_none (Nat.le_of_not_lt h)]

theorem issued_iff : r.Issued type ↔ ∃ info, r.info type = .ok info := by
  simp only [info_eq_ok, Issued, List.getElem?_eq_some_iff, Array.length_toList]
  exact ⟨fun h => ⟨_, h, rfl⟩, fun ⟨_, h, _⟩ => h⟩

theorem nameOf_eq {info : TypeInfo} (h : r.info type = .ok info) : r.nameOf type = info.name := by
  rw [info_eq_ok, Array.getElem?_toList] at h
  rw [Registry.nameOf, h]

theorem exists_registerType {target : String} {parent : TypeId} :
    (∃ r', r.registerType name target parent = .ok r') ↔
      isTypeName name = true ∧ r.typeNamed? name = none ∧ r.Issued parent := by
  constructor
  · rintro ⟨r', ok⟩
    obtain ⟨info, hp, -⟩ := registerType_eq_ok ok
    exact ⟨isTypeName_of_registerType ok, typeNamed?_of_registerType ok, issued_iff.2 ⟨info, hp⟩⟩
  · rintro ⟨hname, hfresh, hp⟩
    obtain ⟨info, hi⟩ := issued_iff.1 hp
    simp only [registerType, hname, hfresh, hi]
    exact ⟨_, rfl⟩

theorem issued_addType (target : String) (p : Option ScopeId) (h : r.Issued type) :
    (r.addType name target p).Issued type := by
  exact Nat.lt_trans h (Nat.lt_of_lt_of_eq (Nat.lt_succ_self _) (Array.size_push ..).symm)

/-! ## Names -/

/-- What is found under a name was issued under that name. -/
theorem info_of_typeNamed? (h : r.typeNamed? name = some type) :
    ∃ info, r.info type = .ok info ∧ info.name = name := by
  obtain ⟨i, hi, rfl⟩ := Option.map_eq_some_iff.1 h
  obtain ⟨hlt, hname, -⟩ := List.findIdx?_eq_some_iff_getElem.1 hi
  exact ⟨_, info_eq_ok.2 (List.getElem?_eq_getElem hlt), by simpa using hname⟩

theorem issued_of_typeNamed? (h : r.typeNamed? name = some type) : r.Issued type := by
  obtain ⟨info, hi, -⟩ := info_of_typeNamed? h
  exact issued_iff.2 ⟨info, hi⟩

theorem Reachable.names_nodup (hr : r.Reachable) : (r.types.toList.map (·.name)).Nodup := by
  refine hr.types_induction (P := fun infos => (infos.map (·.name)).Nodup) (by decide +kernel) ?_
  intro r info ih _ hfresh
  simp only [typeNamed?, Option.map_eq_none_iff, List.findIdx?_eq_none_iff,
    decide_eq_false_iff_not] at hfresh
  rw [List.map_append, List.nodup_append]
  refine ⟨ih, by simp, fun n hn m hm => ?_⟩
  obtain ⟨info', hmem, rfl⟩ := List.mem_map.1 hn
  rw [List.map_singleton, List.mem_singleton] at hm
  exact hm ▸ hfresh info' hmem

/-- The name of a type leads back to the type. -/
theorem Reachable.typeNamed?_nameOf (hr : r.Reachable) (h : r.Issued type) :
    r.typeNamed? (r.nameOf type) = some type := by
  obtain ⟨info, hi⟩ := issued_iff.1 h
  rw [nameOf_eq hi]
  obtain ⟨hlt, rfl⟩ := List.getElem?_eq_some_iff.1 (info_eq_ok.1 hi)
  refine Option.map_eq_some_iff.2 ⟨type.number, ?_, rfl⟩
  refine List.findIdx?_eq_some_iff_getElem.2 ⟨hlt, by simp, fun j hj => ?_⟩
  have hne := List.pairwise_iff_getElem.1 hr.names_nodup j type.number
    (by rw [List.length_map]; omega) (by rwa [List.length_map]) hj
  simpa only [List.getElem_map, decide_eq_true_eq] using hne

theorem info_of_prefix (h : r.types.toList <+: r'.types.toList) {info : TypeInfo}
    (hi : r.info type = .ok info) : r'.info type = .ok info := by
  rw [info_eq_ok] at hi ⊢
  obtain ⟨types, htypes⟩ := h
  rw [← htypes]
  rwa [List.getElem?_append_left (List.getElem?_eq_some_iff.1 hi).1]

/-- A type is found under its name though others follow it. -/
theorem typeNamed?_of_prefix (h : r.types.toList <+: r'.types.toList)
    (hn : r.typeNamed? name = some type) : r'.typeNamed? name = some type := by
  obtain ⟨types, htypes⟩ := h
  obtain ⟨i, hi, rfl⟩ := Option.map_eq_some_iff.1 hn
  rw [typeNamed?, ← htypes, List.findIdx?_append, hi]
  rfl

theorem Reachable.builtin_prefix (hr : r.Reachable) :
    Registry.builtin.types.toList <+: r.types.toList :=
  hr.types_induction (List.prefix_refl _) fun ih _ _ => ih.trans (List.prefix_append ..)

theorem Reachable.issued_of_mem (hr : r.Reachable) (h : type ∈ allTypes) : r.Issued type := by
  obtain ⟨info, hi, -⟩ := info_of_mem h
  exact Nat.lt_of_lt_of_le (issued_iff.2 ⟨info, hi⟩) hr.builtin_prefix.length_le

theorem Reachable.typeNamed?_nil (hr : r.Reachable) : r.typeNamed? "Nil" = some .nil := by
  have hfirst := List.prefix_iff_getElem?.1 hr.builtin_prefix 1 (by decide +kernel)
  have hinfo : r.info .nil = .ok ⟨"Nil", "Void", ⟨1⟩⟩ := info_eq_ok.2 hfirst
  have hname : r.nameOf .nil = "Nil" := nameOf_eq hinfo
  exact hname ▸ hr.typeNamed?_nameOf (issued_iff.2 ⟨_, hinfo⟩)

/-! ## Members -/

/-- Members mention types only that were issued. -/
def Closed (r : Registry) : Prop :=
  r.members.All (fun _ field => r.Issued field.type) fun _ method =>
    r.Issued method.result ∧ ∀ type ∈ method.parameters, r.Issued type

theorem closed_builtin : builtin.Closed :=
  builtin_all (by decide +kernel) (by decide +kernel)

theorem Closed.addType (h : r.Closed) (target : String) (p : Option ScopeId) :
    (r.addType name target p).Closed :=
  Arena.All.mono (Arena.All.enter h p) (fun _ _ hv => issued_addType target p hv) fun _ _ hm =>
    ⟨issued_addType target p hm.1, fun type ht => issued_addType target p (hm.2 type ht)⟩

theorem Closed.registerType (h : r.Closed) {target : String} {parent : TypeId}
    (ok : r.registerType name target parent = .ok r') : r'.Closed := by
  obtain ⟨info, -, rfl⟩ := registerType_eq_ok ok
  exact h.addType target (some info.members)

theorem Closed.defineField (h : r.Closed) {field : FieldMember} (hf : r.Issued field.type)
    (ok : r.defineField type field = .ok r') : r'.Closed := by
  obtain ⟨info, -, rfl⟩ := defineField_eq_ok ok
  exact Arena.All.bindVariable h _ hf

theorem Closed.defineMethod (h : r.Closed) {method : MethodMember} (hm : r.Issued method.result)
    (hs : ∀ type ∈ method.parameters, r.Issued type)
    (ok : r.defineMethod type method = .ok r') : r'.Closed := by
  obtain ⟨info, -, rfl⟩ := defineMethod_eq_ok ok
  exact Arena.All.bindFunction h _ ⟨hm, hs⟩

theorem Closed.field (h : r.Closed) {field : FieldMember} (hf : r.field type name = .ok field) :
    r.Issued field.type := by
  obtain ⟨info, -, hl⟩ := field_eq_ok.1 hf
  exact Arena.All.lookupVariable h hl

theorem Closed.result (h : r.Closed) {n : Nat} {method : MethodMember}
    (hm : r.method type name n = .ok method) : r.Issued method.result := by
  obtain ⟨info, -, hl⟩ := method_eq_ok.1 hm
  exact (Arena.All.lookupFunction h hl).1

/-- The members of every type lie on a path. -/
theorem Reachable.rooted (hr : r.Reachable) : r.Rooted := by
  induction hr with
  | builtin => exact rooted_builtin
  | registerType _ ok ih =>
    obtain ⟨info, hp, rfl⟩ := registerType_eq_ok ok
    exact ih.addType hp
  | defineField _ ok ih =>
    obtain ⟨info, -, rfl⟩ := defineField_eq_ok ok
    intro type info' hi
    obtain ⟨l, hl⟩ := ih type info' hi
    exact hl.exists_modify fun _ => rfl
  | defineMethod _ ok ih =>
    obtain ⟨info, -, rfl⟩ := defineMethod_eq_ok ok
    intro type info' hi
    obtain ⟨l, hl⟩ := ih type info' hi
    exact hl.exists_modify fun _ => rfl

/-! ## A type of a host -/

/-- The built-in types and a type of points, before it has members. -/
def points : Registry :=
  builtin.addType "Point" "geo.Point" (some ⟨0⟩)

/-- A field that gives another point. It is for the checker only. -/
def nextPoint : FieldMember :=
  ⟨⟨"next", "next()", ⟨9⟩⟩, none⟩

def linkedPoints : Registry :=
  { points with members := points.members.bindVariable ⟨9⟩ "next" nextPoint }

theorem registerType_points : builtin.registerType "Point" "geo.Point" .any = .ok points := by
  rfl

theorem defineField_linkedPoints : points.defineField ⟨9⟩ nextPoint = .ok linkedPoints := by
  rfl

theorem reachable_linkedPoints : linkedPoints.Reachable :=
  .defineField (.registerType .builtin registerType_points) defineField_linkedPoints

theorem closed_linkedPoints : linkedPoints.Closed :=
  (closed_builtin.registerType registerType_points).defineField
    (by decide +kernel : points.Issued ⟨9⟩) defineField_linkedPoints

end Registry

end TypedImp
