import TypedImp.Proofs.Types.Alignment
import TypedImp.Proofs.Types.Extension
import TypedImp.Types.Ledger

/-!
# Calls on a ledger

A call writes to types, names and member scopes one after the other. A call that fails has not
written anything yet, and one that succeeds has written all that the same call on a registry comes
to (`run_eq`). So the parts of a ledger are in step after any calls, whether they succeed or fail
(`ledger_consistent`).
-/

namespace TypedImp

namespace Ledger

/-- What a host may ask of a ledger. -/
inductive Call where
  | registerType (name target : String) (parent : Option TypeId)
  | defineField (type : TypeId) (field : FieldMember)
  | defineMethod (type : TypeId) (method : MethodMember)

namespace Call

/-- Performs a call. If it issues a type, gives the type and the name that it was issued under. -/
def perform : Call → Edit (List (String × TypeId))
  | registerType name target parent => do return [(name, ← Ledger.registerType name target parent)]
  | defineField type field => do
    Ledger.defineField type field
    return []
  | defineMethod type method => do
    Ledger.defineMethod type method
    return []

/-- The same call on a registry. -/
def onRegistry : Call → Registry.Call
  | registerType name target parent => .registerType name target (parent.getD .any)
  | defineField type field => .defineField type field
  | defineMethod type method => .defineMethod type method

end Call

def outcome (l : Ledger) (call : Call) : Except Error (List (String × TypeId)) :=
  (call.perform.run l).1

/-- The ledger as a call leaves it, whether it succeeds or fails. -/
def after (l : Ledger) (call : Call) : Ledger :=
  (call.perform.run l).2

def afterAll (l : Ledger) (calls : List Call) : Ledger :=
  calls.foldl after l

/-- The types that calls issue, in order, with their names. -/
def issued (l : Ledger) : List Call → List (String × TypeId)
  | [] => []
  | call :: calls => (l.outcome call).toOption.getD [] ++ (l.after call).issued calls

/-- The built-in types with their names. -/
def builtinIssued : List (String × TypeId) :=
  (Builtin.types.map Prod.fst).zip Builtin.allTypes

/-- The parts of a ledger are in step with each other and with the types that were issued, and calls
keep to that. -/
structure Consistent (l : Ledger) (issued : List (String × TypeId)) : Prop where
  /-- Types have the numbers from 0 on in the order in which they were issued. -/
  numbers : issued.map Prod.snd = (List.range issued.length).map TypeId.mk
  size : l.types.size = issued.length ∧ l.members.size = issued.length
  names : (issued.map Prod.fst).Nodup ∧ ∀ name ∈ issued.map Prod.fst, IsIdentifier name
  typeNamed (name : String) (type : TypeId) : l.typeNamed name = .ok type ↔ (name, type) ∈ issued
  info (name : String) (type : TypeId) : (name, type) ∈ issued ↔
    ∃ target, l.registry.info type = .ok ⟨name, target, ⟨type.number⟩⟩
  nameOf (name : String) (type : TypeId) (h : (name, type) ∈ issued) :
    l.registry.nameOf type = name
  /-- Parent links lead from the member scope of every type down to that of `any`. -/
  descends (type : TypeId) (h : type ∈ issued.map Prod.snd) :
    Relation.ReflTransGen (fun s p => l.members.parent? s = some p ∧ p.index < s.index)
      ⟨type.number⟩ ⟨TypeId.any.number⟩
  top : l.members.parent? ⟨TypeId.any.number⟩ = none
  stringify (type : TypeId) (h : type ∈ issued.map Prod.snd) :
    ∃ method, l.registry.method type "stringify" 0 = .ok method
  registers (name target : String) (parent : Option TypeId) :
    (l.outcome (.registerType name target parent)).isOk ↔ IsIdentifier name ∧
      name ∉ issued.map Prod.fst ∧ ∀ p ∈ parent, p ∈ issued.map Prod.snd
  failed (call : Call) (e : Error) (h : l.outcome call = .error e) : l.after call = l
  succeeded (call : Call) (given : List (String × TypeId)) (h : l.outcome call = .ok given) :
    (∀ name type, l.typeNamed name = .ok type → (l.after call).typeNamed name = .ok type) ∧
      (∀ type info, l.registry.info type = .ok info →
        (l.after call).registry.info type = .ok info) ∧
      ∀ type ∈ issued.map Prod.snd, (l.after call).registry.nameOf type = l.registry.nameOf type

/-! ## Runs of calls -/

section Runs

variable {α β : Type} (l : Ledger)

theorem run_bind (edit : Edit α) (next : α → Edit β) :
    (edit >>= next).run l =
      match edit.run l with
      | (.ok a, l') => (next a).run l'
      | (.error e, l') => (.error e, l') := by
  change (ExceptT.bindCont next (edit.run l).1 : StateT Ledger Id _) (edit.run l).2 = _
  rcases edit.run l with ⟨_ | a, l'⟩ <;> rfl

theorem run_throw_bind (e : Error) (next : α → Edit β) :
    (throw e >>= next).run l = (.error e, l) :=
  rfl

theorem run_get_bind (next : Ledger → Edit β) : (get >>= next).run l = (next l).run l :=
  rfl

theorem run_lift_bind (o : Except Error α) (next : α → Edit β) :
    (liftM o >>= next).run l =
      match o with
      | .ok a => (next a).run l
      | .error e => (.error e, l) := by
  cases o <;> rfl

/-- The types that a call issues if it succeeds. -/
def gives : Call → List (String × TypeId)
  | .registerType name _ _ => [(name, l.registry.next)]
  | .defineField _ _ | .defineMethod _ _ => []

/-- The ledger with the parts of a registry and with further names. -/
def become (r : Registry) (given : List (String × TypeId)) : Ledger :=
  ⟨r.types, given.foldl (fun names p => names.insert p.1 p.2) l.names, r.members⟩

/-- Every name leads to the first type of that name. -/
def Indexed : Prop :=
  ∀ name, l.names.get? name = l.registry.typeNamed? name

variable {l}

theorem run_registerType (h : l.Indexed) (name target : String) (parent : Option TypeId) :
    (registerType name target parent).run l =
      match l.registry.registerType name target (parent.getD .any) with
      | .ok r => (.ok l.registry.next, l.become r [(name, l.registry.next)])
      | .error e => (.error e, l) := by
  unfold registerType Registry.registerType
  split_ifs with hname hused
  · rfl
  · rw [run_get_bind, if_pos ((h name).symm ▸ hused), run_throw_bind]
  · rw [run_get_bind, if_neg ((h name).symm ▸ hused), run_get_bind, run_lift_bind]
    cases l.registry.info (parent.getD .any) <;> rfl

theorem run_define (l : Ledger) (type : TypeId) (member : Arena FieldMember MethodMember →
    ScopeId → Except Error (Arena FieldMember MethodMember)) :
    (define type member).run l =
      match (do
        let info ← l.registry.info type
        return { l.registry with members := ← member l.registry.members info.members }) with
      | .ok r => (.ok (), l.become r [])
      | .error e => (.error e, l) := by
  unfold define
  rw [run_get_bind, run_lift_bind]
  cases l.registry.info type with
  | error e => rfl
  | ok info =>
    change (liftM (member l.members info.members) >>= _ : Edit Unit).run l =
      match (member l.members info.members).map fun members => ⟨l.types, members⟩ with
      | .ok r => (.ok (), l.become r [])
      | .error e => (.error e, l)
    rw [run_lift_bind]
    cases member l.members info.members <;> rfl

/-- A call comes to what it comes to on a registry, or fails and changes nothing. -/
theorem run_eq (h : l.Indexed) (call : Call) : call.perform.run l =
    match call.onRegistry.perform l.registry with
    | .ok r => (.ok (l.gives call), l.become r (l.gives call))
    | .error e => (.error e, l) := by
  cases call with
  | registerType name target parent =>
    rw [Call.perform, run_bind, run_registerType h, Call.onRegistry, Registry.Call.perform]
    cases l.registry.registerType name target (parent.getD .any) <;> rfl
  | defineField type field =>
    rw [Call.perform, run_bind, defineField, run_define, Call.onRegistry, Registry.Call.perform,
      ← Registry.defineField]
    cases l.registry.defineField type field <;> rfl
  | defineMethod type method =>
    rw [Call.perform, run_bind, defineMethod, run_define, Call.onRegistry, Registry.Call.perform,
      ← Registry.defineMethod]
    cases l.registry.defineMethod type method <;> rfl

theorem run_cases (h : l.Indexed) (call : Call) :
    (∃ e, call.onRegistry.perform l.registry = .error e ∧ l.outcome call = .error e ∧
        l.after call = l) ∨
      ∃ r, call.onRegistry.perform l.registry = .ok r ∧ l.outcome call = .ok (l.gives call) ∧
        l.after call = l.become r (l.gives call) := by
  rw [outcome, after, run_eq h]
  cases call.onRegistry.perform l.registry with
  | error e => exact .inl ⟨e, rfl, rfl, rfl⟩
  | ok r => exact .inr ⟨r, rfl, rfl, rfl⟩

end Runs

/-! ## What calls keep -/

/-- The registry could be built without names, names lead to its types, and it has the types that
were issued. -/
structure InStep (l : Ledger) (issued : List (String × TypeId)) : Prop where
  reachable : l.registry.Reachable
  indexed : l.Indexed
  entries : issued = l.registry.entries

section

variable {l : Ledger} {issued : List (String × TypeId)} {call : Call} {r : Registry}

theorem entries_perform (ok : call.onRegistry.perform l.registry = .ok r) :
    r.entries = l.registry.entries ++ l.gives call := by
  cases call with
  | registerType name target parent =>
    obtain ⟨info, -, rfl⟩ := Registry.registerType_eq_ok ok
    exact Registry.entries_addType ..
  | defineField type field =>
    obtain ⟨info, -, rfl⟩ := Registry.defineField_eq_ok ok
    exact (List.append_nil _).symm
  | defineMethod type method =>
    obtain ⟨info, -, rfl⟩ := Registry.defineMethod_eq_ok ok
    exact (List.append_nil _).symm

theorem Indexed.become (h : l.Indexed) (ok : call.onRegistry.perform l.registry = .ok r) :
    (l.become r (l.gives call)).Indexed := by
  cases call with
  | registerType name target parent =>
    have hfresh := Registry.typeNamed?_of_registerType ok
    obtain ⟨info, -, rfl⟩ := Registry.registerType_eq_ok ok
    intro n
    refine ((Table.get?_insert ..).trans ?_).trans
      (Registry.typeNamed?_addType hfresh target (some info.members) n).symm
    rw [h n]
  | defineField type field =>
    obtain ⟨info, -, rfl⟩ := Registry.defineField_eq_ok ok
    exact h
  | defineMethod type method =>
    obtain ⟨info, -, rfl⟩ := Registry.defineMethod_eq_ok ok
    exact h

namespace InStep

theorem after (h : l.InStep issued) (call : Call) :
    (l.after call).InStep (issued ++ (l.outcome call).toOption.getD []) := by
  rcases run_cases h.indexed call with ⟨e, -, hout, hafter⟩ | ⟨r, ok, hout, hafter⟩
  · rw [hout, hafter]
    exact (List.append_nil issued).symm ▸ h
  · rw [hout, hafter]
    exact {
      reachable := h.reachable.perform ok
      indexed := h.indexed.become ok
      entries := h.entries ▸ (entries_perform ok).symm }

theorem afterAll : ∀ (calls : List Call) {l : Ledger} {issued : List (String × TypeId)},
    l.InStep issued → (l.afterAll calls).InStep (issued ++ l.issued calls)
  | [], _, _, h => (List.append_nil _).symm ▸ h
  | call :: calls, l, issued, h => by
    rw [Ledger.issued, ← List.append_assoc]
    exact afterAll calls (h.after call)

theorem builtin : Ledger.builtin.InStep builtinIssued where
  reachable := .builtin
  indexed name := by
    have hnames : Ledger.builtin.names = Ledger.builtin.registry.entries := by decide +kernel
    rw [hnames, Registry.get?_entries]
  entries := by decide +kernel

variable (h : l.InStep issued)
include h

theorem mem_types {type : TypeId} : type ∈ issued.map Prod.snd ↔ l.registry.Issued type := by
  rw [h.entries, Registry.mem_types_entries]

theorem typeNamed_eq_ok {name : String} {type : TypeId} :
    l.typeNamed name = .ok type ↔ l.registry.typeNamed? name = some type := by
  rw [typeNamed, h.indexed]
  cases l.registry.typeNamed? name <;> simp

theorem registers (name target : String) (parent : Option TypeId) :
    (l.outcome (.registerType name target parent)).isOk ↔ IsIdentifier name ∧
      name ∉ issued.map Prod.fst ∧ ∀ p ∈ parent, p ∈ issued.map Prod.snd := by
  have hperform : (l.outcome (.registerType name target parent)).isOk ↔
      ∃ r, l.registry.registerType name target (parent.getD .any) = .ok r := by
    rcases run_cases h.indexed (.registerType name target parent) with
      ⟨e, herror, hout, -⟩ | ⟨r, ok, hout, -⟩
    · rw [hout]
      exact iff_of_false nofun fun ⟨r, ok⟩ => nomatch herror.symm.trans ok
    · rw [hout]
      exact iff_of_true rfl ⟨r, ok⟩
  have hnames : name ∉ issued.map Prod.fst ↔ l.registry.typeNamed? name = none := by
    rw [Option.eq_none_iff_forall_ne_some, List.mem_map]
    simp only [ne_eq, h.reachable.typeNamed?_eq_some, h.entries, Prod.exists, exists_and_right,
      exists_eq_right, not_exists]
  have hparent : (∀ p ∈ parent, p ∈ issued.map Prod.snd) ↔
      l.registry.Issued (parent.getD .any) := by
    cases parent with
    | none => exact iff_of_true nofun (h.reachable.issued_of_mem (.head _))
    | some p =>
      simp only [Option.mem_def, Option.some.injEq, forall_eq', h.mem_types, Option.getD_some]
  rw [hperform, Registry.exists_registerType, isTypeName_iff, hnames, hparent]

theorem succeeded (call : Call) (given : List (String × TypeId)) (ok : l.outcome call = .ok given) :
    (∀ name type, l.typeNamed name = .ok type → (l.after call).typeNamed name = .ok type) ∧
      (∀ type info, l.registry.info type = .ok info →
        (l.after call).registry.info type = .ok info) ∧
      ∀ type ∈ issued.map Prod.snd,
        (l.after call).registry.nameOf type = l.registry.nameOf type := by
  rcases run_cases h.indexed call with ⟨e, -, hout, -⟩ | ⟨r, hperform, -, hafter⟩
  · cases ok.symm.trans hout
  have hregistry : (l.after call).registry = r := congrArg registry hafter
  have hprefix := Registry.types_perform hperform
  refine ⟨fun name type hn => ?_, fun type info hi => ?_, fun type ht => ?_⟩
  · rw [h.typeNamed_eq_ok] at hn
    rw [(h.after call).typeNamed_eq_ok, hregistry]
    exact Registry.typeNamed?_of_prefix hprefix hn
  · rw [hregistry]
    exact Registry.info_of_prefix hprefix hi
  · obtain ⟨info, hi⟩ := Registry.issued_iff.1 (h.mem_types.1 ht)
    rw [hregistry, Registry.nameOf_eq hi,
      Registry.nameOf_eq (Registry.info_of_prefix hprefix hi)]

theorem consistent : l.Consistent issued where
  numbers := by
    rw [h.entries, Registry.entries_types, Registry.length_entries]
  size := by
    rw [h.entries, Registry.length_entries]
    exact ⟨rfl, h.reachable.aligned.size⟩
  names := by
    rw [h.entries, Registry.entries_names]
    refine ⟨h.reachable.names_nodup, fun name hname => ?_⟩
    obtain ⟨info, hi, rfl⟩ := List.mem_map.1 hname
    exact h.reachable.isIdentifier info hi
  typeNamed name type := by
    rw [h.typeNamed_eq_ok, h.reachable.typeNamed?_eq_some, h.entries]
  info name type := by
    rw [h.entries, Registry.mem_entries]
    constructor
    · rintro ⟨⟨_, target, _⟩, hi, rfl⟩
      cases h.reachable.aligned.members hi
      exact ⟨target, hi⟩
    · rintro ⟨target, hi⟩
      exact ⟨_, hi, rfl⟩
  nameOf name type hmem := by
    rw [h.entries, Registry.mem_entries] at hmem
    obtain ⟨info, hi, rfl⟩ := hmem
    exact Registry.nameOf_eq hi
  descends type ht :=
    h.reachable.aligned.descends (h.reachable.aligned.live (h.mem_types.1 ht))
  top := (h.reachable.aligned.parent
    (h.reachable.aligned.live (h.reachable.issued_of_mem (.head _)))).2 rfl
  stringify type ht := h.reachable.exists_stringify (h.mem_types.1 ht)
  registers := h.registers
  failed call e he := by
    rcases run_cases h.indexed call with ⟨_, -, -, hafter⟩ | ⟨r, -, hout, -⟩
    · exact hafter
    · cases he.symm.trans hout
  succeeded := h.succeeded

end InStep

end

/-- After any calls, with any arguments, the parts of a ledger are in step. -/
theorem ledger_consistent (calls : List Call) :
    (builtin.afterAll calls).Consistent (builtinIssued ++ builtin.issued calls) :=
  (InStep.builtin.afterAll calls).consistent

end Ledger

end TypedImp
