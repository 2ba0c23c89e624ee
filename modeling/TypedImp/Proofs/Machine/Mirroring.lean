import TypedImp.Proofs.Machine.Globals
import TypedImp.Proofs.Types.Memberless

/-!
# Runs mirror the check

Whatever values the variables have, the scopes of a run bind the names that the check had bound.
So a checked program finds what it names and defines nothing twice: only a single
operation can fail, for the class of its operands, and that of a member for its receiver's.
-/

namespace TypedImp

/-- There are fields and methods if `members` holds, and all else. -/
def Dialect.free (members : Prop) : Dialect where
  receivers := members
  memberTargets := members
  omits := True
  names _ := True

inductive Value.Plain : Value → Prop
  | of (d : Datum) (h : ∀ items, d = .sequence items → ∀ item ∈ items, Plain item) : Plain (.of d)

namespace Mirroring

open Builtin

/-- The errors of single operations, those of members only if there are any. -/
inductive Fails (members : Prop) : Error → Prop
  | typeMismatch (expected received : String) : Fails members (.typeMismatch expected received)
  | operandMismatch (operator received : String) :
      Fails members (.operandMismatch operator received)
  | divisionByZero : Fails members .divisionByZero
  | outputFailed (reason : String) : Fails members (.outputFailed reason)
  | unknownVariable (h : members) (name : String) : Fails members (.unknownVariable name)
  | unknownFunction (h : members) (name : String) (arity : Nat) :
      Fails members (.unknownFunction name arity)
  | indexOutOfBounds (h : members) (start stop : String) (length : Nat) :
      Fails members (.indexOutOfBounds start stop length)

variable {members : Prop} {r : Registry} {type : TypeId} {v : Value}

theorem plain_of (d : Datum) (hd : ∀ items, d ≠ .sequence items) : (Value.of d).Plain :=
  .of d fun items h => (hd items h).elim

theorem plain_boolean (b : Bool) : (Value.boolean b).Plain :=
  plain_of _ fun _ h => nomatch h

theorem plain_integer (n : Int) : (Value.integer n).Plain :=
  plain_of _ fun _ h => nomatch h

theorem plain_decimal (a : Decimal) : (Value.decimal a).Plain :=
  plain_of _ fun _ h => nomatch h

theorem plain_string (s : String) : (Value.string s).Plain :=
  plain_of _ fun _ h => nomatch h

theorem plain_nil : Value.nil.Plain :=
  plain_of _ fun _ h => nomatch h

theorem plain_literal (value : Literal) : (Value.of value.datum).Plain :=
  plain_of _ fun _ h => by cases value <;> cases h

theorem plain_signIn (d : Datum) (ordering : Ordering) : (signIn d ordering).Plain := by
  cases d <;> exact plain_of _ fun _ h => nomatch h

theorem type_mem (hv : v.Plain) : v.type ∈ allTypes := by
  cases hv with
  | of d _ => exact type_mem_allTypes d

/-! ## Operations -/

theorem truth (d : Datum) : Meets (Fails members) (fun _ => True) d.toBool := by
  cases d with
  | boolean b => trivial
  | _ => exact .typeMismatch _ _

theorem relate (operator : Relation) (d e : Datum) :
    Meets (Fails members) (fun _ => True) (operator.apply d e) := by
  have hordered : Meets (Fails members) (fun _ => True) (operator.ordered d e) := by
    rw [Relation.ordered]
    cases d.compare? e with
    | none => exact .operandMismatch _ _
    | some ordering => trivial
  cases operator with
  | equal | notEqual => trivial
  | _ => exact hordered

theorem calculate (operator : Arithmetic) (d e : Datum) :
    Meets (Fails members) (fun d => (Value.of d).Plain) (operator.apply d e) := by
  rw [Arithmetic.apply]
  split_ifs with hs
  · exact plain_string _
  · rw [Arithmetic.onNumbers.eq_def]
    split
    · rename_i a b
      exact (operator.meets_onIntegers .divisionByZero a b).bind fun n _ => plain_integer n
    · rename_i a b
      exact (operator.meets_onDecimals .divisionByZero a b).bind fun a _ => plain_decimal a
    · exact .operandMismatch _ _

/-! ## Members -/

theorem field {name : String} {f : FieldMember} (hr : r.Memberless) (hmembers : members)
    (h : r.field type name = .ok f) (hv : v.Plain) :
    Meets (Fails members) (fun found => Meets (Fails members) Value.Plain (found.answer f.name v))
      (r.field v.type f.name) := by
  obtain ⟨type', hf⟩ := hr.field_of h
  have hfield := Registry.hasField_of_field hf
  rw [hr.field_eq (type_mem hv), hfield.name_eq]
  rcases Registry.field_of_hasField hfield (type_mem hv) with hok | herror
  · rw [hok]
    cases hfield
    show Meets _ _ (lengthField.answer "length" v)
    rw [answer_length]
    cases v.datum with
    | string text => exact plain_integer _
    | _ => exact .typeMismatch _ _
  · rw [herror]
    exact .unknownVariable hmembers _

theorem answer {name : String} {values : List Value} {m : MethodMember} (hmembers : members)
    (h : HasMethod type name (Function.withReceiver values.length) m) :
    Meets (Fails members) Value.Plain (m.answer name v values) := by
  generalize ha : Function.withReceiver values.length = a at h
  cases h with
  | stringify _ => exact plain_string _
  | compare _ =>
    obtain ⟨w, rest, rfl⟩ := exists_cons ha
    rw [answer_compare]
    cases v.datum.compare? w.datum with
    | none => exact .operandMismatch _ _
    | some ordering => exact plain_signIn _ _
  | slice =>
    obtain ⟨b, e, rest, rfl⟩ := exists_cons_cons ha
    rcases answer_slice "slice" v b e rest with
      ⟨text, ht⟩ | ⟨_, _, hn, -⟩ | ⟨start, stop, length, ho⟩
    · rw [ht]
      exact plain_string text
    · rw [hn]
      exact .typeMismatch _ _
    · rw [ho]
      exact .indexOutOfBounds hmembers _ _ _

theorem method {name : String} {values : List Value} {m : MethodMember} (hr : r.Memberless)
    (hmembers : members) (h : r.method type name values.length = .ok m) (hv : v.Plain) :
    Meets (Fails members)
      (fun found => Meets (Fails members) Value.Plain (found.answer m.name v values))
      (r.method v.type m.name values.length) := by
  obtain ⟨type', hm⟩ := hr.method_of h
  have hmethod := Registry.hasMethod_of_method hm
  rw [hr.method_eq (type_mem hv), hmethod.name_eq]
  rcases Registry.method_of_hasMethod hmethod (type_mem hv) with ⟨m', hok⟩ | herror
  · rw [hok]
    exact answer hmembers (Registry.hasMethod_of_method hok)
  · rw [herror]
    exact .unknownFunction hmembers _ _

def discipline (hr : r.Memberless) (members : Prop) : Discipline r where
  dialect := .free members
  holds _ v := v.Plain
  admits _ := True
  fails := Fails members
  admits_any := trivial
  admits_of_holds _ := trivial
  admits_of_name _ _ := trivial
  holds_of_assignable _ _ hv := hv
  holds_literal _ := plain_literal _
  holds_boolean := plain_boolean
  holds_nil := plain_nil
  holds_omitted _ _ := plain_nil
  truth _ := truth _
  relate operator _ _ _ := relate operator _ _
  calculate _ _ _ := calculate _ _ _
  items hv h := by
    cases hv with
    | of d hd => exact hd _ h
  notItems _ _ := .typeMismatch _ _
  output := .outputFailed
  members hv := by
    cases hv with
    | of d _ => rfl
  field hd := field hr hd
  method hd h _ hv _ := method hr hd h hv
  memberTarget name hd := .unknownVariable hd name

end Mirroring

/-! ## Programs -/

/-- The errors that a run of a checked program can end in where it has no receivers. -/
def Error.Operational (e : Error) : Prop :=
  (∃ expected received, e = .typeMismatch expected received) ∨
    (∃ operator received, e = .operandMismatch operator received) ∨
    e = .divisionByZero ∨ ∃ reason, e = .outputFailed reason

/-- However a checked program is run, no name is unknown that the check found, nothing is defined
twice and nothing is called with a wrong number of arguments. -/
theorem run_mirrors {r : Registry} (hr : r.Memberless) {gs gs' : List Global} {c : Checker}
    {m m' : Machine} {p : Source.Program} {t : Typed.Program} {e : Error}
    (hc : Checker.Prepared gs c) (hm : Machine.Prepared gs' m) (hperm : gs.Perm gs')
    (hg : ∀ g ∈ gs, g.value.Plain) (ht : ((Typing.checkProgram r p).run c).1 = .ok t)
    (budget : Budget) (hrun : (run r budget t).run m = some (.error e, m')) :
    (e.toClass ∉ [.duplicateDefinition, .arity, .internalConsistency, .missingEntryPoint] ∧
      (∀ reason, e ≠ .invalidStatement reason) ∧ ∀ reason, e ≠ .invalidExpression reason) ∧
    (p.Within (.free False) → e.Operational) := by
  obtain ⟨hsees, -⟩ := hc.sees
  obtain ⟨frame, hframes, -⟩ := Environment.frames_withGlobals gs
  have htyped : ProgramTyped r (.withGlobals gs) p t := by
    rw [← Typing.gives_checkProgram hr.reachable hsees (by rw [hframes]; rfl)]
    exact Typing.run_eq_ok.1 ht
  have hfails : ∀ members, p.Within (.free members) → Mirroring.Fails members e := by
    intro members hd
    obtain ⟨top, hl, hopens⟩ :=
      opens_of_prepared (Mirroring.discipline hr members) hc hm hperm hg
    exact (Mirroring.discipline hr members).safe_run budget htyped hd hl hopens _ m' hrun
  refine ⟨?_, fun hd => ?_⟩
  · cases hfails True (Source.within_of_total ⟨trivial, trivial, trivial, fun _ => trivial⟩ p) <;>
      exact ⟨by simp [Error.toClass], fun _ => nofun, fun _ => nofun⟩
  · cases hfails False hd with
    | typeMismatch expected received => exact .inl ⟨expected, received, rfl⟩
    | operandMismatch operator received => exact .inr (.inl ⟨operator, received, rfl⟩)
    | divisionByZero => exact .inr (.inr (.inl rfl))
    | outputFailed reason => exact .inr (.inr (.inr ⟨reason, rfl⟩))
    | unknownVariable h | unknownFunction h | indexOutOfBounds h => exact h.elim

theorem run_mirrors_omitted : ∃ r p t e m',
    Registry.builtin.registerType "Shape" "Shape" .any = .ok r ∧ Typing.check r p = .ok t ∧
    (run r ⟨1, 0⟩ t).run .initial = some (.error e, m') ∧
    e.toClass ∉ [.duplicateDefinition, .arity, .internalConsistency, .missingEntryPoint] := by
  have hr : Registry.builtin.registerType "Shape" "Shape" .any =
      .ok (Registry.builtin.addType "Shape" "Shape" (some ⟨0⟩)) := by rfl
  have ht : Typing.check (Registry.builtin.addType "Shape" "Shape" (some ⟨0⟩))
      ⟨[⟨"base", some "Integer", none⟩, ⟨"shape", some "Shape", none⟩],
        [⟨"main", [], [], some "Integer",
          [.ret (.binary (.arithmetic .add) (.var "base") (.literal (.integer 1)))]⟩]⟩ =
      .ok ⟨[⟨.plain "base" .integer, none⟩, ⟨.plain "shape" ⟨9⟩, none⟩],
        [⟨.plain "main" [] .integer, [], [.ret (.binary (.arithmetic .add)
          (.var (.plain "base" .integer) .integer) (.literal (.integer 1) .integer)
          .integer)]⟩]⟩ := by
    rfl
  refine ⟨_, _, _, .operandMismatch "+" "nil and integer", _, hr, ht, by rfl, ?_⟩
  exact (run_mirrors (.registerType .builtin hr) .initial .initial (.refl _) (by simp) ht ⟨1, 0⟩
    (by rfl)).1.1

end TypedImp
