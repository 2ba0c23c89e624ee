import TypedImp.Proofs.Machine.Globals
import TypedImp.Proofs.Machine.Parts

/-!
# Soundness

For programs that leave no value out and do not name the type `Comparable`, the types mean what
they say: a checked program gives a whole number, or divides by zero, slices out of bounds or
cannot write, and an expression only ever has values of its type.
-/

namespace TypedImp

/-- Everything has a value, fields are not assigned to, and `Comparable` is not named. -/
def Dialect.strict : Dialect where
  receivers := True
  memberTargets := False
  omits := False
  names := (· ≠ "Comparable")

/-- A value of a built-in class, and in sequences nothing but whole numbers. -/
def Value.Simple (v : Value) : Prop :=
  ∃ d, v = .of d ∧ ∀ items, d = .sequence items → ∀ item ∈ items, ∃ n, item = .integer n

/-- The errors that the types do not rule out. -/
def Error.Benign (e : Error) : Prop :=
  e.toClass ∈ [ErrorClass.divisionByZero, .indexOutOfBounds, .output]

namespace Soundness

open Builtin

/-- A type other than `Comparable` allows for the simple values of the types that it accepts. -/
structure Holds (type : TypeId) (v : Value) : Prop where
  ne_comparable : type ≠ .comparable
  simple : v.Simple
  accepts : type.accepts v.type = true

variable {type : TypeId} {v w : Value}

theorem accepts_iff_of_ne (h : type ≠ .comparable) {source : TypeId} :
    type.accepts source = true ↔ type = source ∨ type = .any := by
  simp [TypeId.accepts, h]

/-! ## Data of one type -/

theorem boolean_of_type {d : Datum} (h : d.type = .boolean) : ∃ b, d = .boolean b := by
  cases d with
  | boolean b => exact ⟨b, rfl⟩
  | _ => cases h

theorem integer_of_type {d : Datum} (h : d.type = .integer) : ∃ n, d = .integer n := by
  cases d with
  | integer n => exact ⟨n, rfl⟩
  | _ => cases h

theorem decimal_of_type {d : Datum} (h : d.type = .decimal) : ∃ a, d = .decimal a := by
  cases d with
  | decimal a => exact ⟨a, rfl⟩
  | _ => cases h

theorem character_of_type {d : Datum} (h : d.type = .character) : ∃ c, d = .character c := by
  cases d with
  | character c => exact ⟨c, rfl⟩
  | _ => cases h

theorem string_of_type {d : Datum} (h : d.type = .string) : ∃ s, d = .string s := by
  cases d with
  | string s => exact ⟨s, rfl⟩
  | _ => cases h

theorem sequence_of_type {d : Datum} (h : d.type = .integerIterable) :
    ∃ items, d = .sequence items := by
  cases d with
  | sequence items => exact ⟨items, rfl⟩
  | _ => cases h

theorem type_ne_comparable (d : Datum) : d.type ≠ .comparable := by
  cases d <;> exact fun h => nomatch h

/-! ## What values the types allow for -/

theorem Holds.datum (h : Holds type v) : ∃ d, v = .of d ∧ type.accepts d.type = true := by
  obtain ⟨d, rfl, -⟩ := h.simple
  exact ⟨d, rfl, h.accepts⟩

/-- A type that is not `Any` allows for the values of one class. -/
theorem Holds.datum_type (h : Holds type v) (hany : type ≠ .any) : v.datum.type = type := by
  obtain ⟨d, rfl, hd⟩ := h.datum
  rcases (accepts_iff_of_ne h.ne_comparable).1 hd with rfl | hd
  · rfl
  · exact (hany hd).elim

theorem holds_of (d : Datum) (hd : ∀ items, d ≠ .sequence items) : Holds d.type (.of d) where
  ne_comparable := type_ne_comparable d
  simple := ⟨d, rfl, fun items h => (hd items h).elim⟩
  accepts := (accepts_iff_of_ne (type_ne_comparable d)).2 (.inl rfl)

theorem holds_boolean (b : Bool) : Holds .boolean (.boolean b) :=
  holds_of (.boolean b) fun _ h => nomatch h

theorem holds_integer (n : Int) : Holds .integer (.integer n) :=
  holds_of (.integer n) fun _ h => nomatch h

theorem holds_decimal (a : Decimal) : Holds .decimal (.decimal a) :=
  holds_of (.decimal a) fun _ h => nomatch h

theorem holds_character (c : Char) : Holds .character (.character c) :=
  holds_of (.character c) fun _ h => nomatch h

theorem holds_string (s : String) : Holds .string (.string s) :=
  holds_of (.string s) fun _ h => nomatch h

theorem holds_nil : Holds .nil .nil :=
  holds_of .nil fun _ h => nomatch h

theorem holds_of_assignable {source : TypeId} (h : Assignable type source)
    (hc : type ≠ .comparable) (hv : Holds source v) : Holds type v := by
  refine ⟨hc, hv.simple, ?_⟩
  cases h with
  | same => exact hv.accepts
  | any => exact (accepts_iff_of_ne hc).2 (.inr rfl)
  | comparable _ => exact (hc rfl).elim

theorem holds_literal {value : Literal} (h : LiteralTyped value type) :
    Holds type (.of value.datum) := by
  cases h with
  | nil => exact holds_nil
  | boolean b => exact holds_boolean b
  | integer _ => exact holds_integer _
  | decimal _ => exact holds_decimal _
  | character c => exact holds_character c
  | string s => exact holds_string s

/-! ## Operations -/

theorem compare_of_type {d e : Datum} (hd : d.type ∈ [.integer, .decimal, .character, .string])
    (he : e.type = d.type) : ∃ ordering, d.compare? e = some ordering := by
  cases d with
  | integer n => obtain ⟨m, rfl⟩ := integer_of_type he; exact ⟨_, rfl⟩
  | decimal a => obtain ⟨b, rfl⟩ := decimal_of_type he; exact ⟨_, rfl⟩
  | character c => obtain ⟨c', rfl⟩ := character_of_type he; exact ⟨_, rfl⟩
  | string s => obtain ⟨s', rfl⟩ := string_of_type he; exact ⟨_, rfl⟩
  | _ => simp [Datum.type, TypeId.nil, TypeId.boolean, TypeId.integerIterable, TypeId.integer,
      TypeId.decimal, TypeId.character, TypeId.string] at hd

theorem ordered_of_comparable (h : Assignable .comparable type) (hc : type ≠ .comparable) :
    type ∈ [.integer, .decimal, .character, .string] := by
  cases h with
  | same => exact (hc rfl).elim
  | comparable h => exact h

theorem relate (operator : Relation) (h : Assignable .comparable type) (hv : Holds type v)
    (hw : Holds type w) : Meets Error.Benign (fun _ => True) (operator.apply v.datum w.datum) := by
  have hordered := ordered_of_comparable h hv.ne_comparable
  have hany : type ≠ .any := by
    rintro rfl
    revert hordered
    decide
  have hvt := hv.datum_type hany
  have hwt := hw.datum_type hany
  obtain ⟨ordering, hcompare⟩ := compare_of_type (hvt ▸ hordered) (hwt.trans hvt.symm)
  cases operator <;> simp [Relation.apply, Relation.ordered, hcompare, Meets]

theorem benign_divisionByZero : Error.Benign .divisionByZero :=
  .head _

theorem calculate {left right : TypeId} {operator : Arithmetic}
    (h : OperatorTyped (.arithmetic operator) left right type) (hv : Holds left v)
    (hw : Holds right w) :
    Meets Error.Benign (fun d => Holds type (.of d)) (operator.apply v.datum w.datum) := by
  cases h with
  | join hs =>
    have hstring : Arithmetic.eitherString v.datum w.datum = true := by
      rcases hs with rfl | rfl
      · obtain ⟨s, hs⟩ := string_of_type (hv.datum_type (by decide))
        rw [hs]
        rfl
      · obtain ⟨s, hs⟩ := string_of_type (hw.datum_type (by decide))
        rw [hs]
        cases v.datum <;> rfl
    rw [Arithmetic.apply, if_pos ⟨rfl, hstring⟩]
    exact holds_string _
  | arithmetic _ hn =>
    rcases hn with rfl | rfl
    · obtain ⟨a, ha⟩ := integer_of_type (hv.datum_type (by decide))
      obtain ⟨b, hb⟩ := integer_of_type (hw.datum_type (by decide))
      rw [ha, hb, Arithmetic.apply, if_neg (by simp [Arithmetic.eitherString])]
      exact (operator.meets_onIntegers benign_divisionByZero a b).bind fun n _ => holds_integer n
    · obtain ⟨a, ha⟩ := decimal_of_type (hv.datum_type (by decide))
      obtain ⟨b, hb⟩ := decimal_of_type (hw.datum_type (by decide))
      rw [ha, hb, Arithmetic.apply, if_neg (by simp [Arithmetic.eitherString])]
      exact (operator.meets_onDecimals benign_divisionByZero a b).bind fun a _ => holds_decimal a

/-! ## Members -/

theorem type_eq_datum_type (h : v.Simple) : v.type = v.datum.type := by
  obtain ⟨d, rfl, -⟩ := h
  rfl

theorem field {name : String} {f : FieldMember} (h : Registry.builtin.field type name = .ok f)
    (hv : Holds type v) :
    Meets Error.Benign (fun found => Meets Error.Benign (Holds f.type) (found.answer f.name v))
      (Registry.builtin.field v.type f.name) := by
  have hf := Registry.hasField_of_field h
  cases hf
  have hvt := hv.datum_type (by decide)
  obtain ⟨text, htext⟩ := string_of_type hvt
  rw [type_eq_datum_type hv.simple, hvt]
  show Meets Error.Benign _ (Registry.builtin.field .string "length")
  rw [h]
  show Meets Error.Benign _ (lengthField.answer "length" v)
  rw [answer_length, htext]
  exact holds_integer _

theorem holds_signIn (hv : Holds type v) (h : type ∈ [.integer, .decimal, .character, .string])
    (ordering : Ordering) : Holds type (signIn v.datum ordering) := by
  simp only [List.mem_cons, List.not_mem_nil, or_false] at h
  rcases h with rfl | rfl | rfl | rfl
  · obtain ⟨n, hn⟩ := integer_of_type (hv.datum_type (by decide))
    rw [hn]
    exact holds_integer _
  · obtain ⟨a, ha⟩ := decimal_of_type (hv.datum_type (by decide))
    rw [ha]
    exact holds_decimal _
  · obtain ⟨c, hc⟩ := character_of_type (hv.datum_type (by decide))
    rw [hc]
    exact holds_character _
  · obtain ⟨s, hs⟩ := string_of_type (hv.datum_type (by decide))
    rw [hs]
    exact holds_string _

theorem method {name : String} {m : MethodMember} {values : List Value}
    (h : Registry.builtin.method type name values.length = .ok m) (hv : Holds type v)
    (hvalues : ValuesFit Holds (m.parameters.drop 1) values) :
    Meets Error.Benign (fun found => Meets Error.Benign (Holds m.result)
      (found.answer m.name v values)) (Registry.builtin.method v.type m.name values.length) := by
  have hm := Registry.hasMethod_of_method h
  have hfit : ∀ i : Nat, ∀ parameter ∈ (m.parameters.drop 1)[i]?, parameter ≠ .comparable →
      ∀ w ∈ values[i]?, Holds parameter w := by
    intro i parameter hp hc w hw
    obtain ⟨source, ha, hs⟩ := hvalues i parameter hp w hw
    exact holds_of_assignable ha hc hs
  rw [type_eq_datum_type hv.simple]
  generalize ha : Function.withReceiver values.length = a at hm
  cases hm with
  | stringify _ =>
    have hs : HasMethod v.datum.type "stringify" (Function.withReceiver values.length)
        stringifyMethod := ha ▸ HasMethod.stringify _
    show Meets Error.Benign _ (Registry.builtin.method v.datum.type "stringify" values.length)
    rw [Registry.method_of_hasMethod_self hs (type_mem_allTypes _)]
    show Meets Error.Benign _ (stringifyMethod.answer "stringify" v values)
    rw [answer_stringify]
    exact holds_string _
  | compare hc =>
    have hordered : type ∈ [.integer, .decimal, .character, .string] :=
      (List.mem_cons.1 hc).resolve_left hv.ne_comparable
    have hany : type ≠ .any := by
      rintro rfl
      revert hordered
      decide
    have hvt := hv.datum_type hany
    obtain ⟨w, rest, rfl⟩ := exists_cons ha
    have hw : Holds type w := hfit 0 type rfl hv.ne_comparable w rfl
    rw [hvt]
    show Meets Error.Benign _ (Registry.builtin.method type "compare" (w :: rest).length)
    rw [h]
    show Meets Error.Benign _ ((compareMethod type).answer "compare" v (w :: rest))
    obtain ⟨ordering, hcompare⟩ :=
      compare_of_type (hvt ▸ hordered) ((hw.datum_type hany).trans hvt.symm)
    rw [answer_compare, hcompare]
    exact holds_signIn hv hordered ordering
  | slice =>
    have hvt := hv.datum_type (by decide)
    obtain ⟨b, e, rest, rfl⟩ := exists_cons_cons ha
    have hb : Holds .integer b := hfit 0 _ rfl (by decide) b rfl
    have he : Holds .integer e := hfit 1 _ rfl (by decide) e rfl
    rw [hvt]
    show Meets Error.Benign _ (Registry.builtin.method .string "slice" (b :: e :: rest).length)
    rw [h]
    show Meets Error.Benign _ (sliceMethod.answer "slice" v (b :: e :: rest))
    rcases answer_slice "slice" v b e rest with
      ⟨text, ht⟩ | ⟨_, _, -, hn⟩ | ⟨start, stop, length, ho⟩
    · rw [ht]
      exact holds_string text
    · exact (hn ⟨hvt, hb.datum_type (by decide), he.datum_type (by decide)⟩).elim
    · rw [ho]
      exact .tail _ (.head _)

theorem eq_of_typeNamed {name : String}
    (h : Registry.builtin.typeNamed? name = some .comparable) : name = "Comparable" := by
  rw [Registry.typeNamed?, Option.map_eq_some_iff] at h
  obtain ⟨i, hi, hc⟩ := h
  cases hc
  obtain ⟨_, hname, -⟩ := List.findIdx?_eq_some_iff_getElem.1 hi
  exact (of_decide_eq_true hname).symm

def discipline : Discipline .builtin where
  dialect := .strict
  holds := Holds
  admits type := type ≠ .comparable
  fails := Error.Benign
  admits_any := by decide
  admits_of_holds h := h.ne_comparable
  admits_of_name hd h := by
    rintro rfl
    exact hd (eq_of_typeNamed h)
  holds_of_assignable := holds_of_assignable
  holds_literal := holds_literal
  holds_boolean := holds_boolean
  holds_nil := holds_nil
  holds_omitted hd _ := hd.elim
  truth hv := by
    obtain ⟨b, hb⟩ := boolean_of_type (hv.datum_type (by decide))
    rw [hb]
    trivial
  relate := relate
  calculate := calculate
  items hv h item hi := by
    obtain ⟨d, rfl, hd⟩ := hv.simple
    obtain ⟨n, rfl⟩ := hd _ h item hi
    exact holds_integer n
  notItems hv h := by
    obtain ⟨items, hitems⟩ := sequence_of_type (hv.datum_type (by decide))
    exact (h items hitems).elim
  output _ := .tail _ (.tail _ (.head _))
  members hv := by
    obtain ⟨d, rfl, -⟩ := hv.simple
    rfl
  field _ := field
  method _ h _ := method h
  memberTarget _ hd := hd.elim

end Soundness

/-- The value is of just the type that the checker knows it by. -/
structure Global.Exact (g : Global) : Prop where
  simple : g.value.Simple
  type_eq : g.value.type = g.target.type

theorem Global.Exact.holds {g : Global} (h : g.Exact) : Soundness.Holds g.target.type g.value := by
  have hne : g.target.type ≠ .comparable := by
    obtain ⟨d, hd, -⟩ := h.simple
    rw [← h.type_eq, hd]
    exact Soundness.type_ne_comparable d
  exact ⟨hne, h.simple, (Soundness.accepts_iff_of_ne hne).2 (.inl h.type_eq.symm)⟩

/-- A checked program that is run with what it was checked with gives a whole number, or divides by
zero, slices out of bounds or cannot write. Whatever expression is evaluated in the course of the
run, its value is of a type that its own type accepts. -/
theorem run_sound {gs gs' : List Global} {c : Checker} {m : Machine} {p : Source.Program}
    {t : Typed.Program} (hc : Checker.Prepared gs c) (hm : Machine.Prepared gs' m)
    (hperm : gs.Perm gs') (hg : ∀ g ∈ gs, g.Exact) (hd : p.Within .strict)
    (ht : ((Typing.checkProgram .builtin p).run c).1 = .ok t) (budget : Budget) :
    (∀ outcome m', (run .builtin budget t).run m = some (outcome, m') →
      (∃ n, outcome = .ok (.integer n)) ∨ ∃ e, outcome = .error e ∧ e.Benign) ∧
    ∀ depth e m₁, Relation.ReflTransGen (Moment.Part .builtin budget.rounds)
        ⟨budget.depth, .program t, m⟩ ⟨depth, .expr e, m₁⟩ →
      ∀ v m₂, (evaluate .builtin ⟨depth, budget.rounds⟩ e).run m₁ = some (.ok v, m₂) →
        e.type.accepts v.type = true := by
  obtain ⟨hsees, -⟩ := hc.sees
  obtain ⟨frame, hframes, -⟩ := Environment.frames_withGlobals gs
  obtain ⟨top, hl, hopens⟩ :=
    opens_of_prepared Soundness.discipline hc hm hperm fun g h => (hg g h).holds
  have htyped : ProgramTyped .builtin (.withGlobals gs) p t := by
    rw [← Typing.gives_checkProgram .builtin hsees (by rw [hframes]; rfl)]
    exact Typing.run_eq_ok.1 ht
  constructor
  · intro outcome m' hrun
    have hmeets := Soundness.discipline.safe_run budget htyped hd hl hopens outcome m' hrun
    cases outcome with
    | ok v =>
      obtain ⟨d, rfl, -⟩ := hmeets.simple
      obtain ⟨n, rfl⟩ := Soundness.integer_of_type (hmeets.datum_type (by decide))
      exact .inl ⟨n, rfl⟩
    | error e => exact .inr ⟨e, rfl, hmeets⟩
  · intro depth e m₁ hparts v m₂ hrun
    have hsound : Soundness.discipline.Sound ⟨budget.depth, .program t, m⟩ :=
      .program htyped hd hl hopens
    exact (Discipline.holds_of_parts hsound hparts hrun).accepts

theorem run_sound_global : ∃ c m t m',
    Checker.initial.defineVariable (.plain "base" .integer) = .ok c ∧
    Machine.initial.defineVariable "base" (.integer 4) = .ok m ∧
    ((Typing.checkProgram .builtin ⟨[], [⟨"main", [], [], some "Integer",
      [.ret (.binary (.arithmetic .add) (.var "base") (.literal (.integer 1)))]⟩]⟩).run c).1 =
        .ok t ∧
    (run .builtin ⟨1, 0⟩ t).run m = some (.ok (.integer 5), m') ∧
    ((∃ n, (.ok (.integer 5) : Except Error Value) = .ok (.integer n)) ∨
      ∃ e, (.ok (.integer 5) : Except Error Value) = .error e ∧ e.Benign) := by
  have hg : ∀ g ∈ [(⟨.plain "base" .integer, .integer 4⟩ : Global)], g.Exact := by
    simp only [List.mem_singleton, forall_eq]
    exact ⟨⟨.integer 4, rfl, fun _ h => nomatch h⟩, rfl⟩
  have hd : Source.Program.Within .strict ⟨[], [⟨"main", [], [], some "Integer",
      [.ret (.binary (.arithmetic .add) (.var "base") (.literal (.integer 1)))]⟩]⟩ := by
    refine ⟨fun _ h => absurd h List.not_mem_nil, fun method hmem => ?_⟩
    cases List.mem_singleton.1 hmem
    refine ⟨by simp, ?_, by simp [Source.BlockWithin, Source.Stmt.Within, Source.Expr.Within]⟩
    rintro _ ⟨⟩
    exact ⟨by simp [Dialect.strict], .inl ⟨_, rfl⟩⟩
  refine ⟨_, _, ⟨[], [⟨.plain "main" [] .integer, [],
    [.ret (.binary (.arithmetic .add) (.var (.plain "base" .integer) .integer)
      (.literal (.integer 1) .integer) .integer)]⟩]⟩, _, rfl, rfl, by rfl, by rfl, ?_⟩
  exact (run_sound (.define .initial rfl) (.define .initial rfl) (.refl _) hg hd (by rfl)
    ⟨1, 0⟩).1 _ _ (by rfl)

end TypedImp
