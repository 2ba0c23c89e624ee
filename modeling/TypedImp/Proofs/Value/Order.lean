import TypedImp.Proofs.Decimal.Cancellation
import TypedImp.Types.Builtin

/-!
# The order of values

Data of one class are compared by the order of that class: truth values, whole numbers, characters
and strings by a linear order, decimals by the numbers that they stand for. The four relations and
the built-in `compare` all tell this one order, each in its own way. Main statement:
`relations_tell_order`.
-/

namespace TypedImp

instance : Std.TransOrd Decimal where
  eq_swap {a b} := by
    rw [Decimal.compare_eq, Decimal.compare_eq b a]
    exact Std.OrientedOrd.eq_swap
  isLE_trans {a b c} := by
    rw [Decimal.compare_eq, Decimal.compare_eq b, Decimal.compare_eq a]
    exact Std.TransOrd.isLE_trans

namespace Datum

variable {a b c : Datum} {o o' : Ordering}

/-- The classes whose data have an order. -/
def orderedClasses : List String :=
  ["boolean", "integer", "decimal", "character", "string"]

/-- The data are of one class, and the class has an order. -/
def Ranked (a b : Datum) : Prop :=
  a.className = b.className ∧ a.className ∈ orderedClasses

/-- Numbers are the same if they stand for the same, whatever their places, and all other data if
they are equal. -/
def SameRank : Datum → Datum → Prop
  | .decimal a, .decimal b => a.value = b.value
  | a, b => (a == b) = true

/-- How the data of a class are ordered. -/
inductive Compared : Datum → Datum → Ordering → Prop where
  | boolean (a b : Bool) : Compared (.boolean a) (.boolean b) (compare a b)
  | integer (a b : Int) : Compared (.integer a) (.integer b) (compare a b)
  | decimal (a b : Decimal) : Compared (.decimal a) (.decimal b) (compare a b)
  | character (a b : Char) : Compared (.character a) (.character b) (compare a b)
  | string (a b : String) : Compared (.string a) (.string b) (compare a b)

theorem compare?_eq_some : a.compare? b = some o ↔ Compared a b o := by
  constructor
  · intro h
    unfold compare? at h
    split at h <;> cases h <;> constructor
  · rintro ⟨⟩ <;> rfl

theorem exists_compared : (∃ o, Compared a b o) ↔ Ranked a b := by
  constructor
  · rintro ⟨_, ⟨⟩⟩ <;> simp [Ranked, className, orderedClasses]
  · rintro ⟨hclass, hmem⟩
    cases a <;> cases b <;> simp [className, orderedClasses] at hclass hmem
    all_goals exact ⟨_, by constructor⟩

theorem compare?_eq_none : a.compare? b = none ↔ ¬ Ranked a b := by
  rw [← exists_compared, Option.eq_none_iff_forall_ne_some]
  simp only [ne_eq, compare?_eq_some, not_exists]

namespace Compared

theorem unique (h : Compared a b o) (h' : Compared a b o') : o = o' :=
  Option.some.inj ((compare?_eq_some.2 h).symm.trans (compare?_eq_some.2 h'))

theorem swap (h : Compared a b o) : Compared b a o.swap := by
  cases h <;> rw [← Std.OrientedOrd.eq_swap] <;> constructor

theorem refl (h : Compared a a o) : o = .eq := by
  cases h <;> exact Std.ReflOrd.compare_self

theorem trans (h : Compared a b o) (ho : o.isLE) (h' : Compared b c o') (ho' : o'.isLE) :
    ∃ o'', Compared a c o'' ∧ o''.isLE := by
  cases h <;> cases h' <;> exact ⟨_, by constructor, Std.TransOrd.isLE_trans ho ho'⟩

theorem eq_iff (h : Compared a b o) : o = .eq ↔ SameRank a b := by
  cases h with
  | decimal a b =>
    rw [Decimal.compare_eq, compare_eq_iff_eq]
    rfl
  | boolean a b | integer a b | character a b | string a b =>
    exact Std.compare_eq_iff_eq.trans beq_iff_eq.symm

end Compared

/-- What tells that a datum is less than, as great as or greater than another one. -/
structure Signs where
  negative : Value
  zero : Value
  positive : Value

/-- The signs of a class. Truth values have those of the whole numbers. -/
def signs : Datum → Signs
  | .decimal _ => ⟨.decimal ⟨-1, 0⟩, .decimal ⟨0, 0⟩, .decimal ⟨1, 0⟩⟩
  | .character _ => ⟨.character '-', .character '0', .character '+'⟩
  | .string _ => ⟨.string "-1", .string "0", .string "1"⟩
  | _ => ⟨.integer (-1), .integer 0, .integer 1⟩

def Signs.tell (s : Signs) : Ordering → Value
  | .lt => s.negative
  | .eq => s.zero
  | .gt => s.positive

theorem signIn_eq (a : Datum) (o : Ordering) : Builtin.signIn a o = a.signs.tell o := by
  cases a <;> cases o <;> rfl

theorem tell_inj (h : a.signs.tell o = a.signs.tell o') : o = o' := by
  cases a <;> cases o <;> cases o' <;>
    simp [signs, Signs.tell, Value.decimal, Value.character, Value.string, Value.integer, Value.of]
      at h ⊢

end Datum

open Datum

/-! ## The relations and `compare` -/

namespace Context

/-- Wherever two operands have these data, relating them ends with this outcome. -/
def Relates (x : Context) (op : Relation) (a b : Datum) (o : Except Error Bool) : Prop :=
  ∀ (left right : Typed.Expr) (type : TypeId) (m m₁ m₂ : Machine), x.Yields left m a m₁ →
    x.Yields right m₁ b m₂ →
    (x.evaluate (.binary (.relation op) left right type)).run m = some (o.map .boolean, m₂)

variable {x : Context} {op : Relation} {a b : Datum} {o : Ordering}

theorem relates (x : Context) (op : Relation) (a b : Datum) : x.Relates op a b (op.apply a b) := by
  rintro left right type m m₁ m₂ ⟨v, hv, rfl⟩ ⟨w, hw, rfl⟩
  rw [evaluate, Exec.run_bind, hv]
  dsimp only [Option.bind_some]
  rw [Exec.run_bind, hw]
  dsimp only [Option.bind_some]
  rw [Exec.run_lift_bind]
  cases op.apply v.datum w.datum <;> rfl

/-- Any two values are those of two variables in some machine. -/
theorem exists_operands (x : Context) (v w : Value) :
    ∃ left right m, x.Yields left m v.datum m ∧ x.Yields right m w.datum m := by
  let m : Machine :=
    { Machine.initial with
      scopes := (Machine.initial.scopes.bindVariable Machine.root "v" v).bindVariable
        Machine.root "w" w }
  refine ⟨.var (.plain "v" .any) .any, .var (.plain "w" .any) .any, m, ⟨v, ?_, rfl⟩, ⟨w, ?_, rfl⟩⟩
  · rw [evaluate]
    rfl
  · rw [evaluate]
    rfl

theorem relates_iff {v w : Value} {o : Except Error Bool} :
    x.Relates op v.datum w.datum o ↔ op.apply v.datum w.datum = o := by
  refine ⟨fun h => ?_, fun h => h ▸ x.relates op _ _⟩
  obtain ⟨left, right, m, hv, hw⟩ := x.exists_operands v w
  have hinj : Function.Injective Value.boolean :=
    fun _ _ h => Datum.boolean.inj (congrArg Value.datum h)
  have hrun := (x.relates op _ _ left right .any m m m hv hw).symm.trans (h _ _ .any _ _ _ hv hw)
  exact map_injective hinj (congrArg Prod.fst (Option.some.inj hrun))

/-- The relations and `compare` all have answers for two values and tell this ordering of them. -/
structure Tells (x : Context) (v w : Value) (o : Ordering) : Prop where
  less : x.Relates .less v.datum w.datum (.ok (o = .lt))
  lessEqual : x.Relates .lessEqual v.datum w.datum (.ok (o ≠ .gt))
  greater : x.Relates .greater v.datum w.datum (.ok (o = .gt))
  greaterEqual : x.Relates .greaterEqual v.datum w.datum (.ok (o ≠ .lt))
  compare : Builtin.comparison [v, w] = .ok (v.datum.signs.tell o)

/-- `<=` holds of the two values. -/
def AtMost (x : Context) (v w : Value) : Prop :=
  x.Relates .lessEqual v.datum w.datum (.ok true)

variable {v w : Value}

theorem comparison_eq (v w : Value) : Builtin.comparison [v, w] =
    match v.datum.compare? w.datum with
    | some o => .ok (v.datum.signs.tell o)
    | none => .error (.operandMismatch "compare" w.datum.className) := by
  simp only [← signIn_eq]
  rfl

theorem tells_iff : x.Tells v w o ↔ Compared v.datum w.datum o := by
  rw [← compare?_eq_some]
  constructor
  · intro h
    have hcompare := h.compare
    rw [comparison_eq] at hcompare
    split at hcompare
    · rename_i o' ho'
      rw [ho', tell_inj (Except.ok.inj hcompare)]
    · cases hcompare
  · intro h
    have hrelates {op : Relation} {t : Bool}
        (hop : op.apply v.datum w.datum = op.ordered v.datum w.datum) (ht : op.holds o = t) :
        x.Relates op v.datum w.datum (.ok t) := by
      rw [relates_iff, hop, Relation.ordered, h]
      exact congrArg Except.ok ht
    refine ⟨hrelates rfl ?_, hrelates rfl ?_, hrelates rfl ?_, hrelates rfl ?_, ?compare⟩
    case compare => rw [comparison_eq, h]
    all_goals cases o <;> rfl

theorem atMost_iff : x.AtMost v w ↔ ∃ o, Compared v.datum w.datum o ∧ o.isLE := by
  rw [AtMost, relates_iff]
  change Relation.lessEqual.ordered v.datum w.datum = _ ↔ _
  unfold Relation.ordered
  cases h : v.datum.compare? w.datum with
  | none =>
    refine iff_of_false nofun ?_
    rintro ⟨o, ho, -⟩
    rw [compare?_eq_some.2 ho] at h
    cases h
  | some o =>
    refine ⟨fun hle => ⟨o, compare?_eq_some.1 h, Except.ok.inj hle⟩, ?_⟩
    rintro ⟨o', ho', hle⟩
    rw [(compare?_eq_some.1 h).unique ho']
    exact congrArg Except.ok hle

theorem relates_of_not_ranked (x : Context) (h : ¬ Ranked v.datum w.datum)
    (hop : op ∈ [Relation.less, .lessEqual, .greater, .greaterEqual]) :
    x.Relates op v.datum w.datum (.error (operandMismatch op.symbol v.datum w.datum)) := by
  have hordered : op.apply v.datum w.datum = op.ordered v.datum w.datum := by
    simp only [List.mem_cons, List.not_mem_nil, or_false] at hop
    rcases hop with rfl | rfl | rfl | rfl <;> rfl
  rw [relates_iff, hordered, Relation.ordered, compare?_eq_none.2 h]

end Context

/-- The four relations and `compare` have answers for the same values, those of one class that has
an order, and all tell the same ordering of them. Told of the values the other way round, it is the
reverse. Values are equal by it if they stand for the same number, or if they are not numbers with
places and are equal. So `<=` is a total preorder on each class. -/
theorem relations_tell_order (x : Context) :
    (∀ v w : Value, (∃ o, x.Tells v w o) ↔ Ranked v.datum w.datum) ∧
    (∀ v w : Value, ¬ Ranked v.datum w.datum →
      (∀ op ∈ [Relation.less, .lessEqual, .greater, .greaterEqual],
        x.Relates op v.datum w.datum (.error (operandMismatch op.symbol v.datum w.datum))) ∧
      Builtin.comparison [v, w] = .error (.operandMismatch "compare" w.datum.className)) ∧
    (∀ v w o, x.Tells v w o → x.Tells w v o.swap ∧ (o = .eq ↔ SameRank v.datum w.datum)) ∧
    (∀ v : Value, Ranked v.datum v.datum → x.AtMost v v) ∧
    (∀ v w : Value, Ranked v.datum w.datum → x.AtMost v w ∨ x.AtMost w v) ∧
    ∀ u v w : Value, x.AtMost u v → x.AtMost v w → x.AtMost u w := by
  refine ⟨fun v w => ?_, fun v w h => ?_, fun v w o h => ?_, fun v h => ?_, fun v w h => ?_,
    fun u v w huv hvw => ?_⟩
  · simp only [Context.tells_iff, exists_compared]
  · refine ⟨fun op hop => x.relates_of_not_ranked h hop, ?_⟩
    rw [Context.comparison_eq, compare?_eq_none.2 h]
  · rw [Context.tells_iff] at h ⊢
    exact ⟨h.swap, h.eq_iff⟩
  · obtain ⟨o, ho⟩ := exists_compared.2 h
    exact Context.atMost_iff.2 ⟨o, ho, ho.refl ▸ rfl⟩
  · obtain ⟨o, ho⟩ := exists_compared.2 h
    rw [Context.atMost_iff, Context.atMost_iff]
    cases o with
    | lt => exact .inl ⟨_, ho, rfl⟩
    | eq => exact .inl ⟨_, ho, rfl⟩
    | gt => exact .inr ⟨_, ho.swap, rfl⟩
  · obtain ⟨o, ho, hle⟩ := Context.atMost_iff.1 huv
    obtain ⟨o', ho', hle'⟩ := Context.atMost_iff.1 hvw
    exact Context.atMost_iff.2 (ho.trans hle ho' hle')

/-- `1.5` and `1.50` are told to be equal, though they are two decimals, and `2` is not compared
with the string `"2"`. -/
theorem relations_tell_order_places :
    let x : Context := ⟨.empty, fun _ _ _ => Exec.exhausted, 0⟩
    let u : Value := .decimal ⟨15, 1⟩
    let v : Value := .decimal ⟨150, 2⟩
    let w : Value := .decimal ⟨2, 0⟩
    let s : Value := .string "2"
    Ranked u.datum v.datum ∧ x.Tells u v .eq ∧ x.Tells v u .eq ∧ (u == v) = false ∧
      x.AtMost u v ∧ x.AtMost v w ∧ x.AtMost u w ∧
      ¬ Ranked w.datum s.datum ∧
      Builtin.comparison [w, s] = .error (.operandMismatch "compare" "string") := by
  intro x u v w s
  obtain ⟨htells, hfails, hswap, -, -, htrans⟩ := relations_tell_order x
  have hranked : Ranked u.datum v.datum := ⟨rfl, by decide⟩
  have hunranked : ¬ Ranked w.datum s.datum := fun h => absurd h.1 (by decide)
  obtain ⟨o, ho⟩ := (htells u v).2 hranked
  have heq : o = .eq := (hswap u v o ho).2.2 (by norm_num [u, v, SameRank, Value.datum,
    Value.decimal, Value.of, Decimal.value])
  subst heq
  have hvw : x.Tells v w .lt := Context.tells_iff.2 (compare?_eq_some.1 (by decide))
  exact ⟨hranked, ho, (hswap u v .eq ho).1, by decide, ho.lessEqual, hvw.lessEqual,
    htrans u v w ho.lessEqual hvw.lessEqual, hunranked, (hfails w s hunranked).2⟩

end TypedImp
