import Mathlib.Data.List.Forall2
import TypedImp.Proofs.Value.Order

/-!
# Equal values

Equality looks at data alone, however deep they are nested: two values are equal if and only if they
are the same once all types and member scopes are taken out (`same_iff`). What is computed from the
data of values is therefore the same for equal ones. Main statement: `equality_congruent`.
-/

namespace TypedImp

/-! ## Plain values -/

mutual

/-- The datum without the types and member scopes of the values inside it. -/
def Datum.plain : Datum → Datum
  | .sequence items => .sequence (itemsPlain items)
  | .nil => .nil
  | .boolean b => .boolean b
  | .integer n => .integer n
  | .decimal d => .decimal d
  | .character c => .character c
  | .string s => .string s

def Value.plain : Value → Value
  | .mk _ datum _ => .mk .any datum.plain none

def itemsPlain : List Value → List Value
  | [] => []
  | v :: vs => v.plain :: itemsPlain vs

end

mutual

theorem Datum.same_iff : ∀ a b : Datum, a.same b = true ↔ a.plain = b.plain
  | .sequence items, b => by
    cases b with
    | sequence items' =>
      rw [Datum.same, Datum.plain, Datum.plain, Datum.sequence.injEq]
      exact sameItems_iff items items'
    | _ => simp [Datum.same, Datum.plain]
  | .nil, b | .boolean _, b | .integer _, b | .decimal _, b | .character _, b | .string _, b => by
    cases b <;> simp [Datum.same, Datum.plain]

theorem Value.same_iff : ∀ v w : Value, v.same w = true ↔ v.plain = w.plain
  | .mk _ a _, .mk _ b _ => by
    rw [Value.same, Value.plain, Value.plain, Datum.same_iff a b]
    simp

theorem sameItems_iff : ∀ vs ws : List Value, sameItems vs ws = true ↔ itemsPlain vs = itemsPlain ws
  | [], [] => by simp [sameItems, itemsPlain]
  | [], _ :: _ | _ :: _, [] => by simp [sameItems, itemsPlain]
  | v :: vs, w :: ws => by
    rw [sameItems, itemsPlain, itemsPlain, Bool.and_eq_true, Value.same_iff v w,
      sameItems_iff vs ws, List.cons.injEq]

end

mutual

theorem Datum.toText_plain : ∀ d : Datum, d.plain.toText = d.toText
  | .sequence items => by
    rw [Datum.plain, Datum.toText, Datum.toText, itemTexts_plain items]
  | .nil | .boolean _ | .integer _ | .decimal _ | .character _ | .string _ => rfl

theorem Value.toText_plain : ∀ v : Value, v.plain.toText = v.toText
  | .mk _ d _ => by
    rw [Value.plain, Value.toText, Value.toText, Datum.toText_plain d]

theorem itemTexts_plain (vs : List Value) : itemTexts (itemsPlain vs) = itemTexts vs := by
  cases vs with
  | nil => rfl
  | cons v vs => rw [itemsPlain, itemTexts, itemTexts, Value.toText_plain v, itemTexts_plain vs]

end

theorem Value.datum_plain (v : Value) : v.plain.datum = v.datum.plain := by
  cases v
  rfl

namespace Datum

theorem className_plain (d : Datum) : d.plain.className = d.className := by
  cases d <;> rfl

theorem compare?_plain (a b : Datum) : a.plain.compare? b.plain = a.compare? b := by
  cases a <;> cases b <;> rfl

theorem eitherString_plain (a b : Datum) :
    Arithmetic.eitherString a.plain b.plain = Arithmetic.eitherString a b := by
  cases a <;> cases b <;> rfl

theorem onNumbers_plain (op : Arithmetic) (a b : Datum) :
    op.onNumbers a.plain b.plain = op.onNumbers a b := by
  cases a <;> cases b <;> rfl

theorem apply_plain (op : Arithmetic) (a b : Datum) : op.apply a.plain b.plain = op.apply a b := by
  rw [Arithmetic.apply, Arithmetic.apply, eitherString_plain, onNumbers_plain, toText_plain,
    toText_plain]

end Datum

/-! ## Equal values -/

theorem sameItems_iff_forall₂ : ∀ vs ws : List Value,
    sameItems vs ws = true ↔ List.Forall₂ (fun v w => (v == w) = true) vs ws
  | [], [] => by simp [sameItems]
  | [], _ :: _ | _ :: _, [] => by simp [sameItems]
  | v :: vs, w :: ws => by
    rw [sameItems, Bool.and_eq_true, List.forall₂_cons, sameItems_iff_forall₂ vs ws]
    rfl

/-- What is read off from data gives the same for both values. -/
structure Value.Indistinct (v w : Value) : Prop where
  className : v.datum.className = w.datum.className
  text : v.toText = w.toText
  compare (o : Ordering) (h : v.datum.compare? w.datum = some o) : o = .eq
  print (rest : List Value) : Exec.print (v :: rest) = Exec.print (w :: rest)
  stringify : Builtin.stringify [v] = Builtin.stringify [w]
  /-- In an operation with any datum, either value can stand for the other on either side. -/
  operand (op : Arithmetic) (d : Datum) :
    op.apply v.datum d = op.apply w.datum d ∧ op.apply d v.datum = op.apply d w.datum

theorem Value.indistinct_of_same {v w : Value} (h : v.same w = true) : v.Indistinct w := by
  have hplain := (Value.same_iff v w).1 h
  have hdatum : v.datum.plain = w.datum.plain := by
    rw [← Value.datum_plain, hplain, Value.datum_plain]
  have htext : v.toText = w.toText := by
    rw [← Value.toText_plain, hplain, Value.toText_plain]
  refine ⟨?_, htext, fun o ho => ?_, fun rest => ?_, ?_, fun op d => ⟨?_, ?_⟩⟩
  · rw [← Datum.className_plain, hdatum, Datum.className_plain]
  · rw [← Datum.compare?_plain, ← hdatum, Datum.compare?_plain] at ho
    exact (Datum.compare?_eq_some.1 ho).refl
  · simp only [Exec.print, htext]
  · change Except.ok (Value.string v.toText) = Except.ok (Value.string w.toText)
    rw [htext]
  · rw [← Datum.apply_plain, hdatum, Datum.apply_plain]
  · rw [← Datum.apply_plain, hdatum, Datum.apply_plain]

/-- What `==` answers is an equivalence of values that pays no attention to types and member scopes.
Equal values are of one class, have one text and cannot be told apart by what works on data, and
sequences are equal if and only if they are item by item. -/
theorem equality_congruent (x : Context) :
    (∀ v w : Value, x.Relates .equal v.datum w.datum (.ok (v == w)) ∧
      x.Relates .notEqual v.datum w.datum (.ok (v != w))) ∧
    (∀ v : Value, (v == v) = true) ∧
    (∀ v w : Value, (v == w) = true → (w == v) = true) ∧
    (∀ u v w : Value, (u == v) = true → (v == w) = true → (u == w) = true) ∧
    (∀ (t t' : TypeId) (d d' : Datum) (s s' : Option ScopeId),
      (Value.mk t d s == Value.mk t' d' s') = (d == d')) ∧
    (∀ v w : Value, (v == w) = true → v.Indistinct w) ∧
    ∀ vs ws : List Value, (Datum.sequence vs == Datum.sequence ws) = true ↔
      vs.length = ws.length ∧
        ∀ i (h : i < vs.length) (h' : i < ws.length), (vs[i] == ws[i]) = true := by
  have hsame (v w : Value) : (v == w) = true ↔ v.plain = w.plain := Value.same_iff v w
  refine ⟨fun v w => ⟨?_, ?_⟩, fun v => (hsame v v).2 rfl, fun v w h => ?_,
    fun u v w huv hvw => ?_, fun _ _ d d' _ _ => ?_, fun v w => Value.indistinct_of_same,
    fun vs ws => ?_⟩
  · rw [Context.relates_iff]
    cases v
    cases w
    rfl
  · rw [Context.relates_iff]
    cases v
    cases w
    rfl
  · rw [hsame] at h ⊢
    exact h.symm
  · rw [hsame] at huv hvw ⊢
    exact huv.trans hvw
  · change Value.same _ _ = d.same d'
    rw [Value.same]
  · change Datum.same _ _ = true ↔ _
    rw [Datum.same, sameItems_iff_forall₂, List.forall₂_iff_get]
    rfl

/-- The sequences of an object and of a plain value, with objects in different places of them. -/
theorem equality_congruent_nested :
    let v : Value :=
      .object ⟨9⟩ (.sequence [.integer 1, .object ⟨10⟩ (.sequence [.string "a"]) ⟨1⟩]) ⟨2⟩
    let w : Value := .of (.sequence [.object ⟨11⟩ (.integer 1) ⟨3⟩, .of (.sequence [.string "a"])])
    (v == w) = true ∧ (w == v) = true ∧ v.Indistinct w ∧ v.toText = "[1, [a]]" ∧
      Arithmetic.add.apply w.datum (.string "!") = .ok (.string "[1, [a]]!") := by
  intro v w
  have h : (v == w) = true := by decide
  obtain ⟨-, -, hsymm, -, -, hindistinct, -⟩ :=
    equality_congruent ⟨.empty, fun _ _ _ => Exec.exhausted, 0⟩
  have hvw := hindistinct v w h
  refine ⟨h, hsymm v w h, hvw, by decide, ?_⟩
  rw [← (hvw.operand .add (.string "!")).1]
  rfl

end TypedImp
