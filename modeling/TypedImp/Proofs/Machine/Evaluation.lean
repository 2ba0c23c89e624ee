import TypedImp.Proofs.Machine.Discipline

/-!
# Evaluation keeps its types

A well typed expression, evaluated where its environment is, gives a value that its type allows
for, and leaves the machine in its plan (`safe_evaluate`).
-/

namespace TypedImp

namespace Discipline

open Exec Source

variable {r : Registry} (D : Discipline r) {x : Context} {serves : Function → Callable → Prop}
  {top : Scope Variable Callable} {plan : Plan} {s : ScopeId} {env : Environment} {m : Machine}

abbrev Evaluates (top : Scope Variable Callable) (plan : Plan) (s : ScopeId) (step : Exec Value)
    (m : Machine) (type : TypeId) : Prop :=
  Safe D.fails step m fun v m' => D.holds type v ∧ D.Stands top plan s m'

theorem readField_eq {v : Value} (h : v.members = none) (m : Machine) (name : String) :
    m.readField r v name = (r.field v.type name >>= fun found => found.answer name v) := by
  rw [Machine.readField, h]
  rfl

theorem resolveMethod_eq {v : Value} (h : v.members = none) (m : Machine) (name : String)
    (arity : Nat) : m.resolveMethod r v name arity = (r.method v.type name arity >>= fun found =>
      match found.body with
      | some body => .ok (.body body)
      | none => .error (.unknownFunction name arity)) := by
  rw [Machine.resolveMethod, h]
  rfl

/-- A call of a method of a value without members of its own is answered by the type. -/
theorem evaluates_method {type : TypeId} {v : Value} {name : String} {values : List Value}
    (hm : D.Stands top plan s m) (hv : v.members = none) (hx : x.registry = r)
    (h : Meets D.fails (fun found => Meets D.fails (D.holds type) (found.answer name v values))
      (r.method v.type name values.length)) :
    D.Evaluates top plan s (do
      let callable ← (← get).resolveMethod x.registry v name values.length
      x.invoke callable (v :: values)) m type := by
  refine safe_get_bind (safe_lift_bind ?_)
  rw [resolveMethod_eq hv, hx]
  refine h.bind fun found hfound => ?_
  rw [MethodMember.answer] at hfound
  cases hb : found.body with
  | none =>
    rw [hb] at hfound
    exact hfound
  | some body =>
    rw [hb] at hfound
    exact safe_lift (hfound.mono fun w hw => ⟨hw, hm⟩)

/-- An operator gives a value that its result type allows for, if its operands do. -/
theorem evaluates_binary {operator : Operator} {left right : Typed.Expr} {type : TypeId}
    (ho : OperatorTyped operator left.type right.type type)
    (hl : D.Evaluates top plan s (x.evaluate left) m left.type)
    (hr : ∀ {m}, D.Stands top plan s m → D.Evaluates top plan s (x.evaluate right) m right.type) :
    D.Evaluates top plan s (x.evaluate (.binary operator left right type)) m type := by
  cases operator with
  | connective operator =>
    have hbool : left.type = .boolean ∧ right.type = .boolean ∧ type = .boolean := by
      generalize left.type = a, right.type = b at ho
      cases ho
      exact ⟨rfl, rfl, rfl⟩
    obtain ⟨hlb, hrb, rfl⟩ := hbool
    unfold Context.evaluate
    refine safe_bind hl fun v m₁ hv => ?_
    obtain ⟨hv, hm₁⟩ := hv
    rw [hlb] at hv
    refine safe_lift_bind ((D.truth hv).mono fun a _ => ?_)
    split_ifs
    · exact safe_pure ⟨D.holds_boolean a, hm₁⟩
    · refine safe_bind (hr hm₁) fun w m₂ hw => ?_
      obtain ⟨hw, hm₂⟩ := hw
      rw [hrb] at hw
      refine safe_lift_bind ((D.truth hw).mono fun b _ => ?_)
      exact safe_pure ⟨D.holds_boolean b, hm₂⟩
  | relation operator =>
    obtain ⟨hsame, hc, rfl⟩ : right.type = left.type ∧ Assignable .comparable left.type ∧
        type = .boolean := by
      generalize left.type = a, right.type = b at ho
      cases ho with
      | relation _ hc => exact ⟨rfl, hc, rfl⟩
    unfold Context.evaluate
    refine safe_bind hl fun v m₁ hv => ?_
    obtain ⟨hv, hm₁⟩ := hv
    refine safe_bind (hr hm₁) fun w m₂ hw => ?_
    obtain ⟨hw, hm₂⟩ := hw
    rw [hsame] at hw
    refine safe_lift_bind ((D.relate operator hc hv hw).mono fun b _ => ?_)
    exact safe_pure ⟨D.holds_boolean b, hm₂⟩
  | arithmetic operator =>
    unfold Context.evaluate
    refine safe_bind hl fun v m₁ hv => ?_
    obtain ⟨hv, hm₁⟩ := hv
    refine safe_bind (hr hm₁) fun w m₂ hw => ?_
    obtain ⟨hw, hm₂⟩ := hw
    refine safe_lift_bind ((D.calculate ho hv hw).mono fun d hholds => ?_)
    exact safe_pure ⟨hholds, hm₂⟩

mutual

/-- A well typed expression gives a value that its type allows for. -/
theorem safe_evaluate (hx : x.registry = r) (hserves : D.Serving x top serves) :
    ∀ (e : Expr) {t : Typed.Expr} {env : Environment} {m : Machine}, ExprTyped r env e t →
      e.Within D.dialect → plan.Place serves s env → D.Stands top plan s m →
      D.Evaluates top plan s (x.evaluate t) m t.type
  | .literal value, t, env, m, ht, _, _, hm => by
    cases ht with
    | literal h =>
      unfold Context.evaluate
      exact safe_pure ⟨D.holds_literal h, hm⟩
  | .group inner, t, env, m, ht, hd, hp, hm => by
    have ih : ∀ {t}, ExprTyped r env inner t → D.Evaluates top plan s (x.evaluate t) m t.type :=
      fun h => safe_evaluate hx hserves inner h (by simpa only [Expr.Within] using hd) hp hm
    cases ht with
    | group h =>
      unfold Context.evaluate
      exact ih h
  | .binary operator left right, t, env, m, ht, hd, hp, hm => by
    unfold Expr.Within at hd
    cases ht with
    | binary hl hr ho =>
      refine D.evaluates_binary ho (safe_evaluate hx hserves left hl hd.1 hp hm) fun hm₁ => ?_
      exact safe_evaluate hx hserves right hr hd.2 hp hm₁
  | .var name, t, env, m, ht, _, hp, hm => by
    cases ht with
    | @var _ target h =>
      obtain ⟨value, hvalue, hholds⟩ := hm.lookupVariable hp h
      unfold Context.evaluate
      refine safe_get_bind ?_
      rw [hvalue]
      exact safe_lift ⟨hholds, hm⟩
  | .field receiver name, t, env, m, ht, hd, hp, hm => by
    unfold Expr.Within at hd
    cases ht with
    | @field _ receiver' _ target hr h =>
      unfold Context.evaluate
      refine safe_bind (safe_evaluate hx hserves receiver hr hd.2 hp hm) fun v m₁ ⟨hv, hm₁⟩ => ?_
      refine safe_get_bind ?_
      rw [readField_eq (D.members hv), hx]
      refine safe_lift ((D.field hd.1 h hv).bind fun found hfound => ?_)
      exact hfound.mono fun w hw => ⟨hw, hm₁⟩
  | .call name arguments, t, env, m, ht, hd, hp, hm => by
    unfold Expr.Within at hd
    cases ht with
    | @call _ _ arguments' function hs h harity hfit =>
      unfold Context.evaluate
      refine safe_bind (safe_evaluateAll hx hserves arguments hs hd hp hm)
        fun values m₁ ⟨hvalues, hm₁⟩ => ?_
      have hlength : values.length = arguments'.length := hvalues.length_eq.symm
      obtain ⟨callable, hc, hserve⟩ := hm₁.lookupFunction hp h
      refine safe_get_bind (safe_lift_bind ?_)
      rw [hlength, hc]
      exact hserves.safe hserve
        (D.holds_arguments harity hfit (hserves.admits hserve) hvalues) hm₁
  | .method receiver name arguments, t, env, m, ht, hd, hp, hm => by
    unfold Expr.Within at hd
    cases ht with
    | @method _ receiver' _ _ arguments' method hr hs h harity hfit =>
      unfold Context.evaluate
      refine safe_bind (safe_evaluate hx hserves receiver hr hd.2.1 hp hm)
        fun v m₁ ⟨hv, hm₁⟩ => ?_
      refine safe_bind (safe_evaluateAll hx hserves arguments hs hd.2.2 hp hm₁)
        fun values m₂ ⟨hvalues, hm₂⟩ => ?_
      have hlength : values.length = arguments'.length := hvalues.length_eq.symm
      rw [← hlength] at h harity
      exact D.evaluates_method hm₂ (D.members hv) hx
        (D.method hd.1 h harity hv (D.valuesFit hfit hvalues))

theorem safe_evaluateAll (hx : x.registry = r) (hserves : D.Serving x top serves) :
    ∀ (es : List Expr) {ts : List Typed.Expr} {env : Environment} {m : Machine},
      ExprsTyped r env es ts → ExprsWithin D.dialect es → plan.Place serves s env →
      D.Stands top plan s m →
      Safe D.fails (x.evaluateAll ts) m fun values m' =>
        D.HoldAll ts values ∧ D.Stands top plan s m'
  | [], ts, env, m, ht, _, _, hm => by
    cases ht
    unfold Context.evaluateAll
    exact safe_pure ⟨.nil, hm⟩
  | e :: es, ts, env, m, ht, hd, hp, hm => by
    unfold ExprsWithin at hd
    cases ht with
    | cons h hs =>
      unfold Context.evaluateAll
      refine safe_bind (safe_evaluate hx hserves e h hd.1 hp hm) fun v m₁ ⟨hv, hm₁⟩ => ?_
      refine safe_bind (safe_evaluateAll hx hserves es hs hd.2 hp hm₁)
        fun values m₂ ⟨hvalues, hm₂⟩ => ?_
      exact safe_pure ⟨.cons hv hvalues, hm₂⟩

end

end Discipline

end TypedImp
