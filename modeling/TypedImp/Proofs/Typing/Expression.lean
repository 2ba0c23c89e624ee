import TypedImp.Proofs.Outcome
import TypedImp.Proofs.Typing.Judgement
import TypedImp.Proofs.Typing.Sees
import TypedImp.Proofs.Types.Reachable
import TypedImp.Typing.Expr

/-!
# Checking expressions follows the rules

A check that stands in an environment accepts exactly the expressions that the rules accept there,
and decorates them as the rules do (`checkExpr_eq_ok`).
-/

namespace TypedImp

namespace Typing

variable {r : Registry} {c : Checker} {env : Environment}

theorem accepts_iff {target source : TypeId} :
    target.accepts source = true ↔ Assignable target source := by
  constructor
  · intro h
    simp only [TypeId.accepts, TypeId.isComparable, Bool.or_eq_true, Bool.and_eq_true,
      decide_eq_true_eq] at h
    rcases h with (rfl | rfl) | ⟨rfl, ((rfl | rfl) | rfl) | rfl⟩
    · exact .same _
    · exact .any _
    all_goals exact .comparable (by simp)
  · rintro (_ | _ | h)
    · simp [TypeId.accepts]
    · simp [TypeId.accepts]
    · simp only [List.mem_cons, List.not_mem_nil, or_false] at h
      rcases h with rfl | rfl | rfl | rfl <;> rfl

theorem requireAssignable_eq_ok {target source : TypeId} {u : Unit} :
    r.requireAssignable target source = .ok u ↔ Assignable target source := by
  rw [← accepts_iff, Registry.requireAssignable]
  split_ifs with h <;> simp [h]

theorem check_eq_ok {value : Literal} {type : TypeId} :
    value.check = .ok type ↔ LiteralTyped value type := by
  constructor
  · intro h
    cases value with
    | integer n =>
      simp only [Literal.check] at h
      split_ifs at h with hn
      cases h
      exact .integer (by simpa [Literal.inIntegerRange] using hn)
    | decimal d =>
      simp only [Literal.check] at h
      split_ifs at h with hd
      cases h
      exact .decimal (Decimal.inRange_iff.1 hd)
    | nil => cases h; exact .nil
    | boolean b => cases h; exact .boolean b
    | character ch => cases h; exact .character ch
    | string s => cases h; exact .string s
  · intro h
    cases h with
    | integer hn => simp [Literal.check, Literal.inIntegerRange, hn]
    | decimal hd => simp [Literal.check, Decimal.inRange_iff.2 hd]
    | _ => rfl

theorem isNumeric_iff {type : TypeId} :
    type.isNumeric = true ↔ type = .integer ∨ type = .decimal := by
  simp [TypeId.isNumeric]

theorem checkOperator_eq_ok {left right type : TypeId} {operator : Operator} :
    checkOperator r left right operator = .ok type ↔ OperatorTyped operator left right type := by
  cases operator with
  | connective op =>
    simp only [checkOperator, bind_eq_ok, requireAssignable_eq_ok, pure_eq_ok]
    constructor
    · rintro ⟨-, hl, -, hr, rfl⟩
      cases hl
      cases hr
      exact .connective op
    · intro h
      cases h
      exact ⟨(), .same _, (), .same _, rfl⟩
  | relation op =>
    simp only [checkOperator, bind_eq_ok, requireAssignable_eq_ok]
    constructor
    · rintro ⟨-, hl, -, hr, h⟩
      split_ifs at h with heq
      · cases h
        subst heq
        exact .relation op hl
    · intro h
      cases h with
      | relation _ hc => exact ⟨(), hc, (), hc, by simp [pure_eq_ok]⟩
  | arithmetic op =>
    simp only [checkOperator]
    constructor
    · intro h
      split at h
      · rename_i hj
        cases h
        obtain ⟨rfl, hs⟩ := hj
        exact .join hs
      · split at h
        · cases h
        · rename_i hn
          split at h
          · rename_i heq
            cases h
            subst heq
            exact .arithmetic op (isNumeric_iff.1 (by simpa using hn))
          · cases h
    · intro h
      cases h with
      | join hs => rw [if_pos ⟨rfl, hs⟩]
      | arithmetic _ hn =>
        have hs : ¬ (left = .string ∨ left = .string) := by
          rcases hn with rfl | rfl <;> decide
        rw [if_neg fun hj => hs hj.2, if_neg (by simp [isNumeric_iff.2 hn]), if_pos rfl]

theorem requireArguments_eq_ok {u : Unit} : ∀ {parameters : List TypeId}
    {arguments : List Typed.Expr},
    requireArguments r parameters arguments = .ok u ↔ ArgumentsFit parameters arguments
  | [], arguments => by simp [requireArguments, ArgumentsFit]
  | _ :: _, [] => by simp [requireArguments, ArgumentsFit]
  | parameter :: parameters, argument :: arguments => by
    simp only [requireArguments, bind_eq_ok, requireAssignable_eq_ok, requireArguments_eq_ok]
    constructor
    · rintro ⟨-, h, hs⟩ i
      rcases i with _ | i
      · rintro _ ⟨⟩ _ ⟨⟩
        exact h
      · exact hs i
    · intro h
      exact ⟨(), h 0 _ rfl _ rfl, fun i => h (i + 1)⟩

mutual

/-- Checking an expression succeeds exactly where the rules allow it. -/
theorem checkExpr_eq_ok (hr : r.Reachable) (h : c.Sees env) : ∀ (e : Source.Expr) {t : Typed.Expr},
    checkExpr r c e = .ok t ↔ ExprTyped r env e t
  | .literal value, t => by
    simp only [checkExpr, bind_eq_ok, pure_eq_ok, check_eq_ok]
    constructor
    · rintro ⟨type, hv, rfl⟩
      exact .literal hv
    · rintro (_ | _)
      exact ⟨_, ‹_›, rfl⟩
  | .group inner, t => by
    have ih : ∀ {t' : Typed.Expr}, checkExpr r c inner = .ok t' ↔ ExprTyped r env inner t' :=
      checkExpr_eq_ok hr h inner
    unfold checkExpr
    constructor
    · intro ht
      cases inner with
      | binary op left right =>
        simp only [Source.Expr.isBinary, Bool.not_true, Bool.false_eq_true, if_false, bind_eq_ok,
          pure_eq_ok, ih] at ht
        obtain ⟨t', ht', rfl⟩ := ht
        exact .group ht'
      | _ => cases ht
    · rintro (_ | ht)
      simp only [Source.Expr.isBinary, Bool.not_true, Bool.false_eq_true, if_false, bind_eq_ok,
        pure_eq_ok, ih]
      exact ⟨_, ht, rfl⟩
  | .binary op left right, t => by
    simp only [checkExpr, bind_eq_ok, pure_eq_ok, checkExpr_eq_ok hr h left,
      checkExpr_eq_ok hr h right, checkOperator_eq_ok]
    constructor
    · rintro ⟨l, hl, t', hr', type, ho, rfl⟩
      exact .binary hl hr' ho
    · rintro (_ | _ | ⟨hl, hr', ho⟩)
      exact ⟨_, hl, _, hr', _, ho, rfl⟩
  | .var name, t => by
    simp only [checkExpr, bind_eq_ok, pure_eq_ok, h.lookupVariable]
    constructor
    · rintro ⟨v, hv, rfl⟩
      exact .var hv
    · rintro (_ | _ | _ | hv)
      exact ⟨_, hv, rfl⟩
  | .field receiver name, t => by
    simp only [checkExpr, bind_eq_ok, pure_eq_ok, checkExpr_eq_ok hr h receiver]
    constructor
    · rintro ⟨e, he, target, hf, rfl⟩
      exact .field he hf
    · intro ht
      cases ht with
      | field he hf => exact ⟨_, he, _, hf, rfl⟩
  | .call name arguments, t => by
    simp only [checkExpr, bind_eq_ok, pure_eq_ok, checkExprs_eq_ok hr h arguments,
      h.lookupFunction, requireArguments_eq_ok]
    constructor
    · rintro ⟨ts, hs, f, hf, -, hfit, rfl⟩
      exact .call hs hf (h.arity_of_function hf) hfit
    · intro ht
      cases ht with
      | call hs hf _ hfit => exact ⟨_, hs, _, hf, (), hfit, rfl⟩
  | .method receiver name arguments, t => by
    simp only [checkExpr, bind_eq_ok, pure_eq_ok, checkExpr_eq_ok hr h receiver,
      checkExprs_eq_ok hr h arguments, requireArguments_eq_ok]
    constructor
    · rintro ⟨e, he, ts, hs, m, hm, -, hfit, rfl⟩
      exact .method he hs hm (hr.arity_of_method hm) hfit
    · intro ht
      cases ht with
      | method he hs hm _ hfit => exact ⟨_, he, _, hs, _, hm, (), hfit, rfl⟩

theorem checkExprs_eq_ok (hr : r.Reachable) (h : c.Sees env) :
    ∀ (es : List Source.Expr) {ts : List Typed.Expr},
    checkExprs r c es = .ok ts ↔ ExprsTyped r env es ts
  | [], ts => by
    simp only [checkExprs, Except.ok.injEq]
    constructor
    · rintro rfl
      exact .nil
    · rintro (_ | _)
      rfl
  | e :: es, ts => by
    simp only [checkExprs, bind_eq_ok, pure_eq_ok, checkExpr_eq_ok hr h e,
      checkExprs_eq_ok hr h es]
    constructor
    · rintro ⟨t, ht, ts', hs, rfl⟩
      exact .cons ht hs
    · intro ht
      cases ht with
      | cons ht hs => exact ⟨_, ht, _, hs, rfl⟩

end

end Typing

end TypedImp
