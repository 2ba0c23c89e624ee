import Mathlib.Algebra.Order.Round
import Mathlib.Data.Rat.Floor
import TypedImp.Decimal.Division
import TypedImp.Proofs.Decimal.Value

/-!
# Quotients are rounded to the nearest decimal

A quotient has the places of its dividend, and of all decimals with these places it is the one
nearest to the exact quotient; of two as near, the one with even digits (`divide_rounds`).
-/

namespace TypedImp

/-- The whole number `q` is the nearest one to `x`, and even if another one is as near. -/
structure NearestEven (x : ℚ) (q : ℤ) : Prop where
  nearest (k : ℤ) : |x - q| ≤ |x - k|
  even (k : ℤ) (hne : k ≠ q) (h : |x - k| = |x - q|) : Even q

namespace NearestEven

variable {x : ℚ} {p q : ℤ}

theorem one_le_abs_sub (h : p ≠ q) : (1 : ℚ) ≤ |x - p| + |x - q| := by
  have hpq : (1 : ℤ) ≤ |p - q| := Int.one_le_abs (sub_ne_zero.2 h)
  have htri : |(p : ℚ) - q| ≤ |p - x| + |x - q| := abs_sub_le _ _ _
  rw [abs_sub_comm (p : ℚ) x] at htri
  exact le_trans (by exact_mod_cast hpq) htri

/-- Half a unit away from a number, there is only one other that is as near. -/
theorem of_half (half : |x - q| ≤ 1 / 2) (tie : |x - q| = 1 / 2 → Even q) : NearestEven x q where
  nearest k := by
    by_cases hk : k = q
    · rw [hk]
    · linarith [one_le_abs_sub (x := x) hk]
  even k hne h := by
    refine tie (le_antisymm half ?_)
    linarith [one_le_abs_sub (x := x) hne]

theorem half (h : NearestEven x q) : |x - q| ≤ 1 / 2 :=
  (h.nearest (round x)).trans (abs_sub_round x)

theorem unique (hp : NearestEven x p) (hq : NearestEven x q) : p = q := by
  by_contra hne
  have heq : |x - p| = |x - q| := le_antisymm (hp.nearest q) (hq.nearest p)
  have htri : |(p : ℚ) - q| ≤ |p - x| + |x - q| := abs_sub_le _ _ _
  rw [abs_sub_comm (p : ℚ) x] at htri
  have hle : |p - q| ≤ 1 := by
    have : |(p : ℚ) - q| ≤ 1 := by linarith [hp.half, hq.half]
    exact_mod_cast this
  obtain ⟨i, hi⟩ := hp.even q (Ne.symm hne) heq.symm
  obtain ⟨j, hj⟩ := hq.even p hne heq
  rw [abs_le] at hle
  omega

end NearestEven

theorem fallsShort_iff {n d : ℤ} : fallsShort n d = true ↔
    d.natAbs < 2 * (n.tmod d).natAbs ∨
      2 * (n.tmod d).natAbs = d.natAbs ∧ n.tdiv d % 2 = 1 := by
  have hparity := Int.emod_two_eq (n.tdiv d)
  unfold fallsShort
  split
  · rename_i h
    exact iff_of_true rfl (.inl (Nat.compare_eq_gt.1 h))
  · rename_i h
    have heq := Nat.compare_eq_eq.1 h
    rw [decide_eq_true_iff]
    omega
  · rename_i h
    have hlt := Nat.compare_eq_lt.1 h
    exact iff_of_false Bool.false_ne_true (by omega)

/-- What is cut off from a quotient has the sign of the dividend. -/
theorem tmod_sign (n d : ℤ) : (0 ≤ n → 0 ≤ n.tmod d) ∧ (n ≤ 0 → n.tmod d ≤ 0) := by
  refine ⟨Int.tmod_nonneg d, fun h => ?_⟩
  have hneg := Int.tmod_nonneg d (Int.neg_nonneg.2 h)
  rw [Int.neg_tmod] at hneg
  exact Int.neg_nonneg.1 hneg

/-- The number that a quotient is rounded to is off by half of the divisor at most, and by exactly
half only if it is even. -/
theorem roundQuotient_off (n : ℤ) {d : ℤ} (hd : d ≠ 0) :
    2 * (n - d * roundQuotient n d).natAbs ≤ d.natAbs ∧
      (2 * (n - d * roundQuotient n d).natAbs = d.natAbs → roundQuotient n d % 2 = 0) := by
  have hsplit := Int.mul_tdiv_add_tmod n d
  have hrest : (n.tmod d).natAbs < d.natAbs := by
    rw [Int.natAbs_tmod]
    exact Nat.mod_lt _ (Int.natAbs_pos.2 hd)
  have hsign := tmod_sign n d
  have hparity := Int.emod_two_eq (n.tdiv d)
  simp only [roundQuotient, bne_iff_ne, ne_eq, decide_eq_decide]
  split_ifs with hfalls hside
  · -- operands of one sign: what was cut off has the sign of the divisor
    have hshort := fallsShort_iff.1 hfalls
    rw [Int.mul_add, Int.mul_one]
    omega
  · have hshort := fallsShort_iff.1 hfalls
    rw [Int.mul_sub, Int.mul_one]
    omega
  · have hshort := mt fallsShort_iff.2 hfalls
    omega

theorem nearestEven_roundQuotient (n : ℤ) {d : ℤ} (hd : d ≠ 0) :
    NearestEven (n / d) (roundQuotient n d) := by
  obtain ⟨hle, htie⟩ := roundQuotient_off n hd
  have hpos : (0 : ℚ) < |(d : ℚ)| := abs_pos.2 (Int.cast_ne_zero.2 hd)
  -- how far the quotient is off, in units of the divisor
  have hoff : |(n / d : ℚ) - roundQuotient n d| =
      ((n - d * roundQuotient n d).natAbs : ℚ) / (d.natAbs : ℚ) := by
    rw [Nat.cast_natAbs, Nat.cast_natAbs, Int.cast_abs, Int.cast_abs, ← abs_div]
    congr 1
    push_cast
    field_simp
  have hd' : (0 : ℚ) < (d.natAbs : ℚ) := by
    exact_mod_cast Int.natAbs_pos.2 hd
  refine .of_half ?_ fun h => ?_
  · rw [hoff, div_le_iff₀ hd']
    have : (2 * (n - d * roundQuotient n d).natAbs : ℚ) ≤ (d.natAbs : ℚ) := by exact_mod_cast hle
    linarith
  · rw [hoff, div_eq_iff hd'.ne'] at h
    have : (2 * (n - d * roundQuotient n d).natAbs : ℚ) = (d.natAbs : ℚ) := by linarith
    exact Int.even_iff.2 (htie (by exact_mod_cast this))

namespace Decimal

/-- The whole numbers that are divided have the quotient that they are to have. -/
theorem ratio_eq (l r : Decimal) :
    ((l.ratio r).1 : ℚ) / (l.ratio r).2 = l.digits * 10 ^ r.scale / r.digits := by
  rw [ratio]
  split_ifs with h
  · rw [Int.cast_mul, Int.cast_natCast, cast_powerOfTen, Int.toNat_of_nonneg h]
  · have hneg : ((r.scale.natAbs : ℕ) : ℤ) = -r.scale := by omega
    rw [Int.cast_mul, Int.cast_natCast, cast_powerOfTen, hneg, zpow_neg]
    have := (ten_zpow_pos r.scale).ne'
    by_cases hr : (r.digits : ℚ) = 0
    · simp [hr]
    · field_simp

theorem ratio_ne_zero {l r : Decimal} (h : r.digits ≠ 0) : (l.ratio r).2 ≠ 0 := by
  rw [ratio]
  split_ifs
  · exact h
  · refine mul_ne_zero h ?_
    exact_mod_cast (Nat.pow_pos (n := r.scale.natAbs) (by decide : 0 < 10)).ne'

theorem value_div_value (l r : Decimal) :
    l.value / r.value = l.digits * 10 ^ r.scale / r.digits * 10 ^ (-l.scale) := by
  rw [value, value, zpow_neg _ r.scale, div_mul_eq_div_div, div_inv_eq_mul]
  ring

/-- The digits of a quotient are nearest to those of the exact one at the scale of the dividend. -/
theorem exists_divide (l : Decimal) {r : Decimal} (h : r.digits ≠ 0) :
    ∃ q, l.divide r = .ok ⟨q, l.scale⟩ ∧ NearestEven (l.digits * 10 ^ r.scale / r.digits) q := by
  refine ⟨_, if_neg h, ?_⟩
  rw [← ratio_eq l r]
  exact nearestEven_roundQuotient _ (ratio_ne_zero h)

/-- Division fails by zero only. Otherwise the quotient has the places of the dividend, its digits
are the whole number nearest to the exact quotient with these places, an even one if two are as
near, and so it is off by half a unit in its last place at most. -/
theorem divide_rounds (l r : Decimal) :
    (∀ e, l.divide r = .error e ↔ r.digits = 0 ∧ e = .divisionByZero) ∧
      (r.digits ≠ 0 → ∃ q, l.divide r = .ok ⟨q, l.scale⟩ ∧
        (∀ k, NearestEven (l.digits * 10 ^ r.scale / r.digits) k ↔ k = q) ∧
        |value ⟨q, l.scale⟩ - l.value / r.value| ≤ 10 ^ (-l.scale) / 2) := by
  refine ⟨fun e => ?_, fun hr => ?_⟩
  · by_cases hr : r.digits = 0
    · rw [divide, if_pos hr, Except.error.injEq, eq_comm]
      exact (and_iff_right hr).symm
    · rw [divide, if_neg hr]
      exact iff_of_false nofun fun h => hr h.1
  · obtain ⟨q, hq, hnearest⟩ := l.exists_divide hr
    refine ⟨q, hq, fun k => ⟨fun hk => hk.unique hnearest, fun hk => hk ▸ hnearest⟩, ?_⟩
    have hunit := ten_zpow_pos (-l.scale)
    rw [value_div_value, value, ← sub_mul, abs_mul, abs_of_pos hunit, abs_sub_comm]
    exact (mul_le_mul_of_nonneg_right hnearest.half hunit.le).trans_eq (by ring)

/-- The exact digits of `-3.00 / 40` are -7.5, and the even neighbour is further from zero. -/
theorem divide_rounds_tie : (4 : ℤ) ≠ 0 ∧ divide ⟨-300, 2⟩ ⟨4, -1⟩ = .ok ⟨-8, 2⟩ ∧
    (∀ k, NearestEven ((-300 : ℤ) * 10 ^ (-1 : ℤ) / (4 : ℤ)) k ↔ k = -8) := by
  have hne : (4 : ℤ) ≠ 0 := by decide
  obtain ⟨q, hq, hnearest, -⟩ := (divide_rounds ⟨-300, 2⟩ ⟨4, -1⟩).2 hne
  have hdigits : divide ⟨-300, 2⟩ ⟨4, -1⟩ = .ok ⟨-8, 2⟩ := rfl
  cases hdigits.symm.trans hq
  exact ⟨hne, hdigits, hnearest⟩

end Decimal

end TypedImp
