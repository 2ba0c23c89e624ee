import Mathlib.Algebra.Order.Field.Basic
import Mathlib.Data.Nat.Digits.Defs
import Mathlib.Data.Rat.Cast.Order
import Mathlib.Tactic.FieldSimp
import Mathlib.Tactic.Linarith
import Mathlib.Tactic.NormNum
import Mathlib.Tactic.Ring
import TypedImp.Decimal.Basic

/-!
# Values of decimals

A decimal stands for a rational number. Two decimals of one value may differ in their digits and
scales; they are ordered by their values alone (`compare_eq`).
-/

namespace TypedImp

theorem compare_of_strictMono {α β : Type} [LinearOrder α] [LinearOrder β] {f : α → β}
    (hf : StrictMono f) (a b : α) : compare (f a) (f b) = compare a b :=
  (compare_iff _ _).2 (hf.compares.2 ((compare_iff a b).1 rfl))

namespace Decimal

/-- The number that a decimal stands for. -/
def value (d : Decimal) : ℚ :=
  d.digits * 10 ^ (-d.scale)

theorem ten_zpow_pos (n : ℤ) : (0 : ℚ) < 10 ^ n :=
  zpow_pos (by norm_num) n

theorem cast_powerOfTen (k : Nat) : ((powerOfTen k : Nat) : ℚ) = 10 ^ (k : ℤ) := by
  rw [zpow_natCast]
  exact Nat.cast_pow 10 k

theorem value_eq_zero {d : Decimal} : d.value = 0 ↔ d.digits = 0 := by
  rw [value, mul_eq_zero, Int.cast_eq_zero, or_iff_left (ten_zpow_pos _).ne']

theorem value_pos {d : Decimal} : 0 < d.value ↔ 0 < d.digits := by
  rw [value, mul_pos_iff_of_pos_right (ten_zpow_pos _), Int.cast_pos]

theorem value_neg {d : Decimal} : d.value < 0 ↔ d.digits < 0 := by
  rw [← not_le, value, mul_nonneg_iff_of_pos_right (ten_zpow_pos _), Int.cast_nonneg_iff, not_le]

/-! ## The order -/

theorem cast_digitsAt {d : Decimal} {scale : Int} (h : d.scale ≤ scale) :
    (d.digitsAt scale : ℚ) = d.value * 10 ^ scale := by
  rw [digitsAt_eq, Int.cast_mul, Int.cast_natCast, cast_powerOfTen, value, mul_assoc,
    ← zpow_add₀ (by norm_num)]
  congr 2
  omega

/-- Digits at a common scale are in the order of the values. -/
theorem compare_digitsAt {a b : Decimal} {scale : Int} (ha : a.scale ≤ scale)
    (hb : b.scale ≤ scale) :
    compare (a.digitsAt scale) (b.digitsAt scale) = compare a.value b.value := by
  rw [← compare_of_strictMono (Int.cast_strictMono (R := ℚ)), cast_digitsAt ha, cast_digitsAt hb]
  exact compare_of_strictMono (strictMono_mul_right_of_pos (ten_zpow_pos scale)) _ _

theorem abs_value (d : Decimal) : |d.value| = d.digits.natAbs * 10 ^ (-d.scale) := by
  rw [value, abs_mul, abs_of_pos (ten_zpow_pos _), Nat.cast_natAbs, Int.cast_abs]

theorem abs_value_lt (d : Decimal) : |d.value| < 10 ^ d.magnitude := by
  have hlt := (Nat.length_toDigits_le_iff (b := 10) (n := d.digits.natAbs) (by decide)
    Nat.length_toDigits_pos).1 le_rfl
  rw [abs_value, magnitude, sub_eq_add_neg, zpow_add₀ (by norm_num), zpow_natCast]
  exact mul_lt_mul_of_pos_right (by exact_mod_cast hlt) (ten_zpow_pos _)

theorem le_abs_value {d : Decimal} (h : d.digits ≠ 0) : 10 ^ (d.magnitude - 1) ≤ |d.value| := by
  have hpos := Nat.length_toDigits_pos (b := 10) (n := d.digits.natAbs)
  have hle : 10 ^ ((Nat.toDigits 10 d.digits.natAbs).length - 1) ≤ d.digits.natAbs := by
    rcases Nat.eq_zero_or_pos ((Nat.toDigits 10 d.digits.natAbs).length - 1) with hone | hmore
    · rw [hone]
      exact Int.natAbs_pos.2 h
    · by_contra hlt
      have := (Nat.length_toDigits_le_iff (by decide) hmore).2 (Nat.lt_of_not_le hlt)
      omega
  have hsplit : d.magnitude - 1 =
      (((Nat.toDigits 10 d.digits.natAbs).length - 1 : ℕ) : ℤ) + -d.scale := by
    rw [magnitude]
    omega
  rw [hsplit, abs_value, zpow_add₀ (by norm_num), zpow_natCast]
  exact mul_le_mul_of_nonneg_right (by exact_mod_cast hle) (ten_zpow_pos _).le

/-- Of two values other than zero, the one of less magnitude lies nearer to zero. -/
theorem abs_value_lt_abs_value {a b : Decimal} (hb : b.digits ≠ 0)
    (h : a.magnitude < b.magnitude) : |a.value| < |b.value| :=
  calc |a.value| < 10 ^ a.magnitude := abs_value_lt a
    _ ≤ 10 ^ (b.magnitude - 1) := zpow_le_zpow_right₀ (by norm_num) (by omega)
    _ ≤ |b.value| := le_abs_value hb

theorem compareNonzero_of_pos {a b : Decimal} (ha : 0 < a.digits) (hb : 0 < b.digits) :
    a.compareNonzero b = compare a.value b.value := by
  rw [compareNonzero]
  split_ifs with h
  · exact compare_digitsAt (le_max_left ..) (le_max_right ..)
  · have habs := abs_of_pos (value_pos.2 ha)
    have hbbs := abs_of_pos (value_pos.2 hb)
    rcases lt_or_gt_of_ne h with hlt | hgt
    · rw [compare_lt_iff_lt.2 hlt, eq_comm, compare_lt_iff_lt, ← habs, ← hbbs]
      exact abs_value_lt_abs_value hb.ne' hlt
    · rw [compare_gt_iff_gt.2 hgt, eq_comm, compare_gt_iff_gt, ← habs, ← hbbs]
      exact abs_value_lt_abs_value ha.ne' hgt

theorem compareNonzero_of_neg {a b : Decimal} (ha : a.digits < 0) (hb : b.digits < 0) :
    a.compareNonzero b = compare a.value b.value := by
  rw [compareNonzero, if_neg ha.not_gt]
  split_ifs with h
  · exact compare_digitsAt (le_max_left ..) (le_max_right ..)
  · have habs := abs_of_neg (value_neg.2 ha)
    have hbbs := abs_of_neg (value_neg.2 hb)
    rcases lt_or_gt_of_ne h with hlt | hgt
    · rw [compare_gt_iff_gt.2 hlt, eq_comm, compare_gt_iff_gt, ← neg_lt_neg_iff, ← habs, ← hbbs]
      exact abs_value_lt_abs_value hb.ne hlt
    · rw [compare_lt_iff_lt.2 hgt, eq_comm, compare_lt_iff_lt, ← neg_lt_neg_iff, ← habs, ← hbbs]
      exact abs_value_lt_abs_value ha.ne hgt

theorem value_lt_of_sign_lt {a b : Decimal} (h : a.digits.sign < b.digits.sign) :
    a.value < b.value := by
  rcases lt_trichotomy a.digits 0 with ha | ha | ha
  · refine (value_neg.2 ha).trans_le (not_lt.1 fun hb => ?_)
    rw [Int.sign_eq_neg_one_of_neg ha, Int.sign_eq_neg_one_of_neg (value_neg.1 hb)] at h
    exact lt_irrefl _ h
  · rw [ha, Int.sign_zero, Int.sign_pos_iff] at h
    exact (value_eq_zero.2 ha).trans_lt (value_pos.2 h)
  · rw [Int.sign_eq_one_of_pos ha] at h
    rcases Int.sign_trichotomy b.digits with hb | hb | hb <;> omega

/-- Decimals are in the order of their values. -/
theorem compare_eq (a b : Decimal) : compare a b = compare a.value b.value := by
  delta instOrd
  dsimp only
  rcases lt_trichotomy a.digits.sign b.digits.sign with h | h | h
  · rw [compare_lt_iff_lt.2 h, eq_comm, compare_lt_iff_lt]
    exact value_lt_of_sign_lt h
  · rw [compare_eq_iff_eq.2 h]
    rcases lt_trichotomy a.digits 0 with ha | ha | ha
    · have hb : b.digits < 0 := Int.sign_eq_neg_one_iff_neg.1 (h ▸ Int.sign_eq_neg_one_of_neg ha)
      exact (if_neg ha.ne).trans (compareNonzero_of_neg ha hb)
    · have hb : b.digits = 0 := Int.sign_eq_zero_iff_zero.1 (h ▸ Int.sign_eq_zero_iff_zero.2 ha)
      rw [value_eq_zero.2 ha, value_eq_zero.2 hb]
      exact (if_pos ha).trans (compare_eq_iff_eq.2 rfl).symm
    · have hb : 0 < b.digits := Int.sign_eq_one_iff_pos.1 (h ▸ Int.sign_eq_one_of_pos ha)
      exact (if_neg ha.ne').trans (compareNonzero_of_pos ha hb)
  · rw [compare_gt_iff_gt.2 h, eq_comm, compare_gt_iff_gt]
    exact value_lt_of_sign_lt h

end Decimal

end TypedImp
