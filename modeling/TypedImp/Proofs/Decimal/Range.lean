import Mathlib.Data.Nat.Size
import TypedImp.Decimal.Range
import TypedImp.Proofs.Decimal.Value

/-!
# Which decimals are literals

A decimal may be written as a literal if its value rounds to a finite double and its scale has 32
bits (`IsLiteral`). A long number has digits to spare at its end, which are not counted for the
scale: at least 25 are left in front of them (`pow_spareDigits_le`), and no number of up to 43
digits has any (`isLiteral_iff_of_lt`). The check of the range decides that (`inRange_iff`), from
the magnitude of the decimal wherever this tells.
-/

namespace TypedImp.Decimal

/-- The value rounds to a finite double: it is below the middle between the largest of them and the
power of two behind it. -/
def FiniteDouble (d : Decimal) : Prop :=
  |d.value| < 2 ^ 1024 - 2 ^ 970

/-- How many digits a number has to spare at its end: of those beyond 25, as many rows of 19 as are
full. The number of its digits is estimated from its length in bits. -/
def spareDigits (n : Nat) : Nat :=
  19 * (((n.size + 1) * 30102999566398120 / 10 ^ 17 - 25) / 19)

/-- The decimal may be written as a literal. Zero may at any scale. -/
structure IsLiteral (d : Decimal) : Prop where
  finite : d.FiniteDouble
  scale : d.digits = 0 ∨ d.scale - spareDigits d.digits.natAbs ≤ 2147483647

/-! ## The value -/

theorem cast_pow_sub_pow {m n : Nat} (h : n ≤ m) :
    ((Nat.pow 2 m - Nat.pow 2 n : ℕ) : ℚ) = 2 ^ m - 2 ^ n := by
  change ((2 ^ m - 2 ^ n : ℕ) : ℚ) = _
  rw [Nat.cast_sub (Nat.pow_le_pow_right two_pos h), Nat.cast_pow, Nat.cast_pow, Nat.cast_ofNat]

theorem cast_doubleLimit : (doubleLimit : ℚ) = 2 ^ 1024 - 2 ^ 970 := by
  unfold doubleLimit
  apply cast_pow_sub_pow
  decide

theorem doubleLimit_pos : 0 < doubleLimit := by
  decide +kernel

theorem powerOfTen_le_doubleLimit : powerOfTen 308 ≤ doubleLimit := by
  decide +kernel

theorem doubleLimit_le_powerOfTen : doubleLimit ≤ powerOfTen 309 := by
  decide +kernel

theorem finiteDouble_of_magnitude {d : Decimal} (h : d.magnitude ≤ 308) : d.FiniteDouble :=
  calc |d.value| < 10 ^ d.magnitude := abs_value_lt d
    _ ≤ 10 ^ ((308 : ℕ) : ℤ) := zpow_le_zpow_right₀ (by norm_num) h
    _ = powerOfTen 308 := (cast_powerOfTen 308).symm
    _ ≤ doubleLimit := Nat.cast_le.2 powerOfTen_le_doubleLimit
    _ = 2 ^ 1024 - 2 ^ 970 := cast_doubleLimit

theorem magnitude_of_finiteDouble {d : Decimal} (hd : d.digits ≠ 0) (h : d.FiniteDouble) :
    d.magnitude ≤ 309 := by
  have hlt : (10 : ℚ) ^ (d.magnitude - 1) < 10 ^ ((309 : ℕ) : ℤ) :=
    calc (10 : ℚ) ^ (d.magnitude - 1) ≤ |d.value| := le_abs_value hd
      _ < 2 ^ 1024 - 2 ^ 970 := h
      _ = doubleLimit := cast_doubleLimit.symm
      _ ≤ powerOfTen 309 := Nat.cast_le.2 doubleLimit_le_powerOfTen
      _ = 10 ^ ((309 : ℕ) : ℤ) := cast_powerOfTen 309
  have hexponents := (zpow_lt_zpow_iff_right₀ (by norm_num : (1 : ℚ) < 10)).1 hlt
  omega

/-- Both sides of the exact comparison are whole numbers. -/
theorem finiteDouble_iff_mul {d : Decimal} : d.FiniteDouble ↔
    d.digits.natAbs * powerOfTen (-d.scale).toNat < doubleLimit * powerOfTen d.scale.toNat := by
  have hsplit : (10 : ℚ) ^ (-d.scale) * 10 ^ (d.scale.toNat : ℤ) = 10 ^ ((-d.scale).toNat : ℤ) := by
    rw [← zpow_add₀ (by norm_num)]
    congr 1
    omega
  rw [FiniteDouble, abs_value, ← cast_doubleLimit, ← Nat.cast_lt (α := ℚ), Nat.cast_mul,
    Nat.cast_mul, cast_powerOfTen, cast_powerOfTen, ← hsplit, ← mul_assoc,
    mul_lt_mul_iff_left₀ (ten_zpow_pos _)]

theorem belowDoubleLimit_iff {d : Decimal} (hd : d.digits ≠ 0) :
    d.belowDoubleLimit = true ↔ d.FiniteDouble := by
  rw [belowDoubleLimit, Bool.or_eq_true, Bool.and_eq_true, decide_eq_true_eq, decide_eq_true_eq,
    decide_eq_true_eq, ← finiteDouble_iff_mul]
  constructor
  · rintro (h | ⟨-, h⟩)
    · exact finiteDouble_of_magnitude h
    · exact h
  · exact fun h => .inr ⟨magnitude_of_finiteDouble hd h, h⟩

/-! ## The scale -/

theorem bitLength_eq_size (n : Nat) : bitLength n = n.size := by
  rw [bitLength]
  split_ifs with h
  · rw [h, Nat.size_zero]
  · exact le_antisymm (Nat.lt_size.2 (Nat.log2_self_le h)) (Nat.size_le.2 Nat.lt_log2_self)

theorem estimatedDigits_eq (n : Nat) :
    estimatedDigits n = (n.size + 1) * 30102999566398120 / 100000000000000000 := by
  rw [estimatedDigits, bitLength_eq_size]
  rfl

theorem spareDigits_eq (n : Nat) : spareDigits n = chunkDigits * spareChunks n := by
  rw [spareChunks, estimatedDigits_eq]
  rfl

theorem shortenedScale_eq (d : Decimal) :
    d.shortenedScale = d.scale - spareDigits d.digits.natAbs := by
  rw [shortenedScale, spareDigits_eq]

/-- One comparison of two powers tells of others whose exponents are in about the same ratio. -/
theorem pow_le_pow_of_ratio {a b p q k l : Nat} (hratio : a ^ p ≤ b ^ q) (hp : p ≠ 0) (hb : 0 < b)
    (h : q * k ≤ p * l) : a ^ k ≤ b ^ l := by
  refine (Nat.pow_le_pow_iff_left hp).1 ?_
  calc (a ^ k) ^ p = (a ^ p) ^ k := pow_right_comm a k p
    _ ≤ (b ^ q) ^ k := Nat.pow_le_pow_left hratio k
    _ = b ^ (q * k) := (pow_mul b q k).symm
    _ ≤ b ^ (p * l) := Nat.pow_le_pow_right hb h
    _ = (b ^ l) ^ p := by rw [mul_comm, pow_mul]

theorem pow_ten_le_pow_two : 10 ^ 8651 ≤ 2 ^ 28738 := by
  decide +kernel

theorem pow_two_le_pow_ten : 2 ^ 13301 ≤ 10 ^ 4004 := by
  decide +kernel

/-- Up to 100 million bits, what is estimated is the number of digits or one less. -/
theorem estimatedDigits_bounds {n : Nat} (hn : n ≠ 0) (h : n.size ≤ 100000000) :
    10 ^ (estimatedDigits n - 1) ≤ n ∧ n < 10 ^ (estimatedDigits n + 1) := by
  have hpos : 0 < n.size := Nat.size_pos.2 (Nat.pos_of_ne_zero hn)
  have hsize : 2 ^ (n.size - 1) ≤ n := Nat.lt_size.1 (Nat.sub_lt hpos one_pos)
  have hestimate := estimatedDigits_eq n
  -- the two ratios lie close enough to the decimal logarithm of two on either side
  constructor
  · refine (pow_le_pow_of_ratio pow_ten_le_pow_two (by decide) (by decide) ?_).trans hsize
    omega
  · refine n.lt_size_self.trans_le
      (pow_le_pow_of_ratio pow_two_le_pow_ten (by decide) (by decide) ?_)
    omega

/-- There are at least 25 digits in front of those to spare. -/
theorem pow_spareDigits_le {n : Nat} (h : n.size ≤ 100000000) (hspare : spareDigits n ≠ 0) :
    10 ^ (spareDigits n + 24) ≤ n := by
  have hn : n ≠ 0 := by
    rintro rfl
    exact hspare (by decide)
  refine le_trans ?_ (estimatedDigits_bounds hn h).1
  refine Nat.pow_le_pow_right (by decide) ?_
  rw [spareDigits_eq, chunkDigits, spareChunks, keptDigits, chunkDigits] at hspare ⊢
  omega

theorem spareDigits_of_lt {n : Nat} (h : n < 10 ^ 43) : spareDigits n = 0 := by
  have hsize : n.size ≤ 143 := Nat.size_le.2 (h.trans (by norm_num))
  rw [spareDigits]
  omega

/-- For numbers of up to 43 digits, the scale itself has 32 bits. -/
theorem isLiteral_iff_of_lt {d : Decimal} (h : d.digits.natAbs < 10 ^ 43) :
    d.IsLiteral ↔ d.FiniteDouble ∧ (d.digits = 0 ∨ d.scale ≤ 2147483647) := by
  have hscale : d.scale - spareDigits d.digits.natAbs = d.scale := by
    rw [spareDigits_of_lt h, Nat.cast_zero, sub_zero]
  constructor
  · exact fun hd => ⟨hd.finite, hscale ▸ hd.scale⟩
  · exact fun ⟨hfinite, hd⟩ => ⟨hfinite, hscale.symm ▸ hd⟩

/-! ## The check -/

/-- The check of the range accepts the literals and nothing else. -/
theorem inRange_iff {d : Decimal} : d.inRange = true ↔ d.IsLiteral := by
  rw [inRange, Bool.or_eq_true, beq_iff_eq]
  by_cases hd : d.digits = 0
  · have hfinite : d.FiniteDouble := by
      rw [finiteDouble_iff_mul, hd, Int.natAbs_zero, zero_mul]
      exact Nat.mul_pos doubleLimit_pos (Nat.pow_pos (by decide))
    exact iff_of_true (.inl hd) ⟨hfinite, .inl hd⟩
  · rw [or_iff_right hd, Bool.and_eq_true, decide_eq_true_eq, belowDoubleLimit_iff hd,
      shortenedScale_eq]
    constructor
    · exact fun ⟨hscale, hfinite⟩ => ⟨hfinite, .inr hscale⟩
    · exact fun h => ⟨h.scale.resolve_left hd, h.finite⟩

end TypedImp.Decimal
