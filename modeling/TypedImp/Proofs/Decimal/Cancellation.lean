import TypedImp.Proofs.Decimal.Rounding
import TypedImp.Proofs.Machine.Step

/-!
# Multiplying and dividing by one decimal

A quotient has the places of its dividend, so `(x * y) / y` has those of the product. Where these
places are enough to write `x` down, it is equal to `x`; they are, unless `x` is a one and `y` is a
whole multiple of ten (`product_cancels`). The product of a one is the other factor without its
trailing zeros, whose scale may be below zero: `(1 * 10) / 10` is zero (`one_times_ten_over_ten`).
-/

namespace TypedImp

namespace Decimal

variable {x y p : Decimal}

/-! ## Trailing zeros -/

theorem stripZeros_eq : ∀ (digits scale : ℤ), digits ≠ 0 → ∃ (k : ℕ) (m : ℤ),
    stripZeros digits scale = ⟨m, scale - k⟩ ∧ digits = m * 10 ^ k ∧ m % 10 ≠ 0 := by
  intro digits scale
  fun_induction stripZeros digits scale with
  | case1 digits scale h ih =>
    intro _
    obtain ⟨k, m, hstrip, hdigits, hm⟩ := ih (by omega)
    refine ⟨k + 1, m, ?_, ?_, hm⟩
    · rw [hstrip]
      congr 1
      push_cast
      ring
    · rw [pow_succ, ← mul_assoc, ← hdigits]
      omega
  | case2 digits scale h =>
    intro hne
    exact ⟨0, digits, by simp, by simp, fun hm => h ⟨hne, hm⟩⟩

theorem normalized_eq (h : y.digits ≠ 0) : ∃ (k : ℕ) (m : ℤ),
    y.normalized = ⟨m, wrapScale (y.scale - k)⟩ ∧ y.digits = m * 10 ^ k ∧ m % 10 ≠ 0 := by
  obtain ⟨k, m, hstrip, hdigits, hm⟩ := stripZeros_eq y.digits y.scale h
  exact ⟨k, m, by rw [normalized, if_neg h, hstrip], hdigits, hm⟩

theorem value_of_isOne (h : x.isOne = true) : x.value = 1 := by
  simp only [isOne, Bool.and_eq_true, decide_eq_true_eq, beq_iff_eq] at h
  obtain ⟨⟨hscale, -⟩, hdigits⟩ := h
  rw [value, hdigits, Int.cast_natCast, cast_powerOfTen, Int.toNat_of_nonneg hscale,
    ← zpow_add₀ (by norm_num), add_neg_cancel, zpow_zero]

theorem value_eq_shifted {k : ℕ} {m : ℤ} (hdigits : y.digits = m * 10 ^ k) :
    y.value = m * 10 ^ ((k : ℤ) - y.scale) := by
  rw [value, hdigits, Int.cast_mul, Int.cast_pow, Int.cast_ofNat, ← zpow_natCast, mul_assoc,
    ← zpow_add₀ (by norm_num), ← sub_eq_add_neg]

/-- Normalizing keeps the value, unless the zeros that it takes off are too many for a scale. -/
theorem value_normalized (hscale : y.scale ≤ 9223372036854775807)
    (hmagnitude : y.magnitude ≤ 9223372036854775808) : y.normalized.value = y.value := by
  by_cases h : y.digits = 0
  · rw [normalized, if_pos h, value_eq_zero.2 h]
    exact zero_mul _
  · obtain ⟨k, m, hnormalized, hdigits, hm⟩ := normalized_eq h
    have hk : k < (Nat.toDigits 10 y.digits.natAbs).length := by
      by_contra hle
      have hlt := (Nat.length_toDigits_le_iff (by decide)
        (Nat.lt_of_lt_of_le Nat.length_toDigits_pos (not_lt.1 hle))).1 (not_lt.1 hle)
      rw [hdigits, Int.natAbs_mul, Int.natAbs_pow] at hlt
      exact absurd (Nat.le_mul_of_pos_left _ (by omega)) (not_le.2 hlt)
    have hfits : wrapScale (y.scale - k) = y.scale - k := by
      rw [magnitude] at hmagnitude
      exact wrapScale_of_fits (by omega)
    rw [hnormalized, hfits, value_eq_shifted hdigits, value, neg_sub]

/-- Products are exact as long as their scales fit. -/
theorem value_mul (hx : 0 ≤ x.scale) (hy : 0 ≤ y.scale)
    (hsum : x.scale + y.scale ≤ 9223372036854775807) (hx' : x.magnitude ≤ 9223372036854775808)
    (hy' : y.magnitude ≤ 9223372036854775808) : (x.mul y).value = x.value * y.value := by
  rw [mul]
  split_ifs with hone hone'
  · rw [value_of_isOne hone, one_mul, value_normalized (by omega) hy']
  · rw [value_of_isOne hone', mul_one, value_normalized (by omega) hx']
  · rw [wrapScale_of_fits (by omega), value, value, value, neg_add, zpow_add₀ (by norm_num)]
    push_cast
    ring

/-- A value is a whole multiple of ten if it has more trailing zeros than places. -/
theorem multiple_of_ten_iff {k : ℕ} {m : ℤ} (hdigits : y.digits = m * 10 ^ k) (hm : m % 10 ≠ 0) :
    (∃ n : ℤ, y.value = 10 * n) ↔ y.scale < k := by
  rw [value_eq_shifted hdigits]
  constructor
  · rintro ⟨n, hn⟩
    by_contra hle
    obtain ⟨j, hj⟩ := Int.eq_ofNat_of_zero_le (sub_nonneg.2 (not_lt.1 hle))
    have hback : (m : ℚ) = 10 * n * 10 ^ j := by
      rw [← hn, ← zpow_natCast, mul_assoc, ← zpow_add₀ (by norm_num), ← hj, sub_add_sub_cancel,
        sub_self, zpow_zero, mul_one]
    have hint : m = 10 * (n * 10 ^ j) := by
      rw [← mul_assoc]
      exact_mod_cast hback
    omega
  · intro hlt
    obtain ⟨j, hj⟩ := Int.eq_ofNat_of_zero_le (sub_nonneg.2 (Int.add_one_le_of_lt hlt))
    have hsucc : (k : ℤ) - y.scale = j + 1 := by omega
    refine ⟨m * 10 ^ j, ?_⟩
    rw [hsucc, zpow_add₀ (by norm_num), zpow_natCast, zpow_one]
    push_cast
    ring

/-- A power of ten is a whole number if its exponent is not below zero. -/
theorem whole_power_iff {n : ℤ} : (∃ w : ℤ, (10 : ℚ) ^ n = w) ↔ 0 ≤ n := by
  constructor
  · rintro ⟨w, hw⟩
    by_contra hneg
    have hpos : (0 : ℚ) < w := hw ▸ ten_zpow_pos n
    have hlt : (w : ℚ) < 1 := hw ▸ zpow_lt_one_of_neg₀ (by norm_num) (not_le.1 hneg)
    have hpos' : 0 < w := by exact_mod_cast hpos
    have hlt' : w < 1 := by exact_mod_cast hlt
    omega
  · intro h
    obtain ⟨j, rfl⟩ := Int.eq_ofNat_of_zero_le h
    exact ⟨10 ^ j, by rw [zpow_natCast]; norm_cast⟩

/-! ## Quotients that come out even -/

/-- A whole number is the nearest one to itself. -/
theorem eq_of_nearestEven {w q : ℤ} (h : NearestEven w q) : q = w := by
  have hle := h.nearest w
  rw [sub_self, abs_zero, abs_nonpos_iff, sub_eq_zero] at hle
  exact_mod_cast hle.symm

/-- If `p` is the product of `x` and `y`, the quotient of `p` and `y` is equal to `x` exactly if
`x` can be written with the places of `p`. -/
theorem divide_product (h : y.digits ≠ 0) (hp : p.value = x.value * y.value) :
    ∃ z, p.divide y = .ok z ∧ (compare z x = .eq ↔ ∃ w : ℤ, (p.digits : ℚ) / y.value = w) := by
  obtain ⟨q, hq, hnearest⟩ := p.exists_divide h
  have hy := value_eq_zero.not.2 h
  have hexact : (p.digits : ℚ) * 10 ^ y.scale / y.digits = p.digits / y.value := by
    rw [value, zpow_neg, ← div_eq_mul_inv, div_div_eq_mul_div]
  have hx : x.value = p.digits / y.value * 10 ^ (-p.scale) := by
    rw [div_mul_eq_mul_div, ← value, hp, mul_div_cancel_right₀ _ hy]
  rw [hexact] at hnearest
  refine ⟨_, hq, ?_⟩
  rw [compare_eq, compare_eq_iff_eq, hx, value]
  rw [mul_left_inj' (ten_zpow_pos _).ne']
  constructor
  · intro heq
    exact ⟨q, heq.symm⟩
  · rintro ⟨w, hw⟩
    rw [hw] at hnearest ⊢
    rw [eq_of_nearestEven hnearest]

/-- The digits of a product are a whole multiple of a factor, unless zeros in front of the point
were taken off from them. -/
theorem whole_quotient_iff (hscale : 0 ≤ y.scale) (h : y.digits ≠ 0) :
    (∃ w : ℤ, ((x.mul y).digits : ℚ) / y.value = w) ↔
      ¬ (x.isOne = true ∧ ∃ n : ℤ, y.value = 10 * n) := by
  by_cases hx : x.isOne = true
  · obtain ⟨k, m, hnormalized, hdigits, hm⟩ := normalized_eq h
    have hm0 : (m : ℚ) ≠ 0 := by
      rintro h0
      rw [Int.cast_eq_zero.1 h0] at hm
      exact hm rfl
    have hquotient : ((x.mul y).digits : ℚ) / y.value = 10 ^ (y.scale - k) := by
      rw [mul, if_pos hx, hnormalized, value_eq_shifted hdigits, div_mul_cancel_left₀ hm0,
        ← zpow_neg, neg_sub]
    rw [hquotient, whole_power_iff, and_iff_right hx, multiple_of_ten_iff hdigits hm, not_lt,
      sub_nonneg]
  · refine iff_of_true ?_ fun h => hx h.1
    by_cases hy : y.isOne = true
    · exact ⟨_, by rw [value_of_isOne hy, div_one]⟩
    · obtain ⟨j, hj⟩ := Int.eq_ofNat_of_zero_le hscale
      have hy0 : (y.digits : ℚ) ≠ 0 := Int.cast_ne_zero.2 h
      refine ⟨x.digits * 10 ^ j, ?_⟩
      rw [mul, if_neg hx, if_neg hy, value, hj, zpow_neg, zpow_natCast]
      push_cast
      field_simp

end Decimal

/-! ## Evaluating `(x * y) / y` -/

namespace Context

variable {c : Context} {m m₁ m₂ m₃ : Machine} {left right : Typed.Expr}

/-- The expression has a value with this datum, and evaluating it leaves this machine. -/
def Yields (c : Context) (e : Typed.Expr) (m : Machine) (datum : Datum) (m' : Machine) : Prop :=
  ∃ v, (c.evaluate e).run m = some (.ok v, m') ∧ v.datum = datum

theorem yields_literal (c : Context) (m : Machine) (value : Literal) (type : TypeId) :
    c.Yields (.literal value type) m value.datum m :=
  ⟨_, rfl, rfl⟩

theorem yields_arithmetic (operator : Arithmetic) (type : TypeId) {a b d : Datum}
    (hleft : c.Yields left m a m₁) (hright : c.Yields right m₁ b m₂)
    (happly : operator.apply a b = .ok d) :
    c.Yields (.binary (.arithmetic operator) left right type) m d m₂ := by
  obtain ⟨v, hv, rfl⟩ := hleft
  obtain ⟨w, hw, rfl⟩ := hright
  refine ⟨.of d, ?_, rfl⟩
  rw [evaluate, Exec.run_bind_eq_ok]
  refine ⟨v, m₁, hv, ?_⟩
  rw [Exec.run_bind_eq_ok]
  refine ⟨w, m₂, hw, ?_⟩
  rw [happly]
  rfl

theorem Yields.unique {e : Typed.Expr} {d d' : Datum} (h : c.Yields e m d m₁)
    (h' : c.Yields e m d' m₂) : d = d' := by
  obtain ⟨v, hv, rfl⟩ := h
  obtain ⟨w, hw, rfl⟩ := h'
  cases hv.symm.trans hw
  rfl

end Context

namespace Typed.Expr

def ofDecimal (d : Decimal) : Expr :=
  .literal (.decimal d) .decimal

/-- The expression `(a * b) / c`. -/
def productOver (a b c : Expr) : Expr :=
  .binary (.arithmetic .divide) (.group (.binary (.arithmetic .multiply) a b .decimal) .decimal) c
    .decimal

end Typed.Expr

/-- Where the product is exact, dividing it by a factor that is not zero gives a decimal, and that
is equal to the other factor `x` unless `x` is a one and the divisor is a whole multiple of ten. -/
theorem product_cancels {x y : Decimal} (hscale : 0 ≤ y.scale) (hy : y.digits ≠ 0)
    (exact : (x.mul y).value = x.value * y.value) {c : Context} {a b b' : Typed.Expr}
    {m m₁ m₂ m₃ : Machine} (ha : c.Yields a m (.decimal x) m₁)
    (hb : c.Yields b m₁ (.decimal y) m₂) (hb' : c.Yields b' m₂ (.decimal y) m₃) :
    ∃ z, c.Yields (.productOver a b b') m (.decimal z) m₃ ∧
      ((Datum.decimal z).compare? (.decimal x) = some .eq ↔
        ¬ (x.isOne = true ∧ ∃ n : ℤ, y.value = 10 * n)) := by
  obtain ⟨z, hz, heq⟩ := Decimal.divide_product hy exact
  have hproduct := Context.yields_arithmetic .multiply .decimal (d := .decimal (x.mul y)) ha hb rfl
  refine ⟨z, Context.yields_arithmetic .divide .decimal hproduct hb' ?_, ?_⟩
  · change (Datum.decimal <$> (x.mul y).divide y : Except Error Datum) = _
    rw [hz]
    rfl
  · rw [Datum.compare?, Option.some.injEq, heq, Decimal.whole_quotient_iff hscale hy]

/-- `(2.5 * 30) / 30`, whose product is written with one place though it needs none. -/
theorem product_cancels_thirty :
    let x : Decimal := ⟨25, 1⟩
    let y : Decimal := ⟨30, 0⟩
    let c : Context := ⟨.empty, fun _ _ _ => Exec.exhausted, 0⟩
    0 ≤ y.scale ∧ y.digits ≠ 0 ∧ (x.mul y).value = x.value * y.value ∧
      c.Yields (.ofDecimal x) .initial (.decimal x) .initial ∧
      c.Yields (.ofDecimal y) .initial (.decimal y) .initial ∧
      ∃ z, c.Yields (.productOver (.ofDecimal x) (.ofDecimal y) (.ofDecimal y)) .initial
          (.decimal z) .initial ∧
        (Datum.decimal z).compare? (.decimal x) = some .eq := by
  intro x y c
  have hscale : 0 ≤ y.scale := by decide
  have hy : y.digits ≠ 0 := by decide
  have exact : (x.mul y).value = x.value * y.value :=
    Decimal.value_mul (by decide) (by decide) (by decide) (by decide) (by decide)
  have hx := c.yields_literal .initial (.decimal x) .decimal
  have hy' := c.yields_literal .initial (.decimal y) .decimal
  obtain ⟨z, hz, heq⟩ := product_cancels hscale hy exact hx hy' hy'
  exact ⟨hscale, hy, exact, hx, hy', z, hz, heq.2 fun h => absurd h.1 (by decide)⟩

/-- Dividing does not always cancel: `(1 * 10) / 10` is zero. The product is a ten that is written
with one digit, and so is the quotient, whose places in front of the point are rounded off. -/
theorem one_times_ten_over_ten :
    ¬ ∀ x y : Decimal, 0 ≤ x.scale → 0 ≤ y.scale → y.digits ≠ 0 →
      (x.mul y).value = x.value * y.value → ∀ (c : Context) (m : Machine),
      ∃ z, c.Yields (.productOver (.ofDecimal x) (.ofDecimal y) (.ofDecimal y)) m (.decimal z) m ∧
        (Datum.decimal z).compare? (.decimal x) = some .eq := by
  intro h
  have hmul : Decimal.mul ⟨1, 0⟩ ⟨10, 0⟩ = ⟨1, -1⟩ := by
    have hstrip : Decimal.stripZeros 10 0 = ⟨1, -1⟩ := by
      rw [Decimal.stripZeros, dif_pos (by decide), Decimal.stripZeros, dif_neg (by decide)]
      rfl
    rw [Decimal.mul, if_pos (by decide), Decimal.normalized, if_neg (by decide), hstrip]
    rfl
  have exact : (Decimal.mul ⟨1, 0⟩ ⟨10, 0⟩).value =
      Decimal.value ⟨1, 0⟩ * Decimal.value ⟨10, 0⟩ := by
    rw [hmul]
    norm_num [Decimal.value]
  let c : Context := ⟨.empty, fun _ _ _ => Exec.exhausted, 0⟩
  obtain ⟨z, hz, heq⟩ := h ⟨1, 0⟩ ⟨10, 0⟩ (by decide) (by decide) (by decide) exact c .initial
  have hx := c.yields_literal .initial (.decimal ⟨1, 0⟩) .decimal
  have hy := c.yields_literal .initial (.decimal ⟨10, 0⟩) .decimal
  have hproduct := Context.yields_arithmetic .multiply .decimal (d := .decimal ⟨1, -1⟩) hx hy
    (congrArg (fun d => Except.ok (Datum.decimal d)) hmul)
  have hquotient := Context.yields_arithmetic .divide .decimal (d := .decimal ⟨0, -1⟩)
    hproduct hy rfl
  cases hz.unique hquotient
  exact absurd heq (by decide)

end TypedImp
