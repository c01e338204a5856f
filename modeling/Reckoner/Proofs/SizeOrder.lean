import Mathlib
import Reckoner.Proofs.Doubles

namespace Reckoner

section
variable {α β : Type} [LinearOrder α] [LinearOrder β] {a b : α} {o : Ordering}

theorem compare_compares (a b : α) : (compare a b).Compares a b :=
  (compare_iff a b).mp rfl

/-- Numbers that are brought to a common scale keep their order. -/
theorem compares_map {f : α → β} (hf : StrictMono f) (h : o.Compares a b) :
    o.Compares (f a) (f b) := by
  cases o with
  | lt => exact hf h
  | eq => exact congrArg f h
  | gt => exact hf h

theorem compares_neg {p q : ℚ} (h : o.Compares p q) : o.Compares (-q) (-p) := by
  cases o with
  | lt => exact neg_lt_neg h
  | eq => exact congrArg Neg.neg h.symm
  | gt => exact neg_lt_neg h

end

theorem compares_scaled {m n : ℤ} {p q scale : ℚ} (hscale : 0 < scale) (hm : p = m * scale)
    (hn : q = n * scale) : (compare m n).Compares p q := by
  rw [hm, hn]
  have hmono : StrictMono fun k : ℤ => (k : ℚ) * scale :=
    Int.cast_strictMono.mul_const hscale
  exact compares_map hmono (compare_compares m n)

/-- The size of a decimal without its sign. -/
def Decimal.magnitude (d : Decimal) : ℚ :=
  d.coefficient * 10 ^ d.exponent

section
variable {a b d : Decimal}

theorem Decimal.magnitude_bounds (h : 0 < d.coefficient) :
    10 ^ d.leadingPlace ≤ d.magnitude ∧ d.magnitude < 10 ^ (d.leadingPlace + 1) := by
  have hten : (10 : ℚ) ≠ 0 := by norm_num
  have hscale : (0 : ℚ) < 10 ^ d.exponent := by positivity
  obtain ⟨k, hk⟩ : ∃ k, digitCount d.coefficient = k + 1 :=
    ⟨_, (Nat.succ_pred (digitCount_pos _).ne').symm⟩
  have hplace : d.leadingPlace = k + d.exponent := by
    rw [Decimal.leadingPlace, hk]
    push_cast
    ring
  have hlow := tenTo_le_of_digitCount h
  have hhigh := lt_tenTo_digitCount d.coefficient
  rw [hk] at hlow hhigh
  rw [hplace, show (k : ℤ) + d.exponent + 1 = ((k + 1 : ℕ) : ℤ) + d.exponent by push_cast; ring,
    zpow_add₀ hten, zpow_add₀ hten, zpow_natCast, zpow_natCast, ← tenTo_cast, ← tenTo_cast,
    Decimal.magnitude]
  exact ⟨mul_le_mul_of_nonneg_right (by exact_mod_cast hlow) hscale.le,
    mul_lt_mul_of_pos_right (by exact_mod_cast hhigh) hscale⟩

/-- A decimal whose first digit counts less is smaller. -/
theorem Decimal.magnitude_lt (ha : 0 < a.coefficient) (hb : 0 < b.coefficient)
    (h : a.leadingPlace < b.leadingPlace) : a.magnitude < b.magnitude :=
  calc a.magnitude < 10 ^ (a.leadingPlace + 1) := (Decimal.magnitude_bounds ha).2
    _ ≤ 10 ^ b.leadingPlace := zpow_le_zpow_right₀ (by norm_num) (by omega)
    _ ≤ b.magnitude := (Decimal.magnitude_bounds hb).1

/-- The coefficient at the smaller one of two exponents. -/
theorem Decimal.magnitude_eq_scaled (d : Decimal) (e : ℤ) :
    d.magnitude =
      (d.coefficient * tenTo (d.exponent - e).toNat : ℕ) * 10 ^ min d.exponent e := by
  have hshift : d.exponent = ((d.exponent - e).toNat : ℤ) + min d.exponent e := by omega
  rw [Decimal.magnitude, Nat.cast_mul, tenTo_cast, mul_assoc, ← zpow_natCast,
    ← zpow_add₀ (by norm_num : (10 : ℚ) ≠ 0), ← hshift]

theorem Decimal.compareDigits_compares (ha : 0 < a.coefficient) (hb : 0 < b.coefficient) :
    (a.compareDigits b).Compares a.magnitude b.magnitude := by
  unfold Decimal.compareDigits
  cases hplaces : compare a.leadingPlace b.leadingPlace with
  | lt => exact Decimal.magnitude_lt ha hb (compare_lt_iff_lt.mp hplaces)
  | gt => exact Decimal.magnitude_lt hb ha (compare_gt_iff_gt.mp hplaces)
  | eq =>
    have hscale : (0 : ℚ) < 10 ^ min a.exponent b.exponent := by positivity
    have hmono : StrictMono fun k : ℕ => (k : ℚ) * 10 ^ min a.exponent b.exponent :=
      Nat.strictMono_cast.mul_const hscale
    rw [a.magnitude_eq_scaled b.exponent, b.magnitude_eq_scaled a.exponent, min_comm b.exponent]
    exact compares_map hmono (compare_compares _ _)

theorem Decimal.toRat_eq_magnitude (d : Decimal) :
    d.toRat = if d.negative then -d.magnitude else d.magnitude := by
  rw [Decimal.toRat_eq, Decimal.signed, Decimal.magnitude]
  split
  · push_cast
    ring
  · push_cast
    ring

theorem Decimal.magnitude_nonneg (d : Decimal) : 0 ≤ d.magnitude := by
  unfold Decimal.magnitude
  positivity

theorem Decimal.abs_toRat (d : Decimal) : |d.toRat| = d.magnitude := by
  rw [Decimal.toRat_eq_magnitude]
  split
  · rw [abs_neg, abs_of_nonneg d.magnitude_nonneg]
  · exact abs_of_nonneg d.magnitude_nonneg

theorem Decimal.toRat_sign (d : Decimal) : if d.negative then d.toRat ≤ 0 else 0 ≤ d.toRat := by
  rw [Decimal.toRat_eq_magnitude]
  split
  · exact neg_nonpos.mpr d.magnitude_nonneg
  · exact d.magnitude_nonneg

/-- The sign of a decimal is that of its number. -/
theorem Decimal.sign_eq (d : Decimal) : d.sign = SignType.sign d.toRat := by
  rw [Decimal.toRat_eq_magnitude, Decimal.sign]
  by_cases hzero : d.coefficient = 0
  · simp [Decimal.isZero, Decimal.magnitude, hzero]
  · have hpos : 0 < d.magnitude := by
      have : (0 : ℚ) < d.coefficient := by exact_mod_cast Nat.pos_of_ne_zero hzero
      unfold Decimal.magnitude
      positivity
    have hnot : d.isZero = false := decide_eq_false hzero
    rw [hnot]
    cases d.negative with
    | true => simp [sign_neg (neg_lt_zero.mpr hpos)]
    | false => simp [sign_pos hpos]

theorem Decimal.toRat_lt_of_sign (h : a.sign < b.sign) : a.toRat < b.toRat := by
  rw [Decimal.sign_eq, Decimal.sign_eq] at h
  by_contra hle
  have hmono : SignType.sign b.toRat ≤ SignType.sign a.toRat :=
    SignType.sign.monotone (not_lt.mp hle)
  revert h hmono
  generalize SignType.sign a.toRat = x
  generalize SignType.sign b.toRat = y
  revert x y
  decide

theorem Decimal.toRat_of_isZero (h : d.isZero = true) : d.toRat = 0 := by
  have hzero : d.coefficient = 0 := of_decide_eq_true h
  simp [Decimal.toRat, Decimal.signed, hzero]

/-- Decimals of one sign are all zero, or all negative, or neither of them is. -/
theorem Decimal.flags_of_sign (h : a.sign = b.sign) :
    b.isZero = a.isZero ∧ (a.isZero = false → b.negative = a.negative) := by
  unfold Decimal.sign at h
  cases ha : a.isZero <;> cases hb : b.isZero <;> cases hna : a.negative <;>
    cases hnb : b.negative <;> simp [ha, hb, hna, hnb] at h ⊢

theorem Decimal.compareTo_compares (a b : Decimal) :
    (a.compareTo b).Compares a.toRat b.toRat := by
  unfold Decimal.compareTo
  cases hsigns : compare a.sign b.sign with
  | lt => exact Decimal.toRat_lt_of_sign (compare_lt_iff_lt.mp hsigns)
  | gt => exact Decimal.toRat_lt_of_sign (compare_gt_iff_gt.mp hsigns)
  | eq =>
    -- Digits are compared only where the signs agree, and the other way round below zero.
    obtain ⟨hzero, hnegative⟩ := Decimal.flags_of_sign (compare_eq_iff_eq.mp hsigns)
    cases ha : a.isZero with
    | true =>
      exact (Decimal.toRat_of_isZero ha).trans (Decimal.toRat_of_isZero (hzero.trans ha)).symm
    | false =>
      have hpos : 0 < a.coefficient := Nat.pos_of_ne_zero (of_decide_eq_false ha)
      have hpos' : 0 < b.coefficient := Nat.pos_of_ne_zero (of_decide_eq_false (hzero.trans ha))
      rw [a.toRat_eq_magnitude, b.toRat_eq_magnitude, hnegative ha]
      cases a.negative with
      | true => exact compares_neg (Decimal.compareDigits_compares hpos' hpos)
      | false => exact Decimal.compareDigits_compares hpos hpos'

end

/-- The smallest positive double. -/
def smallest : ℚ :=
  1 / 2 ^ 1074

theorem smallest_pos : 0 < smallest :=
  div_pos one_pos (pow_pos two_pos _)

theorem smallest_mul : (twoTo 1074 : ℕ) * smallest = 1 := by
  rw [twoTo_cast]
  exact mul_one_div_cancel (pow_ne_zero _ two_ne_zero)

theorem eq_two_pow_of_dvd {d n : ℕ} (h : d ∣ twoTo n) : d = 2 ^ d.log2 := by
  obtain ⟨k, _, hk⟩ := (Nat.dvd_prime_pow Nat.prime_two).mp h
  rw [hk, Nat.log2_two_pow]

section
variable (x : Double)

theorem Double.toRat_eq_units : x.toRat = x.units * smallest := by
  rw [Double.toRat, Double.units, Double.magnitude, Rat.mkRat_eq_div, twoTo_cast,
    div_eq_mul_one_div]
  split
  · rw [Int.cast_neg, neg_mul]
    rfl
  · rfl

theorem Double.toRat_mul_units : x.toRat * (twoTo 1074 : ℕ) = x.units := by
  rw [Double.toRat_eq_units, mul_assoc, mul_comm smallest, smallest_mul, mul_one]

theorem Double.toRat_eq_div : x.toRat = (x.units : ℤ) / (twoTo 1074 : ℕ) :=
  eq_div_of_mul_eq (by exact_mod_cast (twoTo_pos 1074).ne') x.toRat_mul_units

theorem Double.floor_eq : x.floor = ⌊x.toRat⌋ := by
  rw [Double.toRat_eq_div, Rat.floor_intCast_div_natCast]
  rfl

theorem Double.ceil_eq : x.ceil = ⌈x.toRat⌉ := by
  rw [Double.toRat_eq_div, Rat.ceil_intCast_div_natCast]
  rfl

/-- The denominator of a double is a power of two. -/
theorem Double.den_eq : x.toRat.den = 2 ^ x.toRat.den.log2 :=
  eq_two_pow_of_dvd (den_dvd_of_whole (twoTo_pos 1074) x.toRat_mul_units)

theorem Double.toRat_sign : if x.negative then x.toRat ≤ 0 else 0 ≤ x.toRat := by
  have hpos : (0 : ℚ) ≤ (x.significand * twoTo x.unit : ℕ) * smallest :=
    mul_nonneg (Nat.cast_nonneg _) smallest_pos.le
  rw [Double.toRat_eq_units, Double.units]
  split
  · rw [Int.cast_neg, neg_mul]
    exact neg_nonpos.mpr hpos
  · exact hpos

theorem Double.num_sign :
    (if x.negative then -(x.toRat.num.natAbs : ℤ) else x.toRat.num.natAbs) = x.toRat.num := by
  have hsign := x.toRat_sign
  rw [← Rat.num_nonneg, ← Rat.num_nonpos] at hsign
  split at hsign
  next hneg => rw [if_pos hneg]; omega
  next hpos => rw [if_neg hpos]; omega

theorem Decimal.toRat_ofDouble : (Decimal.ofDouble x).toRat = x.toRat := by
  have hsigned : (Decimal.ofDouble x).signed = x.toRat.num * (5 ^ x.toRat.den.log2 : ℕ) := by
    rw [← x.num_sign, ite_mul, neg_mul, ← Nat.cast_mul]
    rfl
  have hten : (10 : ℚ) ^ x.toRat.den.log2 = x.toRat.den * 5 ^ x.toRat.den.log2 := by
    rw [show (10 : ℚ) = 2 * 5 by norm_num, mul_pow]
    congr 1
    exact_mod_cast x.den_eq.symm
  have hexp : (Decimal.ofDouble x).exponent = -(x.toRat.den.log2 : ℤ) := rfl
  have hden : (x.toRat.den : ℚ) ≠ 0 := by exact_mod_cast x.toRat.den_nz
  rw [Decimal.toRat_eq, hsigned, hexp, zpow_neg, zpow_natCast, hten]
  push_cast
  calc (x.toRat.num : ℚ) * 5 ^ x.toRat.den.log2 * ((x.toRat.den : ℚ) * 5 ^ x.toRat.den.log2)⁻¹
      = x.toRat.num / x.toRat.den := by field_simp
    _ = x.toRat := Rat.num_div_den _

end

theorem Number.compareTo_compares (a b : Number) : (a.compareTo b).Compares a.toRat b.toRat := by
  have hunits : ∀ n : ℤ, (n : ℚ) = (n * twoTo 1074 : ℤ) * smallest := by
    intro n
    rw [Int.cast_mul, Int.cast_natCast, mul_assoc, smallest_mul, mul_one]
  have hdecimals {d e : Decimal} {p q : ℚ} (hd : d.toRat = p) (he : e.toRat = q) :
      (d.compareTo e).Compares p q := hd ▸ he ▸ d.compareTo_compares e
  match a, b with
  | .natural m, .natural n =>
    exact compares_scaled one_pos (mul_one _).symm (mul_one _).symm
  | .natural m, .decimal e => exact hdecimals (toRat_ofInt m) rfl
  | .natural m, .float y => exact compares_scaled smallest_pos (hunits m) y.toRat_eq_units
  | .decimal d, .natural n => exact hdecimals rfl (toRat_ofInt n)
  | .decimal d, .decimal e => exact d.compareTo_compares e
  | .decimal d, .float y => exact hdecimals rfl (Decimal.toRat_ofDouble y)
  | .float x, .natural n => exact compares_scaled smallest_pos x.toRat_eq_units (hunits n)
  | .float x, .decimal e => exact hdecimals (Decimal.toRat_ofDouble x) rfl
  | .float x, .float y => exact compares_scaled smallest_pos x.toRat_eq_units y.toRat_eq_units

theorem Number.equals_iff {a b : Number} : a.equals b = true ↔ a.toRat = b.toRat := by
  rw [Number.equals, decide_eq_true_iff]
  exact (a.compareTo_compares b).eq_eq

theorem Number.less_iff {a b : Number} : a.less b = true ↔ a.toRat < b.toRat := by
  rw [Number.less, decide_eq_true_iff]
  exact (a.compareTo_compares b).eq_lt

/-- What a comparison of numbers means for the rational numbers they stand for. -/
def Comparison.Relates (comparison : Comparison) (p q : ℚ) : Prop :=
  match comparison with
  | .equal => p = q
  | .unequal => p ≠ q
  | .less => p < q
  | .atMost => p ≤ q
  | .greater => p > q
  | .atLeast => p ≥ q

theorem Comparison.holds_iff (comparison : Comparison) (a b : Number) :
    comparison.holds a b = true ↔ comparison.Relates a.toRat b.toRat := by
  cases comparison with
  | equal => exact Number.equals_iff
  | unequal =>
    rw [Comparison.holds, Bool.not_eq_true', ← Bool.not_eq_true, Number.equals_iff]
    rfl
  | less => exact Number.less_iff
  | atMost =>
    rw [Comparison.holds, Bool.or_eq_true, Number.less_iff, Number.equals_iff]
    exact le_iff_lt_or_eq.symm
  | greater =>
    rw [Comparison.holds, Bool.and_eq_true, Bool.not_eq_true', Bool.not_eq_true',
      ← Bool.not_eq_true, ← Bool.not_eq_true, Number.less_iff, Number.equals_iff]
    exact ⟨fun ⟨hless, hequal⟩ => lt_of_le_of_ne (not_lt.mp hless) (Ne.symm hequal),
      fun h => ⟨not_lt.mpr h.le, h.ne'⟩⟩
  | atLeast =>
    rw [Comparison.holds, Bool.not_eq_true', ← Bool.not_eq_true, Number.less_iff]
    exact not_lt

/-- The six comparisons are those of one total order, in which equal numbers share a place. -/
structure TotallyOrdered (holds : Comparison → Number → Number → Bool) : Prop where
  refl : ∀ a, holds .atMost a a = true
  trans : ∀ {a b c}, holds .atMost a b = true → holds .atMost b c = true → holds .atMost a c = true
  total : ∀ a b, holds .atMost a b = true ∨ holds .atMost b a = true
  equal_iff : ∀ a b, holds .equal a b = true ↔ holds .atMost a b = true ∧ holds .atMost b a = true
  unequal_iff : ∀ a b, holds .unequal a b = true ↔ ¬ holds .equal a b = true
  less_iff : ∀ a b, holds .less a b = true ↔ ¬ holds .atMost b a = true
  greater_iff : ∀ a b, holds .greater a b = true ↔ holds .less b a = true
  atLeast_iff : ∀ a b, holds .atLeast a b = true ↔ holds .atMost b a = true

/-- Comparisons by the numbers that two things stand for are those of a total order. -/
theorem totallyOrdered_of_relates {holds : Comparison → Number → Number → Bool}
    (h : ∀ comparison a b, holds comparison a b = true ↔ comparison.Relates a.toRat b.toRat) :
    TotallyOrdered holds where
  refl a := (h _ _ _).mpr le_rfl
  trans hab hbc := (h _ _ _).mpr (le_trans ((h _ _ _).mp hab) ((h _ _ _).mp hbc))
  total a b := by
    rw [h, h]
    exact le_total a.toRat b.toRat
  equal_iff a b := by
    rw [h, h, h]
    exact le_antisymm_iff
  unequal_iff a b := by
    rw [h, h]
    rfl
  less_iff a b := by
    rw [h, h]
    exact not_le.symm
  greater_iff a b := by
    rw [h, h]
    rfl
  atLeast_iff a b := by
    rw [h, h]
    rfl

end Reckoner
