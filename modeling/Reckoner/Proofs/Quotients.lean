import Reckoner.Proofs.ExactArithmetic

namespace Reckoner

section
variable {r : ℚ}

/-- A fraction that lies half a unit from a decimal is a decimal itself, of one digit more. -/
theorem finiteDecimal_of_half {d : Decimal} (h : |d.toRat - r| = 10 ^ d.exponent / 2) :
    FiniteDecimal r := by
  have hhalf : ∀ negative, (Decimal.mk negative 5 (d.exponent - 1)).toRat =
      if negative then -((10 : ℚ) ^ d.exponent / 2) else 10 ^ d.exponent / 2 := by
    intro negative
    rw [Decimal.toRat_eq, zpow_sub₀ (by norm_num : (10 : ℚ) ≠ 0)]
    cases negative <;> norm_num [Decimal.signed] <;> ring
  have hpos : (0 : ℚ) ≤ 10 ^ d.exponent / 2 := by positivity
  rcases (abs_eq hpos).mp h with hdiff | hdiff
  · have hr : r = (d.add ⟨true, 5, d.exponent - 1⟩).toRat := by
      rw [toRat_add, hhalf, if_pos rfl, ← hdiff]
      ring
    exact hr ▸ finiteDecimal_toRat _
  · have hr : r = (d.add ⟨false, 5, d.exponent - 1⟩).toRat := by
      rw [toRat_add, hhalf, if_neg (by simp)]
      linarith
    exact hr ▸ finiteDecimal_toRat _

theorem ofFinite_eq_none (h : ¬ FiniteDecimal r) : Decimal.ofFinite? r = none := by
  rwa [finiteDecimal_iff, Option.not_isSome_iff_eq_none] at h

def Decimal.places (d : Decimal) : ℕ :=
  (-d.exponent).toNat

/-- A fraction with a finite expansion is written with as few decimals as can be. -/
theorem places_le {d : Decimal} (hd : Decimal.ofFinite? r = some d) {k : ℕ} {n : ℤ}
    (h : r * 10 ^ k = n) : d.places ≤ k := by
  obtain ⟨places, hplaces, rfl⟩ := Option.map_eq_some_iff.mp hd
  obtain ⟨twos, fives, rest, hden, _, hmax⟩ := decimalPlaces_eq r.den
  rw [hplaces] at hmax
  split at hmax
  next hrest =>
    have hdvd := den_dvd_of_mul h
    have hten : (10 : ℕ) ^ k = 2 ^ k * 5 ^ k := Nat.mul_pow 2 5 k
    rw [hden, hrest, mul_one, hten] at hdvd
    have htwos : 2 ^ twos ∣ 2 ^ k :=
      Nat.Coprime.dvd_of_dvd_mul_right (Nat.Coprime.pow twos k (by decide))
        (dvd_trans (dvd_mul_right _ _) hdvd)
    have hfives : 5 ^ fives ∣ 5 ^ k :=
      Nat.Coprime.dvd_of_dvd_mul_left (Nat.Coprime.pow fives k (by decide))
        (dvd_trans (dvd_mul_left _ _) hdvd)
    have hle : twos ≤ k := (Nat.pow_dvd_pow_iff_le_right (by decide)).mp htwos
    have hle' : fives ≤ k := (Nat.pow_dvd_pow_iff_le_right (by decide)).mp hfives
    have hsome := Option.some.inj hmax
    simp only [Decimal.places, neg_neg, Int.toNat_natCast]
    omega
  next => cases hmax

end

section
variable {a b : Number} {p q : ℚ}

def Number.DividedBy (a b : Number) : Prop :=
  ∃ m n : ℤ, a = .natural m ∧ b = .natural n ∧ n ∣ m

/-- The quotient of two naturals or decimals has no finite expansion. -/
structure Number.EndlessOver (a b : Number) : Prop where
  dividend : a.kind ≠ .float
  divisor : b.kind ≠ .float
  nonzero : b.toRat ≠ 0
  endless : ¬ FiniteDecimal (a.toRat / b.toRat)

theorem div_by_zero (precision : ℕ) (a : Number) (h : b.toRat = 0) :
    a.div precision b = .error (.domain .divisionByZero) := by
  have hzero : b.isZero = true := decide_eq_true h
  unfold Number.div
  rw [if_pos hzero]
  rfl

theorem not_isZero (hb : b.Denotes q) (hq : q ≠ 0) : ¬ b.isZero = true := by
  simpa [Number.isZero, hb.2] using hq

theorem div_of_dividedBy (hb : b.Denotes q) (hq : q ≠ 0) {m n : ℤ} (hm : a = .natural m)
    (hn : b = .natural n) (hdvd : n ∣ m) (precision : ℕ) :
    a.div precision b = .ok (.natural (m / n)) := by
  have hzero := not_isZero hb hq
  subst hm hn
  have hmod : m % n = 0 := Int.emod_eq_zero_of_dvd hdvd
  unfold Number.div
  rw [if_neg hzero]
  show (if m % n = 0 then Except.ok (Number.natural (m / n)) else _) = _
  rw [if_pos hmod]

theorem div_eq_ofRat (ha : a.Denotes p) (hb : b.Denotes q) (hq : q ≠ 0) (h : ¬ a.DividedBy b)
    (precision : ℕ) :
    a.div precision b = Number.ofDecimal? (Decimal.ofRat? precision (p / q)) := by
  have hzero := not_isZero hb hq
  unfold Number.div
  rw [if_neg hzero]
  obtain ⟨m, rfl, rfl⟩ | ⟨d, rfl, rfl⟩ := ha.cases
  · obtain ⟨n, rfl, rfl⟩ | ⟨e, rfl, rfl⟩ := hb.cases
    · have hmod : ¬ m % n = 0 := fun hmod => h ⟨m, n, rfl, rfl, Int.dvd_of_emod_eq_zero hmod⟩
      show (if m % n = 0 then Except.ok (Number.natural (m / n)) else _) = _
      rw [if_neg hmod]
    · rw [← toRat_ofInt]
      rfl
  · obtain ⟨n, rfl, rfl⟩ | ⟨e, rfl, rfl⟩ := hb.cases
    · rw [← toRat_ofInt n]
      rfl
    · rfl

theorem div_of_finite (ha : a.Denotes p) (hb : b.Denotes q) (hq : q ≠ 0)
    (hfinite : FiniteDecimal (p / q)) :
    ∃ x, (∀ precision, a.div precision b = .ok x) ∧ x.toRat = p / q := by
  by_cases hdivided : a.DividedBy b
  · obtain ⟨m, n, hm, hn, hdvd⟩ := hdivided
    have hquotient := div_of_dividedBy hb hq hm hn hdvd
    exact ⟨_, hquotient, (div_denotes ha hb hfinite (hquotient 0)).2⟩
  · obtain ⟨d, hd, hvalue⟩ := ofFinite_of_finiteDecimal hfinite
    refine ⟨.decimal d, fun precision => ?_, hvalue⟩
    rw [div_eq_ofRat ha hb hq hdivided, Decimal.ofRat?, hd]
    rfl

theorem div_eq_round (ha : a.Denotes p) (hb : b.Denotes q) (hq : q ≠ 0)
    (hendless : ¬ FiniteDecimal (p / q)) (precision : ℕ) :
    a.div precision b = Number.ofDecimal? ((quotientContext precision).round (p / q)) := by
  have hdivided : ¬ a.DividedBy b := by
    rintro ⟨m, n, rfl, rfl, c, rfl⟩
    have hn : (n : ℚ) ≠ 0 := by
      rw [← hb.2] at hq
      exact hq
    refine hendless ⟨0, c, ?_⟩
    rw [← ha.2, ← hb.2]
    show ((n * c : ℤ) : ℚ) / (n : ℤ) * 10 ^ 0 = c
    push_cast
    field_simp
  rw [div_eq_ofRat ha hb hq hdivided, Decimal.ofRat?, ofFinite_eq_none hendless]

theorem finiteDecimal_zero : FiniteDecimal 0 :=
  ⟨0, 0, by simp⟩

/-- The quotient of two naturals or decimals. Where it has a finite expansion it is exact, and the
same at every precision: a natural where both are naturals and the second one divides the first one,
and else a decimal with as few decimals as can be. Where it has none it is too large, or a decimal
that is off by less than half a unit of its last digit; this one has as many digits as the precision
says, unless the quotient is so small that its last digit is at the least exponent. -/
theorem quotient_exact_or_rounded (ha : a.Denotes p) (hb : b.Denotes q) (hq : q ≠ 0) :
    (FiniteDecimal (p / q) → ∃ x, (∀ precision, a.div precision b = .ok x) ∧ x.toRat = p / q ∧
      (a.DividedBy b → x.kind = .natural) ∧
      (¬ a.DividedBy b → ∃ d, x = .decimal d ∧
        ∀ (k : ℕ) (n : ℤ), p / q * 10 ^ k = n → d.places ≤ k)) ∧
    (¬ FiniteDecimal (p / q) → ∀ precision, 1 ≤ precision →
      ((quotientContext precision).limit ≤ |p / q| →
        a.div precision b = .error (.fault .decimalTooLarge)) ∧
      (|p / q| < (quotientContext precision).limit →
        ∃ d, a.div precision b = .ok (.decimal d) ∧ |d.toRat - p / q| < 10 ^ d.exponent / 2 ∧
          (10 ^ (quotientContext precision).lowest ≤ |p / q| →
            digitCount d.coefficient = precision) ∧
          (|p / q| < 10 ^ (quotientContext precision).lowest →
            d.exponent = (quotientContext precision).leastExponent))) := by
  constructor
  · intro hfinite
    by_cases hdivided : a.DividedBy b
    · obtain ⟨m, n, hm, hn, hdvd⟩ := hdivided
      have hquotient := div_of_dividedBy hb hq hm hn hdvd
      exact ⟨_, hquotient, (div_denotes ha hb hfinite (hquotient 0)).2, fun _ => rfl,
        fun hnot => absurd ⟨m, n, hm, hn, hdvd⟩ hnot⟩
    · obtain ⟨d, hd, hvalue⟩ := ofFinite_of_finiteDecimal hfinite
      refine ⟨.decimal d, fun precision => ?_, hvalue, fun h => absurd h hdivided,
        fun _ => ⟨d, rfl, fun k n => places_le hd⟩⟩
      rw [div_eq_ofRat ha hb hq hdivided, Decimal.ofRat?, hd]
      rfl
  · intro hendless precision hprecision
    have hc := DecimalContext.quotientContext_sound hprecision
    have hne : p / q ≠ 0 := by
      intro hzero
      rw [hzero] at hendless
      exact hendless finiteDecimal_zero
    rw [div_eq_round ha hb hq hendless]
    constructor
    · intro hlarge
      rw [(DecimalContext.round_eq_none_iff hc).mpr hlarge]
      rfl
    · intro hless
      obtain ⟨hround, hnear⟩ := DecimalContext.round_near hc hless
      rw [hround]
      refine ⟨_, rfl, lt_of_le_of_ne hnear fun hhalf => hendless (finiteDecimal_of_half hhalf),
        fun hplace => DecimalContext.digitCount_round hc hplace,
        fun hplace => DecimalContext.exponent_round hc hne hplace⟩

end

theorem twoThirds_infinite : ¬ FiniteDecimal (2 / 3) := by
  decide +kernel

/-- Two thirds are rounded to the precision, and an eighth has three decimals at every precision. -/
theorem twoThirds_rounded_eighth_exact :
    ((Number.natural 2).div 5 (.decimal ⟨false, 30, -1⟩) = .ok (.decimal ⟨false, 66667, -5⟩) ∧
      digitCount 66667 = 5 ∧
      |(Decimal.mk false 66667 (-5)).toRat - 2 / 3| < 10 ^ (-5 : ℤ) / 2) ∧
    ∃ d, (∀ precision, (Number.natural 1).div precision (.natural 8) = .ok (.decimal d)) ∧
      d.toRat = 1 / 8 ∧ d.places ≤ 3 := by
  have hthree : (Decimal.mk false 30 (-1)).toRat = 3 := by decide +kernel
  have hrounded : (Number.natural 2).div 5 (.decimal ⟨false, 30, -1⟩) =
      .ok (.decimal ⟨false, 66667, -5⟩) := by decide +kernel
  have hone : |(2 / 3 : ℚ)| = 2 / 3 := by norm_num [abs_of_pos]
  constructor
  · have hless : |(2 / 3 : ℚ)| < (quotientContext 5).limit := by
      have hlimit := (DecimalContext.limit_bounds
        (DecimalContext.quotientContext_sound (by decide : 0 < 5))).1
      have hle : (1 : ℚ) ≤ 10 ^ (quotientContext 5).highest :=
        one_le_zpow₀ (by norm_num) (by decide)
      rw [hone]
      linarith
    have hplace : 10 ^ (quotientContext 5).lowest ≤ |(2 / 3 : ℚ)| := by
      have hle : (10 : ℚ) ^ (quotientContext 5).lowest ≤ 10 ^ (-1 : ℤ) :=
        zpow_le_zpow_right₀ (by norm_num) (by decide)
      have htenth : (10 : ℚ) ^ (-1 : ℤ) ≤ 2 / 3 := by norm_num
      rw [hone]
      exact hle.trans htenth
    obtain ⟨d, hd, hnear, hdigits, _⟩ := ((quotient_exact_or_rounded (natural_denotes 2)
      (decimal_denotes hthree) (by norm_num)).2 twoThirds_infinite 5 (by decide)).2 hless
    rw [hrounded] at hd
    cases hd
    exact ⟨hrounded, hdigits hplace, hnear⟩
  · have heighth : FiniteDecimal (1 / 8) := ⟨3, 125, by norm_num⟩
    have hdivided : ¬ (Number.natural 1).DividedBy (.natural 8) := by
      rintro ⟨m, n, hm, hn, hdvd⟩
      cases hm
      cases hn
      exact absurd hdvd (by decide)
    obtain ⟨x, hx, hvalue, _, hdecimal⟩ := (quotient_exact_or_rounded (natural_denotes 1)
      (natural_denotes 8) (by norm_num)).1 heighth
    obtain ⟨d, rfl, hleast⟩ := hdecimal hdivided
    exact ⟨d, hx, hvalue, hleast 3 125 (by norm_num)⟩

theorem powerThird_infinite (n : ℕ) : ¬ FiniteDecimal (10 ^ n / 3) := by
  rintro ⟨k, m, h⟩
  have hmul : (10 : ℚ) ^ (n + k) = m * 3 := by
    rw [← h, pow_add]
    ring
  have hint : (10 : ℤ) ^ (n + k) = m * 3 := by exact_mod_cast hmul
  have hdvd : (3 : ℤ) ∣ 10 ^ (n + k) := ⟨m, by rw [hint, mul_comm]⟩
  exact absurd (Int.prime_three.dvd_of_dvd_pow hdvd) (by decide)

theorem powerThird_refused {n : ℕ} (h : 1000001 ≤ n) :
    (Number.natural (10 ^ n)).div 28 (.natural 3) = .error (.fault .decimalTooLarge) := by
  have ha : (Number.natural (10 ^ n)).Denotes (10 ^ n) := by exact_mod_cast natural_denotes (10 ^ n)
  have hb : (Number.natural 3).Denotes 3 := natural_denotes 3
  have hc := DecimalContext.quotientContext_sound (by decide : 0 < 28)
  have hlarge : (quotientContext 28).limit ≤ |(10 : ℚ) ^ n / 3| := by
    have hplace : (quotientContext 28).highest + 1 ≤ ((n - 1 : ℕ) : ℤ) := by
      show (999999 : ℤ) + 1 ≤ _
      omega
    have hten : (10 : ℚ) ^ n = 10 * 10 ^ (n - 1) := by
      rw [← pow_succ', Nat.sub_add_cancel (by omega)]
    have hpos : (0 : ℚ) < 10 ^ (n - 1) := pow_pos (by norm_num) _
    calc (quotientContext 28).limit ≤ 10 ^ ((quotientContext 28).highest + 1) :=
          (DecimalContext.limit_bounds hc).2.le
      _ ≤ 10 ^ ((n - 1 : ℕ) : ℤ) := zpow_le_zpow_right₀ (by norm_num) hplace
      _ = 10 ^ (n - 1) := zpow_natCast _ _
      _ ≤ 10 ^ n / 3 := by linarith
      _ ≤ |10 ^ n / 3| := le_abs_self _
  rw [div_eq_round ha hb (by norm_num) (powerThird_infinite n),
    (DecimalContext.round_eq_none_iff hc).mpr hlarge]
  rfl

theorem largeThird_refused :
    ¬ FiniteDecimal (10 ^ 1000001 / 3) ∧
      (Number.natural (10 ^ 1000001)).div 28 (.natural 3) = .error (.fault .decimalTooLarge) :=
  ⟨powerThird_infinite 1000001, powerThird_refused (le_refl 1000001)⟩

end Reckoner
