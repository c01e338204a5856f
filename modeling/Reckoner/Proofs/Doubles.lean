import Mathlib
import Reckoner.Number.Arithmetic
import Reckoner.Proofs.DecimalValue

namespace Reckoner

theorem twoTo_fifty_two : twoTo 52 = 4503599627370496 :=
  rfl

theorem twoTo_sixty_three : twoTo 63 = 9223372036854775808 :=
  rfl

theorem toNat_toBits (x : Double) :
    x.toBits.toNat = (if x.negative then twoTo 63 else 0) +
      if x.significand < twoTo 52 then x.significand
      else (x.unit + 1) * twoTo 52 + (x.significand - twoTo 52) := by
  obtain ⟨hsignificand, _, hunit⟩ := x.canonical
  have hdouble := twoTo_fifty_three
  rw [Double.toBits, UInt64.toNat_ofNat']
  rw [twoTo_fifty_two] at hdouble ⊢
  rw [twoTo_sixty_three]
  apply Nat.mod_eq_of_lt
  split <;> split <;> omega

@[simp] theorem ofBits_toBits (x : Double) : ExtendedDouble.ofBits x.toBits = .finite x := by
  have hword := toNat_toBits x
  obtain ⟨negative, significand, unit, hcanonical⟩ := x
  obtain ⟨hsignificand, hnormal, hunit⟩ := id hcanonical
  generalize (Double.toBits ⟨negative, significand, unit, hcanonical⟩) = bits at hword ⊢
  simp only at hword
  rw [twoTo_fifty_three] at hsignificand
  by_cases hsmall : significand < twoTo 52
  · have hzero : unit = 0 := hnormal.resolve_left (by omega)
    subst hzero
    rw [if_pos hsmall] at hword
    simp only [twoTo_fifty_two, twoTo_sixty_three] at hword hsmall
    have hsign : decide (twoTo 63 ≤ bits.toNat) = negative := by
      rw [hword, twoTo_sixty_three]
      cases negative with
      | true => simp
      | false => simp; omega
    have hexponent : bits.toNat / twoTo 52 % 2048 = 0 := by
      rw [hword, twoTo_fifty_two]
      split <;> omega
    have hfraction : bits.toNat % twoTo 52 = significand := by
      rw [hword, twoTo_fifty_two]
      split <;> omega
    simp [ExtendedDouble.ofBits, hsign, hexponent, hfraction]
  · rw [if_neg hsmall] at hword
    have hwhole : twoTo 52 + (significand - twoTo 52) = significand := by omega
    have hbelow : unit + 1 < 2047 := by omega
    simp only [twoTo_fifty_two, twoTo_sixty_three] at hword hsmall hsignificand
    have hsign : decide (twoTo 63 ≤ bits.toNat) = negative := by
      rw [hword, twoTo_sixty_three]
      cases negative with
      | true => simp
      | false => simp; omega
    have hexponent : bits.toNat / twoTo 52 % 2048 = unit + 1 := by
      rw [hword, twoTo_fifty_two]
      split <;> omega
    have hfraction : bits.toNat % twoTo 52 = significand - twoTo 52 := by
      rw [hword, twoTo_fifty_two]
      split <;> omega
    simp [ExtendedDouble.ofBits, hsign, hexponent, hfraction, hbelow, hwhole]

theorem roundHalfEven_eq_zero {num den : ℕ} (hden : 0 < den) :
    roundHalfEven num den = 0 ↔ 2 * num ≤ den := by
  have hmod := Nat.mod_lt num hden
  constructor
  · intro h
    have hquotient : num / den = 0 ∧ 2 * (num % den) ≤ den := by
      unfold roundHalfEven at h
      simp only at h
      split at h
      next hlow => exact ⟨h, hlow.le⟩
      next hlow =>
        split at h
        · exact absurd h (Nat.succ_ne_zero _)
        next hhigh =>
          split at h
          · exact ⟨h, by omega⟩
          · exact absurd h (Nat.succ_ne_zero _)
    have hrest : num % den = num := Nat.mod_eq_of_lt ((Nat.div_eq_zero_iff_lt hden).mp hquotient.1)
    rw [← hrest]
    exact hquotient.2
  · intro h
    have hlt : num < den := by omega
    have hhigh : ¬ den < 2 * num := by omega
    simp [roundHalfEven, Nat.div_eq_of_lt hlt, Nat.mod_eq_of_lt hlt, hhigh]

/-- The double nearest to `scaled / den` units of the smallest positive double. -/
def Double.ofUnits (negative : Bool) (scaled den : ℕ) : Option Double :=
  let unit := (scaled / den).log2 - 52
  let rounded := roundHalfEven scaled (den * twoTo unit)
  let (significand, unit) :=
    if rounded = twoTo 53 then (twoTo 52, unit + 1) else (rounded, unit)
  if h : Canonical significand unit then some ⟨negative, significand, unit, h⟩ else none

theorem ofRatio_eq_ofUnits (negative : Bool) (num den : ℕ) :
    Double.ofRatio negative num den = Double.ofUnits negative (num * twoTo 1074) den :=
  rfl

section
variable {negative : Bool} {scaled den : ℕ}

theorem ofUnits_zero (hden : 0 < den) (h : 2 * scaled ≤ den) :
    Double.ofUnits negative scaled den = some (.zero negative) := by
  have hlt : scaled < den := by omega
  have hunit : (scaled / den).log2 - 52 = 0 := by
    rw [Nat.div_eq_of_lt hlt]
    rfl
  have hrounded : roundHalfEven scaled (den * twoTo 0) = 0 := by
    rw [show twoTo 0 = 1 from rfl, mul_one]
    exact (roundHalfEven_eq_zero hden).mpr h
  have hne : (0 : ℕ) ≠ twoTo 53 := by decide
  have hcanonical : Canonical 0 0 := by decide
  simp only [Double.ofUnits, hunit, hrounded, if_neg hne, dif_pos hcanonical, Double.zero]

theorem le_of_ofUnits_zero {x : Double} (hden : 0 < den)
    (h : Double.ofUnits negative scaled den = some x) (hzero : x.isZero = true) :
    2 * scaled ≤ den := by
  have hsignificand : x.significand = 0 := by simpa [Double.isZero] using hzero
  have hpositive : (0 : ℕ) < twoTo 52 := by decide
  unfold Double.ofUnits at h
  simp only at h
  split at h
  · split at h
    · cases h
      exact absurd hsignificand hpositive.ne'
    · cases h
  · split at h
    next hcanonical =>
      cases h
      simp only at hcanonical hsignificand
      -- A canonical significand is below `2 ^ 52` in the smallest unit only.
      have hunit : (scaled / den).log2 - 52 = 0 := by
        refine hcanonical.2.1.resolve_left fun hle => ?_
        rw [hsignificand] at hle
        omega
      rw [hunit, show twoTo 0 = 1 from rfl, mul_one] at hsignificand
      exact (roundHalfEven_eq_zero hden).mp hsignificand
    next => cases h

end

@[simp] theorem twoTo_pos (n : ℕ) : 0 < twoTo n :=
  Nat.pow_pos (by decide)

theorem twoTo_cast (n : ℕ) : ((twoTo n : ℕ) : ℚ) = 2 ^ n := by
  simp [twoTo]

theorem abs_eq_natAbs_div (r : ℚ) : |r| = (r.num.natAbs : ℚ) / r.den := by
  rw [Nat.cast_natAbs, Int.cast_abs, ← Nat.abs_cast r.den, ← abs_div, Rat.num_div_den]

theorem abs_le_iff_num (r : ℚ) (n : ℕ) :
    |r| ≤ 1 / 2 ^ (n + 1) ↔ 2 * (r.num.natAbs * twoTo n) ≤ r.den := by
  have hden : (0 : ℚ) < r.den := by exact_mod_cast r.den_pos
  rw [abs_eq_natAbs_div, div_le_div_iff₀ hden (by positivity), ← @Nat.cast_le ℚ]
  push_cast
  rw [twoTo_cast, pow_succ]
  constructor <;> intro h <;> linarith

/-- Half the smallest positive double. -/
def tiny : ℚ :=
  1 / 2 ^ (1074 + 1)

theorem tiny_pos : 0 < tiny :=
  div_pos one_pos (pow_pos two_pos _)

theorem ofRat_of_le_tiny {r : ℚ} (sign : Bool) (h : |r| ≤ tiny) :
    ∃ x, Double.ofRat sign r = some x ∧ x.isZero = true := by
  have hunits := (abs_le_iff_num r 1074).mp h
  rw [Double.ofRat, ofRatio_eq_ofUnits]
  exact ⟨_, ofUnits_zero r.den_pos hunits, rfl⟩

theorem le_tiny_of_ofRat {sign : Bool} {r : ℚ} {x : Double} (h : Double.ofRat sign r = some x)
    (hzero : x.isZero = true) : |r| ≤ tiny := by
  rw [Double.ofRat, ofRatio_eq_ofUnits] at h
  exact (abs_le_iff_num r 1074).mpr (le_of_ofUnits_zero r.den_pos h hzero)

theorem Double.toRat_of_isZero {x : Double} (h : x.isZero = true) : x.toRat = 0 := by
  have hsignificand : x.significand = 0 := by simpa [Double.isZero] using h
  simp [Double.toRat, Double.magnitude, hsignificand]

theorem eq_zero_of_units_le {k n : ℕ} (h : (k : ℚ) / 2 ^ n ≤ 1 / 2 ^ (n + 1)) : k = 0 := by
  rw [div_le_div_iff₀ (by positivity) (by positivity), pow_succ, one_mul] at h
  have hpos : (0 : ℚ) < 2 ^ n := by positivity
  have htwice : (k : ℚ) * 2 ≤ 1 := by
    by_contra hlarge
    nlinarith
  have hcast : k * 2 ≤ 1 := by exact_mod_cast htwice
  omega

theorem Double.isZero_of_le_tiny {x : Double} (h : |x.toRat| ≤ tiny) : x.isZero = true := by
  have hpos : 0 ≤ x.magnitude := by
    rw [Double.magnitude, Rat.mkRat_eq_div]
    positivity
  have hmagnitude : x.magnitude = ((x.significand * twoTo x.unit : ℕ) : ℚ) / 2 ^ 1074 := by
    rw [Double.magnitude, Rat.mkRat_eq_div, twoTo_cast, Int.cast_natCast]
  have habs : |x.toRat| = x.magnitude := by
    rw [Double.toRat]
    split
    · rw [abs_neg, abs_of_nonneg hpos]
    · exact abs_of_nonneg hpos
  rw [habs, hmagnitude] at h
  have hunits := eq_zero_of_units_le h
  have htwo : twoTo x.unit ≠ 0 := (twoTo_pos _).ne'
  have hsignificand : x.significand = 0 := (Nat.mul_eq_zero.mp hunits).resolve_right htwo
  simp [Double.isZero, hsignificand]

theorem roundHalfEven_near (num den : ℕ) :
    num / den ≤ roundHalfEven num den ∧ roundHalfEven num den ≤ num / den + 1 := by
  unfold roundHalfEven
  simp only
  split
  · omega
  split
  · omega
  split <;> omega

/-- A significand that is rounded up to the next power of two is the smallest one of the next
unit. -/
theorem canonical_carried {rounded unit : ℕ} (hhigh : rounded ≤ twoTo 53)
    (hlow : unit ≠ 0 → twoTo 52 ≤ rounded) (hunit : unit ≤ 2044) :
    Canonical (if rounded = twoTo 53 then (twoTo 52, unit + 1) else (rounded, unit)).1
      (if rounded = twoTo 53 then (twoTo 52, unit + 1) else (rounded, unit)).2 := by
  have hdouble := twoTo_fifty_three
  have hpos := twoTo_pos 52
  split
  · exact ⟨by omega, .inl le_rfl, by omega⟩
  · exact ⟨by omega, by by_cases h : unit = 0 <;> tauto, by omega⟩

theorem ofUnits_exists {scaled den : ℕ} (negative : Bool) (h : scaled / den < twoTo 2097) :
    ∃ x, Double.ofUnits negative scaled den = some x := by
  generalize hunit : (scaled / den).log2 - 52 = unit
  have hpos := twoTo_pos unit
  have hquotient : scaled / (den * twoTo unit) = scaled / den / twoTo unit :=
    (Nat.div_div_eq_div_mul scaled den (twoTo unit)).symm
  obtain ⟨hleast, hmost⟩ := roundHalfEven_near scaled (den * twoTo unit)
  rw [hquotient] at hleast hmost
  generalize hq : scaled / den = q at *
  have hpower : q.log2 ≠ 0 → twoTo q.log2 ≤ q := by
    intro hlog
    refine Nat.log2_self_le ?_
    rintro rfl
    exact hlog Nat.log2_zero
  have hhigh : q / twoTo unit < twoTo 53 := by
    have hlog : q < twoTo (q.log2 + 1) := lt_twoTo_log2 q
    have hle : twoTo (q.log2 + 1) ≤ twoTo (53 + unit) := twoTo_le_twoTo (by omega)
    rw [Nat.div_lt_iff_lt_mul hpos, ← twoTo_add]
    omega
  have hlow : unit ≠ 0 → twoTo 52 ≤ q / twoTo unit := by
    intro hne
    have hlog : q.log2 = 52 + unit := by omega
    rw [Nat.le_div_iff_mul_le hpos, ← twoTo_add, ← hlog]
    exact hpower (by omega)
  have hlargest : unit ≤ 2044 := by
    by_contra hlarge
    have hlog : twoTo 2097 ≤ twoTo q.log2 := twoTo_le_twoTo (by omega)
    have hless := hpower (by omega)
    omega
  have hcanonical := canonical_carried (hmost.trans hhigh)
    (fun hne => (hlow hne).trans hleast) hlargest
  unfold Double.ofUnits
  simp only [hq, hunit]
  exact ⟨_, dif_pos hcanonical⟩

section
variable {num den n : ℕ}

/-- Half a unit above `n` is reached in the unit of `n` or in a later one. -/
theorem half_above_iff (hden : 0 < den) :
    (2 * n + 1) * den ≤ 2 * num ↔ n < num / den ∨ (n = num / den ∧ den ≤ 2 * (num % den)) := by
  have hmod := Nat.mod_lt num hden
  have hsplit := Nat.div_add_mod num den
  generalize num / den = q at *
  generalize num % den = r at *
  subst hsplit
  constructor
  · intro h
    rcases Nat.lt_trichotomy n q with hlt | rfl | hgt
    · exact .inl hlt
    · exact .inr ⟨rfl, by nlinarith⟩
    · have : den * (q + 1) ≤ den * n := Nat.mul_le_mul_left den hgt
      nlinarith
  · rintro (h | ⟨rfl, h⟩)
    · have : den * (n + 1) ≤ den * q := Nat.mul_le_mul_left den h
      nlinarith
    · nlinarith

/-- From half a unit above an odd number on, a fraction is rounded to a larger one. -/
theorem lt_roundHalfEven_iff (hden : 0 < den) (hodd : n % 2 = 1) :
    n < roundHalfEven num den ↔ (2 * n + 1) * den ≤ 2 * num := by
  rw [half_above_iff hden, roundHalfEven]
  split
  · omega
  split
  · omega
  split <;> omega

end

def largestSignificand : ℕ :=
  twoTo 53 - 1

/-- Half a unit beyond the largest double, in units of the smallest one. -/
def overflowUnits : ℕ :=
  (2 * largestSignificand + 1) * twoTo 2044

theorem overflowUnits_bounds : twoTo 2097 ≤ overflowUnits ∧ overflowUnits < twoTo 2098 := by
  decide +kernel

theorem le_log2_iff {k n : ℕ} (hn : n ≠ 0) : k ≤ n.log2 ↔ twoTo k ≤ n :=
  Nat.le_log2 hn

theorem log2_lt_iff {k n : ℕ} (hn : n ≠ 0) : n.log2 < k ↔ n < twoTo k :=
  Nat.log2_lt hn

/-- A number of units in the last range of a double: it has a nearest double unless its significand
is rounded up to the next power of two. -/
theorem ofUnits_eq_none_of_last {scaled den unit : ℕ} (negative : Bool) (hunit : unit = 2045)
    (hlog : (scaled / den).log2 = 52 + unit) :
    Double.ofUnits negative scaled den = none ↔
      largestSignificand < roundHalfEven scaled (den * twoTo unit) := by
  have hdouble := twoTo_fifty_three
  have hpos := twoTo_pos 52
  have hquotient : scaled / (den * twoTo unit) = scaled / den / twoTo unit :=
    (Nat.div_div_eq_div_mul scaled den (twoTo unit)).symm
  obtain ⟨hleast, hmost⟩ := roundHalfEven_near scaled (den * twoTo unit)
  rw [hquotient] at hleast hmost
  have hne : scaled / den ≠ 0 := by
    intro hzero
    rw [hzero, Nat.log2_zero] at hlog
    omega
  have hlow : twoTo 52 ≤ scaled / den / twoTo unit := by
    rw [Nat.le_div_iff_mul_le (twoTo_pos _), ← twoTo_add]
    exact (le_log2_iff hne).mp hlog.ge
  have hhigh : scaled / den / twoTo unit < twoTo 53 := by
    rw [Nat.div_lt_iff_lt_mul (twoTo_pos _), ← twoTo_add]
    exact (log2_lt_iff hne).mp (by omega)
  have hlargest : largestSignificand + 1 = twoTo 53 := rfl
  unfold Double.ofUnits
  simp only [hlog, Nat.add_sub_cancel_left]
  by_cases hcarried : roundHalfEven scaled (den * twoTo unit) = twoTo 53
  · have hnot : ¬ Canonical (twoTo 52) (unit + 1) := fun h => by
      have := h.2.2
      omega
    simp only [if_pos hcarried, dif_neg hnot, true_iff]
    omega
  · have hcanonical : Canonical (roundHalfEven scaled (den * twoTo unit)) unit :=
      ⟨by omega, .inl (by omega), by omega⟩
    simp only [if_neg hcarried, dif_pos hcanonical, reduceCtorEq, false_iff]
    omega

/-- No double is nearest to what is half a unit beyond the largest one, or more. -/
theorem ofUnits_eq_none_iff {scaled den : ℕ} (negative : Bool) (hden : 0 < den) :
    Double.ofUnits negative scaled den = none ↔ overflowUnits ≤ scaled / den := by
  obtain ⟨hfirst, hlast⟩ := overflowUnits_bounds
  have hpositive := twoTo_pos 2097
  have hbelow : scaled / den < twoTo 2097 ∨ (scaled / den).log2 = 2097 ∨
      twoTo 2098 ≤ scaled / den := by
    by_contra! hnot
    have hne : scaled / den ≠ 0 := by omega
    have hlow := (le_log2_iff hne).mpr hnot.1
    have hhigh := (log2_lt_iff hne).mpr hnot.2.2
    omega
  rcases hbelow with hsmall | hlog | hlarge
  · obtain ⟨x, hx⟩ := ofUnits_exists negative hsmall
    simp only [hx, reduceCtorEq, false_iff]
    omega
  · have hodd : largestSignificand % 2 = 1 := by decide
    have hhalf : (2 * largestSignificand + 1) * (den * twoTo 2045) = 2 * (overflowUnits * den) := by
      rw [overflowUnits, show 2045 = 2044 + 1 from rfl, twoTo_add, show twoTo 1 = 2 from rfl]
      ring
    rw [ofUnits_eq_none_of_last negative rfl hlog,
      lt_roundHalfEven_iff (Nat.mul_pos hden (twoTo_pos _)) hodd, hhalf,
      Nat.le_div_iff_mul_le hden]
    omega
  · have hlog : 2098 ≤ (scaled / den).log2 := (le_log2_iff (by omega)).mpr hlarge
    have hnot : ∀ rounded, ¬ Canonical rounded ((scaled / den).log2 - 52) ∧
        ¬ Canonical rounded ((scaled / den).log2 - 52 + 1) :=
      fun rounded => ⟨fun h => by have := h.2.2; omega, fun h => by have := h.2.2; omega⟩
    have hnone : Double.ofUnits negative scaled den = none := by
      unfold Double.ofUnits
      simp only
      split <;> exact dif_neg (by first | exact (hnot _).1 | exact (hnot _).2)
    simp only [hnone, true_iff]
    omega

/-- Half a unit beyond the largest double. -/
def overflow : ℚ :=
  2 ^ 1024 - 2 ^ 970

theorem overflowUnits_cast : (overflowUnits : ℚ) = overflow * 2 ^ 1074 := by
  have hlargest : ((2 * largestSignificand + 1 : ℕ) : ℚ) = 2 ^ 54 - 1 := by
    norm_num [largestSignificand, twoTo]
  have hscale : (2 : ℚ) ^ 2044 = 2 ^ 970 * 2 ^ 1074 := pow_add 2 970 1074
  have hbound : (2 : ℚ) ^ 1024 = 2 ^ 54 * 2 ^ 970 := pow_add 2 54 970
  rw [overflowUnits, Nat.cast_mul, hlargest, twoTo_cast, overflow, hscale, hbound, ← mul_assoc,
    sub_mul, one_mul]

/-- A number has no nearest double exactly where it is half a unit beyond the largest one, or
more. -/
theorem ofRat_eq_none_iff {sign : Bool} {r : ℚ} :
    Double.ofRat sign r = none ↔ overflow ≤ |r| := by
  have hden : (0 : ℚ) < r.den := by exact_mod_cast r.den_pos
  rw [Double.ofRat, ofRatio_eq_ofUnits, ofUnits_eq_none_iff _ r.den_pos,
    Nat.le_div_iff_mul_le r.den_pos, abs_eq_natAbs_div, le_div_iff₀ hden, ← @Nat.cast_le ℚ]
  push_cast
  rw [overflowUnits_cast, twoTo_cast, mul_right_comm]
  exact mul_le_mul_iff_of_pos_right (by positivity)

theorem ofUnits_negative {negative : Bool} {scaled den : ℕ} {x : Double}
    (h : Double.ofUnits negative scaled den = some x) : x.negative = negative := by
  unfold Double.ofUnits at h
  simp only at h
  split at h <;> split at h <;> cases h <;> rfl

theorem Double.toRat_pos {x : Double} (hsign : x.negative = false) (hzero : x.isZero = false) :
    0 < x.toRat := by
  have hsignificand : 0 < x.significand :=
    Nat.pos_of_ne_zero (by simpa [Double.isZero] using hzero)
  have hunits : (0 : ℚ) < (x.significand * twoTo x.unit : ℕ) := by
    exact_mod_cast Nat.mul_pos hsignificand (twoTo_pos _)
  rw [Double.toRat, hsign, Double.magnitude, Rat.mkRat_eq_div]
  exact div_pos (by exact_mod_cast hunits) (by exact_mod_cast twoTo_pos 1074)

/-- The double nearest to a positive number is positive, unless the number is too small. -/
theorem Double.toRat_pos_of_ofRat {sign : Bool} {r : ℚ} {x : Double} (hr : tiny < r)
    (h : Double.ofRat sign r = some x) : 0 < x.toRat := by
  have hpos : 0 < r := tiny_pos.trans hr
  refine Double.toRat_pos ?_ ?_
  · have hsign := ofUnits_negative ((ofRatio_eq_ofUnits _ _ _).symm.trans h)
    rw [hsign, if_neg hpos.ne', decide_eq_false hpos.not_gt]
  · by_contra hzero
    have hle := le_tiny_of_ofRat h (by simpa using hzero)
    rw [abs_of_pos hpos] at hle
    exact absurd hle (not_le.mpr hr)

end Reckoner
