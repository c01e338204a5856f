import Reckoner.Proofs.EqualOperands
import Reckoner.Proofs.TreeEvaluation

namespace Reckoner

theorem sqrtFrom_eq (n guess : ℕ) : sqrtFrom n guess = Nat.sqrt.iter n guess := by
  fun_induction sqrtFrom n guess with
  | case1 guess next h ih =>
    rw [ih, Nat.sqrt.iter.eq_def n guess]
    simp only [Nat.add_comm guess]
    split
    next => rfl
    next hstop => exact absurd h hstop
  | case2 guess next h =>
    rw [Nat.sqrt.iter.eq_def n guess]
    simp only [Nat.add_comm guess]
    split
    next hmore => exact absurd hmore h
    next => rfl

theorem floorSqrt_eq (n : ℕ) : floorSqrt n = Nat.sqrt n := by
  rw [floorSqrt, Nat.sqrt, sqrtFrom_eq, Nat.one_shiftLeft]
  rfl

@[simp] theorem floorSqrt_mul_self (n : ℕ) : floorSqrt (n * n) = n := by
  rw [floorSqrt_eq, Nat.sqrt_eq]

section
variable {r s : ℚ}

/-- The root of a reduced fraction is found if there is one: its numerator and its denominator are
squares then. -/
theorem exactRoot_cases (hr : 0 ≤ r) :
    (∃ s, exactRoot? r = some s ∧ 0 ≤ s ∧ s * s = r) ∨ exactRoot? r = none ∧ ¬ IsSquare r := by
  unfold exactRoot?
  by_cases h : floorSqrt r.num.natAbs * floorSqrt r.num.natAbs = r.num.natAbs ∧
      floorSqrt r.den * floorSqrt r.den = r.den
  · refine .inl ⟨_, if_pos h, ?_, ?_⟩
    · rw [Rat.mkRat_eq_div]
      positivity
    · have hnum : ((r.num.natAbs : ℕ) : ℤ) = r.num :=
        Int.natAbs_of_nonneg (Rat.num_nonneg.mpr hr)
      rw [Rat.mkRat_eq_div, div_mul_div_comm, Int.cast_natCast, ← Nat.cast_mul, ← Nat.cast_mul,
        h.1, h.2, ← Int.cast_natCast, hnum, Rat.num_div_den]
  · refine .inr ⟨if_neg h, fun hsquare => h ?_⟩
    obtain ⟨⟨m, hm⟩, ⟨k, hk⟩⟩ := Rat.isSquare_iff.mp hsquare
    rw [hm, Int.natAbs_mul, hk, floorSqrt_mul_self, floorSqrt_mul_self]
    exact ⟨rfl, rfl⟩

theorem exactRoot_mul_self (hr : 0 ≤ r) (h : exactRoot? r = some s) : s * s = r := by
  obtain ⟨root, hroot, _, hmul⟩ | ⟨hnone, _⟩ := exactRoot_cases hr
  · rw [← Option.some.inj (hroot.symm.trans h), hmul]
  · rw [h] at hnone
    cases hnone

theorem den_of_mul_self (h : (s * s).den = 1) : s.den = 1 := by
  rw [Rat.mul_self_den] at h
  exact Nat.eq_one_of_mul_eq_one_right h

/-- The denominator of a root has no other prime factors than that of its square. -/
theorem FiniteDecimal.of_mul_self (h : FiniteDecimal (s * s)) : FiniteDecimal s := by
  obtain ⟨k, n, hn⟩ := h
  have hsquare := den_dvd_of_mul hn
  rw [Rat.mul_self_den] at hsquare
  obtain ⟨c, hc⟩ := (dvd_mul_right s.den s.den).trans hsquare
  refine ⟨k, s.num * c, ?_⟩
  have hten : (10 : ℚ) ^ k = s.den * c := by exact_mod_cast hc
  rw [hten, ← mul_assoc, Rat.mul_den_eq_num]
  push_cast
  rfl

end

/-- A root of a double is far from the largest double. -/
theorem Double.sqrt_exists (x : Double) : ∃ y, x.sqrt = some y := by
  obtain ⟨hsignificand, _, hunit⟩ := x.canonical
  have hscaled : x.significand * twoTo x.unit * twoTo 1074 < twoTo 2097 * twoTo 2097 := by
    have hle : twoTo x.unit ≤ twoTo 2045 := twoTo_le_twoTo hunit
    calc x.significand * twoTo x.unit * twoTo 1074 < twoTo 53 * twoTo 2045 * twoTo 1074 :=
          Nat.mul_lt_mul_of_pos_right (Nat.mul_lt_mul_of_lt_of_le hsignificand hle (twoTo_pos _))
            (twoTo_pos _)
      _ = twoTo (53 + 2045 + 1074) := by rw [twoTo_add, twoTo_add]
      _ ≤ twoTo (2097 + 2097) := twoTo_le_twoTo (by decide)
      _ = twoTo 2097 * twoTo 2097 := twoTo_add 2097 2097
  have hroot : floorSqrt (x.significand * twoTo x.unit * twoTo 1074) < twoTo 2097 := by
    rw [floorSqrt_eq]
    exact Nat.sqrt_lt.mpr hscaled
  unfold Double.sqrt
  simp only [ofRatio_eq_ofUnits]
  refine ofUnits_exists _ ?_
  rw [Nat.mul_div_mul_right _ _ (twoTo_pos 1074)]
  split <;> omega

section
variable {x : Number}

theorem squareRoot_negative (h : x.toRat < 0) :
    squareRoot x = .error (.domain (.negativeRoot x)) := by
  have hnegative : x.isNegative = true := decide_eq_true h
  unfold squareRoot
  rw [if_pos hnegative]

theorem not_isNegative (h : 0 ≤ x.toRat) : ¬ x.isNegative = true := by
  simpa [Number.isNegative] using h

/-- The root of a natural is an integer, since its square has no denominator. -/
theorem den_of_root {n : ℤ} {s : ℚ} (h : s * s = (Number.natural n).toRat) : s.den = 1 := by
  refine den_of_mul_self ?_
  rw [h]
  exact Rat.den_intCast n

theorem finiteDecimal_of_root {d : Decimal} {s : ℚ} (h : s * s = (Number.decimal d).toRat) :
    FiniteDecimal s := by
  refine FiniteDecimal.of_mul_self ?_
  rw [h]
  exact finiteDecimal_toRat d

/-- The exact root of a natural is a natural, and that of a decimal is a decimal. -/
theorem squareRoot_of_root {s : ℚ} (h : 0 ≤ x.toRat) (hx : x.kind ≠ .float)
    (hs : exactRoot? x.toRat = some s) (hmul : s * s = x.toRat) :
    ∃ r, squareRoot x = .ok r ∧ r.kind = x.kind ∧ r.toRat = s := by
  unfold squareRoot
  rw [if_neg (not_isNegative h), hs]
  cases x with
  | natural n =>
    exact ⟨.natural s.num, rfl, rfl, Rat.coe_int_num_of_den_eq_one (den_of_root hmul)⟩
  | decimal d =>
    obtain ⟨e, he, hroot⟩ := ofFinite_of_finiteDecimal (finiteDecimal_of_root hmul)
    exact ⟨.decimal e, by simp only [he, Option.getD_some], rfl, hroot⟩
  | float y => exact absurd rfl hx

theorem squareRoot_exact (h : 0 ≤ x.toRat) (hx : x.kind ≠ .float) (hsquare : IsSquare x.toRat) :
    ∃ r, squareRoot x = .ok r ∧ r.kind = x.kind ∧ 0 ≤ r.toRat ∧ r.toRat * r.toRat = x.toRat := by
  obtain ⟨s, hs, hpositive, hmul⟩ | ⟨_, hnone⟩ := exactRoot_cases h
  · obtain ⟨r, hr, hkind, rfl⟩ := squareRoot_of_root h hx hs hmul
    exact ⟨r, hr, hkind, hpositive, hmul⟩
  · exact absurd hsquare hnone

theorem squareRoot_rounded (h : 0 ≤ x.toRat) (hx : x.kind = .float ∨ ¬ IsSquare x.toRat) :
    squareRoot x = x.toDouble >>= fun y => Number.ofDouble? y.sqrt := by
  unfold squareRoot
  rw [if_neg (not_isNegative h)]
  cases x with
  | float y => rfl
  | natural n | decimal d =>
    obtain ⟨s, _, _, hmul⟩ | ⟨hnone, _⟩ := exactRoot_cases h
    · exact absurd ⟨s, hmul.symm⟩ (hx.resolve_left (by rintro ⟨⟩))
    · rw [hnone]

/-- A root that is not exact is a float, wherever its square is within the range of floats. -/
theorem squareRoot_float (h : 0 ≤ x.toRat) (hx : x.kind = .float ∨ ¬ IsSquare x.toRat) :
    (∃ y, squareRoot x = .ok (.float y)) ∨
      squareRoot x = .error (.range (.tooLargeForFloat x)) ∧ x.toDouble? = none := by
  rw [squareRoot_rounded h hx]
  cases hdouble : x.toDouble? with
  | none =>
    have herror : x.toDouble = .error (.range (.tooLargeForFloat x)) := by
      rw [Number.toDouble, hdouble]
    rw [herror]
    exact .inr ⟨rfl, rfl⟩
  | some y =>
    have hvalue : x.toDouble = .ok y := by rw [Number.toDouble, hdouble]
    obtain ⟨z, hz⟩ := y.sqrt_exists
    -- Stated for any function, so that no root is computed where the bind is opened.
    have hnext : ∀ root : Double → Option Double,
        (Except.ok y >>= fun y => Number.ofDouble? (root y)) = Number.ofDouble? (root y) :=
      fun _ => rfl
    rw [hvalue, hnext, hz]
    exact .inl ⟨z, rfl⟩

end

theorem call_sqrt (span : Span) (x : Number) :
    callValue "sqrt" span [x] = (squareRoot x).mapError (NumericError.at span) :=
  rfl

theorem mul_value {r x : Number} (hr : r.kind ≠ .float) (hkind : r.kind = x.kind)
    (hmul : r.toRat * r.toRat = x.toRat)
    (hfits : x.kind = .decimal → exactContext.Fits x.toRat) :
    ∃ y, r.mul r = .ok y ∧ y.toRat = x.toRat := by
  have hdenotes : r.Denotes r.toRat := denotes_of_kind hr
  by_cases hpair : r.DecimalPair r
  · obtain ⟨hholds, hless⟩ := hfits (hkind ▸ hpair.widened.elim id id)
    have hdecimals := mul_combines.on_decimals hpair
    rw [hmul] at hdecimals
    obtain ⟨_, hlarge⟩ | ⟨d, hd, _, hvalue⟩ := hdecimals
    · exact absurd hlarge (not_le.mpr hless)
    · exact ⟨.decimal d, hd, hvalue.trans hholds.rounded⟩
  · obtain ⟨y, hy, hvalue⟩ := mul_combines.on_naturals hdenotes hdenotes hpair
    exact ⟨y, hy, hvalue.trans hmul⟩

/-- The square root of a number. A negative number has none. A natural or decimal that is the square
of a fraction has an exact root of its own kind. Of any other natural or decimal the root is a float,
unless the number is too large for one, and the root of a float is always a float. -/
theorem root_exact_or_float (span : Span) (x : Number) :
    (x.toRat < 0 →
      callValue "sqrt" span [x] = .error (.failed ⟨.domain (.negativeRoot x), span⟩)) ∧
    (0 ≤ x.toRat → x.kind ≠ .float → IsSquare x.toRat →
      ∃ r, callValue "sqrt" span [x] = .ok r ∧ r.kind = x.kind ∧ 0 ≤ r.toRat ∧
        r.toRat * r.toRat = x.toRat ∧ ((x.kind = .decimal → exactContext.Fits x.toRat) →
          ∃ y, r.mul r = .ok y ∧ y.equals x = true)) ∧
    (0 ≤ x.toRat → x.kind ≠ .float → ¬ IsSquare x.toRat →
      (∃ y, callValue "sqrt" span [x] = .ok (.float y)) ∨
        callValue "sqrt" span [x] = .error (.failed ⟨.range (.tooLargeForFloat x), span⟩)) ∧
    (0 ≤ x.toRat → x.kind = .float → ∃ y, callValue "sqrt" span [x] = .ok (.float y)) := by
  rw [call_sqrt]
  refine ⟨fun h => ?_, fun h hx hsquare => ?_, fun h _ hsquare => ?_, fun h hx => ?_⟩
  · rw [squareRoot_negative h]
    rfl
  · obtain ⟨r, hr, hkind, hpositive, hmul⟩ := squareRoot_exact h hx hsquare
    rw [hr]
    refine ⟨r, rfl, hkind, hpositive, hmul, fun hfits => ?_⟩
    obtain ⟨y, hy, hsize⟩ := mul_value (hkind ▸ hx) hkind hmul hfits
    exact ⟨y, hy, Number.equals_iff.mpr hsize⟩
  · obtain ⟨y, hy⟩ | ⟨herror, _⟩ := squareRoot_float h (.inr hsquare)
    · rw [hy]
      exact .inl ⟨y, rfl⟩
    · rw [herror]
      exact .inr rfl
  · obtain ⟨y, hy⟩ | ⟨_, hnone⟩ := squareRoot_float h (.inl hx)
    · rw [hy]
      exact ⟨y, rfl⟩
    · cases x with
      | float y => cases hnone
      | natural n | decimal d => cases hx

/-- The decimal `1.44`. -/
def squaredDecimal : Number :=
  .decimal ⟨false, 144, -2⟩

theorem squaredDecimal_rooted :
    (0 ≤ squaredDecimal.toRat ∧ squaredDecimal.kind ≠ .float ∧ IsSquare squaredDecimal.toRat) ∧
      (∃ r, callValue "sqrt" ⟨.start, .start⟩ [squaredDecimal] = .ok r ∧ r.kind = .decimal ∧
        0 ≤ r.toRat ∧ r.toRat * r.toRat = squaredDecimal.toRat ∧
        ∃ y, r.mul r = .ok y ∧ y.equals squaredDecimal = true) ∧
      (0 ≤ (Number.natural 2).toRat ∧ (Number.natural 2).kind ≠ .float ∧
        ¬ IsSquare (Number.natural 2).toRat) ∧
      ((∃ y, callValue "sqrt" ⟨.start, .start⟩ [.natural 2] = .ok (.float y)) ∨
        callValue "sqrt" ⟨.start, .start⟩ [.natural 2] =
          .error (.failed ⟨.range (.tooLargeForFloat (.natural 2)), ⟨.start, .start⟩⟩)) := by
  have hvalue : squaredDecimal.toRat = 36 / 25 := by decide +kernel
  have hsquare : IsSquare squaredDecimal.toRat := ⟨6 / 5, by rw [hvalue]; norm_num⟩
  have hpositive : 0 ≤ squaredDecimal.toRat := by rw [hvalue]; norm_num
  have hkind : squaredDecimal.kind ≠ .float := by decide
  have htwo : (Number.natural 2).toRat = 2 := rfl
  have hno : ¬ IsSquare (Number.natural 2).toRat := by
    rw [htwo, Rat.isSquare_iff]
    exact fun h => absurd h.1 (by decide +kernel)
  have hpositive' : 0 ≤ (Number.natural 2).toRat := by rw [htwo]; norm_num
  have hkind' : (Number.natural 2).kind ≠ .float := by decide
  have hfits : exactContext.Fits (Decimal.mk false 144 (-2)).toRat :=
    DecimalContext.fits_toRat DecimalContext.exactContext_sound (by decide +kernel)
      (by decide +kernel) (by decide +kernel)
  obtain ⟨r, hr, hkindr, hpositiver, hmul, hproduct⟩ :=
    (root_exact_or_float ⟨.start, .start⟩ squaredDecimal).2.1 hpositive hkind hsquare
  exact ⟨⟨hpositive, hkind, hsquare⟩,
    ⟨r, hr, hkindr, hpositiver, hmul, hproduct fun _ => hfits⟩, ⟨hpositive', hkind', hno⟩,
    (root_exact_or_float _ (.natural 2)).2.2.1 hpositive' hkind' hno⟩

end Reckoner
