import Reckoner.Proofs.EqualOperands
import Reckoner.Proofs.TreeEvaluation

namespace Reckoner

/-- The logarithms, each with the function that it takes of a double. -/
def logarithms : List (String × (Float → Float)) :=
  [("ln", Float.log), ("log", Float.log10), ("log10", Float.log10), ("log2", Float.log2)]

theorem call_logarithm {name : String} {f : Float → Float} (h : (name, f) ∈ logarithms)
    (span : Span) (x : Number) :
    callValue name span [x] = (logarithm name f x).mapError (NumericError.at span) := by
  simp only [logarithms, List.mem_cons, List.not_mem_nil, or_false, Prod.mk.injEq] at h
  rcases h with ⟨rfl, rfl⟩ | ⟨rfl, rfl⟩ | ⟨rfl, rfl⟩ | ⟨rfl, rfl⟩ <;> rfl

/-- The hardware float holds a number. -/
def IsDouble (f : Float) : Prop :=
  ∃ y, ExtendedDouble.ofBits f.toBits = .finite y

/-- A library function returns a number where the logarithm of `x` is taken: of the nearest double
of `x`, if that is positive, and of a natural that has none. -/
structure FiniteAt (f : Float → Float) (x : Number) : Prop where
  double : ∀ y, x.toDouble? = some y → 0 < y.toRat → IsDouble (f y.toFloat)
  large : ∀ n, x = .natural n → x.toDouble? = none → IsDouble (logOfLarge f n.natAbs)

section
variable {name : String} {f : Float → Float} {x : Number}

theorem ofFloat_of_isDouble {z : Float} (h : IsDouble z) (e e' : NumericError) :
    ∃ y, Number.ofFloat e e' z = .ok (.float y) := by
  obtain ⟨y, hy⟩ := h
  exact ⟨y, by rw [Number.ofFloat, hy]⟩

theorem logarithm_nonPositive (h : x.toRat ≤ 0) :
    logarithm name f x = .error (.domain (.nonPositive name x)) := by
  unfold logarithm
  rw [if_pos h]

theorem logarithm_of_double {y : Double} (hpos : 0 < x.toRat) (hy : x.toDouble? = some y)
    (hf : IsDouble (f y.toFloat)) : ∃ z, logarithm name f x = .ok (.float z) := by
  have hbounded : ∃ z, bounded name f x = .ok (.float z) := by
    rw [bounded, toDouble_eq_ok.mpr hy]
    exact ofFloat_of_isDouble hf _ _
  unfold logarithm
  rw [if_neg (not_le.mpr hpos)]
  split
  next hnone => exact absurd (hy.symm.trans hnone) (by rintro ⟨⟩)
  next => exact hbounded

theorem logarithm_of_large {n : ℤ} (hpos : 0 < n) (hnone : (Number.natural n).toDouble? = none)
    (hf : IsDouble (logOfLarge f n.natAbs)) :
    ∃ z, logarithm name f (.natural n) = .ok (.float z) := by
  have hpositive : ¬ (Number.natural n).toRat ≤ 0 := not_le.mpr (Int.cast_pos.mpr hpos)
  unfold logarithm
  rw [if_neg hpositive, hnone]
  exact ofFloat_of_isDouble hf _ _

theorem logarithm_tooLarge {d : Decimal} (hpos : 0 < d.toRat)
    (hnone : (Number.decimal d).toDouble? = none) :
    logarithm name f (.decimal d) = .error (.range (.tooLargeForFloat (.decimal d))) := by
  have hpositive : ¬ (Number.decimal d).toRat ≤ 0 := not_le.mpr hpos
  have hdouble : (Number.decimal d).toDouble =
      .error (.range (.tooLargeForFloat (.decimal d))) := by
    rw [Number.toDouble, hnone]
  have hbounded : bounded name f (.decimal d) =
      .error (.range (.tooLargeForFloat (.decimal d))) := by
    rw [bounded, hdouble]
    rfl
  unfold logarithm
  rw [if_neg hpositive]
  exact hbounded

end

theorem tiny_lt_one : tiny < 1 := by
  have hscale : (1 : ℚ) < 2 ^ (1074 + 1) := one_lt_pow₀ one_lt_two (Nat.succ_ne_zero 1074)
  rw [tiny]
  exact (div_lt_one (zero_lt_one.trans hscale)).mpr hscale

theorem overflow_pos : 0 < overflow := by
  rw [overflow, sub_pos]
  exact pow_lt_pow_right₀ one_lt_two (by decide)

section
variable {x : Number} {p : ℚ}

theorem toDouble_none_iff (hx : x.Denotes p) (hp : 0 < p) :
    x.toDouble? = none ↔ overflow ≤ p := by
  rw [toDouble?_eq hx hp.ne', ofRat_eq_none_iff, abs_of_pos hp]

theorem toRat_pos_of_toDouble {y : Double} (hx : x.Denotes p) (hp : tiny < p)
    (hy : x.toDouble? = some y) : 0 < y.toRat := by
  rw [toDouble?_eq hx (tiny_pos.trans hp).ne'] at hy
  exact Double.toRat_pos_of_ofRat hp hy

end

/-- A positive natural has a logarithm, and so has a decimal between half the smallest positive
double and half a unit beyond the largest one. -/
theorem logarithm_float {name : String} {f : Float → Float} {x : Number} (hf : FiniteAt f x)
    (hkind : x.kind ≠ .float) (hpos : 0 < x.toRat)
    (hrange : x.kind = .natural ∨ tiny < x.toRat ∧ x.toRat < overflow) :
    ∃ y, logarithm name f x = .ok (.float y) := by
  have hx : x.Denotes x.toRat := denotes_of_kind hkind
  have htiny : tiny < x.toRat := by
    refine hrange.elim (fun hnatural => ?_) And.left
    cases x with
    | natural n =>
      have hone : (1 : ℚ) ≤ n := by exact_mod_cast Int.cast_pos.mp hpos
      exact tiny_lt_one.trans_le hone
    | decimal d | float d => cases hnatural
  cases hdouble : x.toDouble? with
  | some y =>
    have hy : 0 < y.toRat := toRat_pos_of_toDouble hx htiny hdouble
    exact logarithm_of_double hpos hdouble (hf.double y hdouble hy)
  | none =>
    have hlarge : overflow ≤ x.toRat := (toDouble_none_iff hx hpos).mp hdouble
    cases x with
    | natural n => exact logarithm_of_large (Int.cast_pos.mp hpos) hdouble (hf.large n rfl hdouble)
    | decimal d =>
      exact absurd hlarge (not_le.mpr (hrange.resolve_left (by rintro ⟨⟩)).2)
    | float y => exact absurd rfl hkind

/-- The logarithm of a natural or a decimal. There is none of zero and of negative numbers. It is a
float for every positive natural, of any size, and for every decimal between half the smallest
positive double and half a unit beyond the largest one; larger decimals are refused. -/
theorem logarithm_of_exact :
    (∀ entry ∈ logarithms, ∀ span x,
      callValue entry.1 span [x] = (logarithm entry.1 entry.2 x).mapError (NumericError.at span)) ∧
    ∀ (name : String) (f : Float → Float) (x : Number), x.kind ≠ .float →
      (x.toRat ≤ 0 → logarithm name f x = .error (.domain (.nonPositive name x))) ∧
      (FiniteAt f x → 0 < x.toRat → x.kind = .natural ∨ tiny < x.toRat ∧ x.toRat < overflow →
        ∃ y, logarithm name f x = .ok (.float y)) ∧
      (x.kind = .decimal → overflow ≤ x.toRat →
        logarithm name f x = .error (.range (.tooLargeForFloat x))) := by
  refine ⟨fun entry hentry => call_logarithm hentry, fun name f x hkind => ⟨?_, ?_, ?_⟩⟩
  · exact logarithm_nonPositive
  · exact fun hf => logarithm_float hf hkind
  · intro hdecimal hlarge
    have hpos : 0 < x.toRat := overflow_pos.trans_le hlarge
    have hnone := (toDouble_none_iff (denotes_of_kind hkind) hpos).mpr hlarge
    cases x with
    | decimal d => exact logarithm_tooLarge hpos hnone
    | natural n | float n => cases hdecimal

/-- The binary logarithm at one half and at two. -/
def binaryLogarithm (z : Float) : Float :=
  if z = 2 then 1 else -1

/-- The least natural that is too large for a float and a power of two. -/
def largeNatural : Number :=
  .natural (twoTo 1024)

theorem largeNatural_rounded : largeNatural.toDouble? = none := by
  decide +kernel

theorem binaryLogarithm_large :
    ExtendedDouble.ofBits (logOfLarge binaryLogarithm (twoTo 1024)).toBits =
      .finite ⟨false, twoTo 52, 1032, by decide⟩ := by
  decide +kernel

theorem binaryLogarithm_finite : FiniteAt binaryLogarithm largeNatural where
  double y hy _ := by
    rw [largeNatural_rounded] at hy
    cases hy
  large n hn _ := by
    rw [← Number.natural.inj hn, Int.natAbs_natCast]
    exact ⟨_, binaryLogarithm_large⟩

theorem largeNatural_logarithm :
    (largeNatural.kind ≠ .float ∧ FiniteAt binaryLogarithm largeNatural ∧ 0 < largeNatural.toRat ∧
      largeNatural.kind = .natural) ∧
    ∃ y, logarithm "log2" binaryLogarithm largeNatural = .ok (.float y) := by
  have hkind : largeNatural.kind ≠ .float := by decide
  have hpos : 0 < largeNatural.toRat := by decide +kernel
  exact ⟨⟨hkind, binaryLogarithm_finite, hpos, rfl⟩,
    (logarithm_of_exact.2 "log2" binaryLogarithm largeNatural hkind).2.1 binaryLogarithm_finite
      hpos (.inl rfl)⟩

/-- A positive decimal may have no logarithm: it is too large for a float. -/
theorem large_decimal_refused :
    0 < (Number.decimal ⟨false, 1, 400⟩).toRat ∧
      callValue "log10" ⟨.start, .start⟩ [.decimal ⟨false, 1, 400⟩] =
        .error (.failed
          ⟨.range (.tooLargeForFloat (.decimal ⟨false, 1, 400⟩)), ⟨.start, .start⟩⟩) := by
  have hpos : 0 < (Number.decimal ⟨false, 1, 400⟩).toRat := by decide +kernel
  have hnone : (Number.decimal ⟨false, 1, 400⟩).toDouble? = none := by decide +kernel
  have hentry : ("log10", Float.log10) ∈ logarithms := by simp [logarithms]
  rw [call_logarithm hentry, logarithm_tooLarge hpos hnone]
  exact ⟨hpos, rfl⟩

end Reckoner
