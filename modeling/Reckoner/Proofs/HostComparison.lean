import Mathlib
import Reckoner.Datum
import Reckoner.Proofs.SizeOrder

namespace Reckoner

def Datum.size? : Datum → Option ℚ
  | .number x => some x.toRat
  | .integer n => some n
  | .double (.finite x) => some x.toRat
  | .decimal (.finite d) => some d.toRat
  | .fraction r => some r
  | _ => none

/-- The value is no fraction, or one that finitely many decimals write. -/
def Datum.Terminates : Datum → Prop
  | .fraction r => FiniteDecimal r
  | _ => True

theorem Number.finiteDecimal (a : Number) : FiniteDecimal a.toRat := by
  cases a with
  | natural n => exact ⟨0, n, by rw [pow_zero, mul_one]; rfl⟩
  | decimal d => exact finiteDecimal_toRat d
  | float x =>
    have h := finiteDecimal_toRat (Decimal.ofDouble x)
    rwa [Decimal.toRat_ofDouble] at h

section
variable {value : Datum} {r : ℚ}

theorem ofFraction_of_finiteDecimal (h : FiniteDecimal r) :
    ∃ y, Number.ofFraction r = .ok y ∧ y.toRat = r := by
  unfold Number.ofFraction
  by_cases hden : r.den = 1
  · rw [if_pos hden]
    exact ⟨_, rfl, Rat.coe_int_num_of_den_eq_one hden⟩
  · obtain ⟨d, hd, hr⟩ := ofFinite_of_finiteDecimal h
    rw [if_neg hden, hd]
    exact ⟨_, rfl, hr⟩

theorem ofFraction_of_infinite {found : Option Double} (h : ¬ FiniteDecimal r)
    (hfound : Double.ofRat false r = found) :
    Number.ofFraction r =
      found.elim (.error (.fault .fractionTooLarge)) fun x => .ok (.float x) := by
  have hden : r.den ≠ 1 := by
    intro hden
    exact h ⟨0, r.num, by rw [pow_zero, mul_one, Rat.coe_int_num_of_den_eq_one hden]⟩
  have hnone : Decimal.ofFinite? r = none := by
    cases hd : Decimal.ofFinite? r with
    | none => rfl
    | some d => exact absurd (toRat_of_ofFinite hd ▸ finiteDecimal_toRat d) h
  subst hfound
  rw [Number.ofFraction, if_neg hden, hnone]
  -- No double is worked out: the cases are those of any option.
  generalize Double.ofRat false r = found
  cases found with
  | none => rfl
  | some x => rfl

theorem ofDatum_of_terminates (hsize : value.size? = some r) (h : value.Terminates) :
    value.isOperand = true ∧ ∃ y, Number.ofDatum value = .ok y ∧ y.toRat = r := by
  match value with
  | .number x => cases hsize; exact ⟨rfl, x, rfl, rfl⟩
  | .integer n => cases hsize; exact ⟨rfl, _, rfl, rfl⟩
  | .double (.finite x) => cases hsize; exact ⟨rfl, _, rfl, rfl⟩
  | .decimal (.finite d) => cases hsize; exact ⟨rfl, _, rfl, rfl⟩
  | .fraction _ =>
    cases hsize
    obtain ⟨y, hy, hr⟩ := ofFraction_of_finiteDecimal h
    exact ⟨rfl, y, by rw [Number.ofDatum, hy]; rfl, hr⟩

theorem fraction_of_not_terminates (hsize : value.size? = some r) (h : ¬ value.Terminates) :
    value = .fraction r ∧ ¬ FiniteDecimal r := by
  match value with
  | .fraction _ =>
    cases hsize
    exact ⟨rfl, h⟩
  | .number _ | .integer _ | .double _ | .decimal _ | .text _ | .boolean _ | .foreign _ =>
    exact absurd trivial h

end

@[simp] theorem Comparison.flip_relates (comparison : Comparison) (p q : ℚ) :
    comparison.flip.Relates p q ↔ comparison.Relates q p := by
  cases comparison with
  | equal => exact eq_comm
  | unequal => exact ne_comm
  | less => rfl
  | atMost => rfl
  | greater => rfl
  | atLeast => rfl

/-- Every comparison of a number with the value has a result, on either side, and it is what
comparing with `r` gives. -/
def ComparedAs (value : Datum) (r : ℚ) (a : Number) : Prop :=
  ∀ comparison : Comparison,
    (∃ b, a.compareWith comparison value = .ok b ∧ (b = true ↔ comparison.Relates a.toRat r)) ∧
    ∃ b, value.compareWith comparison a = .ok b ∧ (b = true ↔ comparison.Relates r a.toRat)

section
variable {value : Datum} {y : Number} {q : ℚ}

theorem compareWith_ok (hoperand : value.isOperand = true) (hy : Number.ofDatum value = .ok y)
    (a : Number) (comparison : Comparison) :
    a.compareWith comparison value = .ok (comparison.holds a y) := by
  unfold Number.compareWith
  rw [if_pos hoperand, hy]

theorem compareWith_error {e : DatumError} (hoperand : value.isOperand = true)
    (he : Number.ofDatum value = .error e) (a : Number) (comparison : Comparison) :
    a.compareWith comparison value = .error (.operand e) := by
  unfold Number.compareWith
  rw [if_pos hoperand, he]

theorem comparedAs_of_ofDatum (hoperand : value.isOperand = true)
    (hy : Number.ofDatum value = .ok y) (hq : y.toRat = q) (a : Number) : ComparedAs value q a := by
  subst hq
  intro comparison
  refine ⟨⟨_, compareWith_ok hoperand hy a comparison, comparison.holds_iff a y⟩,
    _, compareWith_ok hoperand hy a comparison.flip, ?_⟩
  rw [Comparison.holds_iff, Comparison.flip_relates]

end

theorem Comparison.relates_congr {p q r : ℚ} (hless : p < q ↔ p < r) (hequal : p = q ↔ p = r)
    (comparison : Comparison) : comparison.Relates p q ↔ comparison.Relates p r := by
  have hgreater : p > q ↔ p > r := by
    rw [gt_iff_lt, gt_iff_lt, lt_iff_not_ge, lt_iff_not_ge, le_iff_lt_or_eq, le_iff_lt_or_eq, hless,
      hequal]
  cases comparison with
  | equal => exact hequal
  | unequal => exact not_congr hequal
  | less => exact hless
  | atMost =>
    simp only [Comparison.Relates, le_iff_lt_or_eq]
    exact or_congr hless hequal
  | greater => exact hgreater
  | atLeast =>
    simp only [Comparison.Relates, ge_iff_le, ← not_lt]
    exact not_congr hless

/-- Sizes on one side of `p` are those between which `p` does not lie. -/
theorem same_side_iff {p q r : ℚ} (hp : p ≠ r) :
    ((p < q ↔ p < r) ∧ (p = q ↔ p = r)) ↔ p ∉ Set.uIcc r q := by
  have hequal : (p = q ↔ p = r) ↔ p ≠ q := by simp [hp]
  rw [hequal, Set.mem_uIcc, not_or, not_and_or, not_and_or, not_le, not_le, not_le, not_le]
  constructor
  · rintro ⟨hless, hne⟩
    rcases lt_or_gt_of_ne hne with hlow | hhigh
    · exact ⟨.inl (hless.mp hlow), .inl hlow⟩
    · have hr : r < p := lt_of_le_of_ne (not_lt.mp (mt hless.mpr hhigh.not_gt)) hp.symm
      exact ⟨.inr hhigh, .inr hr⟩
  · rintro ⟨hlow | hlow, hhigh | hhigh⟩
    · exact ⟨iff_of_true hhigh hlow, hhigh.ne⟩
    · exact absurd hhigh hlow.not_gt
    · exact absurd hhigh hlow.not_gt
    · exact ⟨iff_of_false hlow.not_gt hhigh.not_gt, hlow.ne'⟩

section
variable {value : Datum} {y a : Number} {q r : ℚ}

/-- A value that is taken for another size is compared exactly with what is not between the two. -/
theorem comparedAs_iff (hoperand : value.isOperand = true) (hy : Number.ofDatum value = .ok y)
    (hq : y.toRat = q) (hne : a.toRat ≠ r) :
    ComparedAs value r a ↔ a.toRat ∉ Set.uIcc r q := by
  subst hq
  rw [← same_side_iff hne]
  have hasked : ∀ {comparison : Comparison} {b}, a.compareWith comparison value = .ok b →
      (b = true ↔ comparison.Relates a.toRat y.toRat) := by
    intro comparison b hb
    rw [compareWith_ok hoperand hy] at hb
    cases hb
    exact comparison.holds_iff a y
  constructor
  · intro h
    obtain ⟨b, hb, hless⟩ := (h .less).1
    obtain ⟨b', hb', hequal⟩ := (h .equal).1
    exact ⟨(hasked hb).symm.trans hless, (hasked hb').symm.trans hequal⟩
  · rintro ⟨hless, hequal⟩ comparison
    obtain ⟨⟨b, hb, hright⟩, b', hb', hleft⟩ :=
      comparedAs_of_ofDatum hoperand hy rfl a comparison
    refine ⟨⟨b, hb, hright.trans (comparison.relates_congr hless hequal)⟩, b', hb', ?_⟩
    rw [hleft, ← Comparison.flip_relates, comparison.flip.relates_congr hless hequal,
      Comparison.flip_relates]

/-- A fraction that finitely many decimals do not write is compared as the double that it is taken
for. -/
theorem fraction_compared {x : Double} (h : ¬ FiniteDecimal r)
    (hx : Double.ofRat false r = some x) (a : Number) :
    ComparedAs (.fraction r) x.toRat a ∧
      (ComparedAs (.fraction r) r a ↔ a.toRat ∉ Set.uIcc r x.toRat) := by
  have hy : Number.ofDatum (.fraction r) = .ok (.float x) := by
    rw [Number.ofDatum, ofFraction_of_infinite h hx]
    rfl
  have hne : a.toRat ≠ r := fun heq => h (heq ▸ a.finiteDecimal)
  exact ⟨comparedAs_of_ofDatum rfl hy rfl a, comparedAs_iff rfl hy rfl hne⟩

theorem fraction_refused (h : ¬ FiniteDecimal r) (hx : Double.ofRat false r = none) (a : Number)
    (comparison : Comparison) :
    a.compareWith comparison (.fraction r) =
        .error (.operand (.numeric (.fault .fractionTooLarge))) ∧
      (Datum.fraction r).compareWith comparison a =
        .error (.operand (.numeric (.fault .fractionTooLarge))) := by
  have he : Number.ofDatum (.fraction r) = .error (.numeric (.fault .fractionTooLarge)) := by
    rw [Number.ofDatum, ofFraction_of_infinite h hx]
    rfl
  exact ⟨compareWith_error rfl he a comparison, compareWith_error rfl he a comparison.flip⟩

end

/-- A value that has a size is compared exactly with every number and on either side, unless it is a
fraction that finitely many decimals do not write. Such a fraction is taken for a double, and
compared exactly with the numbers that are not between the two; where it is too large for a double,
no comparison has a result. -/
theorem value_compared {value : Datum} {r : ℚ} (hsize : value.size? = some r) :
    (value.Terminates → ∀ a, ComparedAs value r a) ∧
    (¬ value.Terminates →
      (∃ x, Double.ofRat false r = some x ∧ ∀ a, ComparedAs value x.toRat a ∧
        (ComparedAs value r a ↔ a.toRat ∉ Set.uIcc r x.toRat)) ∨
      Double.ofRat false r = none ∧ ∀ a comparison,
        a.compareWith comparison value =
          .error (.operand (.numeric (.fault .fractionTooLarge))) ∧
        value.compareWith comparison a =
          .error (.operand (.numeric (.fault .fractionTooLarge)))) := by
  constructor
  · intro h a
    obtain ⟨hoperand, y, hy, hr⟩ := ofDatum_of_terminates hsize h
    exact comparedAs_of_ofDatum hoperand hy hr a
  · intro h
    obtain ⟨rfl, hinfinite⟩ := fraction_of_not_terminates hsize h
    obtain ⟨found, hfound⟩ : ∃ found, Double.ofRat false r = found := ⟨_, rfl⟩
    cases found with
    | some x => exact .inl ⟨x, hfound, fraction_compared hinfinite hfound⟩
    | none => exact .inr ⟨hfound, fraction_refused hinfinite hfound⟩

def thirdDouble : Double :=
  ⟨false, 6004799503160661, 1020, by decide⟩

theorem third_infinite : ¬ FiniteDecimal (1 / 3) := by
  rintro ⟨k, n, h⟩
  have hdvd := den_dvd_of_mul h
  rw [show (1 / 3 : ℚ).den = 3 by norm_num] at hdvd
  exact absurd (Nat.prime_three.dvd_of_dvd_pow hdvd) (by decide)

theorem ofRat_third : Double.ofRat false (1 / 3) = some thirdDouble := by
  decide +kernel

theorem quarter_compared :
    (Datum.fraction (1 / 4)).size? = some (1 / 4) ∧ (Datum.fraction (1 / 4)).Terminates ∧
      (∀ a, ComparedAs (.fraction (1 / 4)) (1 / 4) a) ∧
      (Datum.fraction (1 / 3)).size? = some (1 / 3) ∧ ¬ (Datum.fraction (1 / 3)).Terminates ∧
      ComparedAs (.fraction (1 / 3)) (1 / 3) (.natural 2) := by
  have hquarter : FiniteDecimal (1 / 4) := ⟨2, 25, by norm_num⟩
  have hthird : (Datum.fraction (1 / 3)).size? = some (1 / 3) := rfl
  refine ⟨rfl, hquarter, (value_compared rfl).1 hquarter, hthird, third_infinite, ?_⟩
  obtain ⟨x, hx, hcompared⟩ | ⟨hnone, _⟩ := (value_compared hthird).2 third_infinite
  · rw [ofRat_third] at hx
    cases hx
    refine (hcompared (.natural 2)).2.mpr ?_
    rintro ⟨_, hle⟩
    exact absurd hle (by decide +kernel)
  · rw [ofRat_third] at hnone
    cases hnone

/-- A third equals a double, which is smaller. -/
theorem third_equals_double :
    (Number.float thirdDouble).compareWith .equal (.fraction (1 / 3)) = .ok true ∧
      (Number.float thirdDouble).toRat < 1 / 3 := by
  constructor
  · decide +kernel
  · decide +kernel

end Reckoner
