import Reckoner.Proofs.ExactArithmetic
import Reckoner.Proofs.TreeEvaluation

namespace Reckoner

/-- The integer is nearest to the fraction; of two that are equally near it is the one farther from
zero. -/
def IsNearest (q : ℚ) (n : ℤ) : Prop :=
  (∀ m : ℤ, |q - n| ≤ |q - m|) ∧ ∀ m : ℤ, |q - m| = |q - n| → |m| ≤ |n|

section
variable {q : ℚ} {n : ℤ}

theorem IsNearest.neg (h : IsNearest q n) : IsNearest (-q) (-n) := by
  have hflip : ∀ m : ℤ, |(-q) - m| = |q - (-m : ℤ)| := by
    intro m
    rw [← abs_neg]
    congr 1
    push_cast
    ring
  constructor
  · intro m
    rw [hflip, hflip, neg_neg]
    exact h.1 (-m)
  · intro m htie
    rw [hflip, hflip, neg_neg] at htie
    rw [abs_neg, ← abs_neg m]
    exact h.2 (-m) htie

/-- Half a unit more, rounded down: the integers below are at least half a unit away, and those above
are more. -/
theorem isNearest_floor (hq : 0 ≤ q) : IsNearest q ⌊q + 1 / 2⌋ := by
  have hlow := Int.floor_le (q + 1 / 2)
  have hhigh := Int.lt_floor_add_one (q + 1 / 2)
  generalize ⌊q + 1 / 2⌋ = n at hlow hhigh ⊢
  have hnear : |q - n| ≤ 1 / 2 := abs_le.mpr ⟨by linarith, by linarith⟩
  have habove : ∀ m : ℤ, n < m → |q - n| < |q - m| := by
    intro m hm
    have hstep : (n : ℚ) + 1 ≤ m := by exact_mod_cast hm
    have hdistance := neg_le_abs (q - m)
    linarith
  constructor
  · intro m
    rcases lt_trichotomy m n with hm | rfl | hm
    · have hstep : (m : ℚ) + 1 ≤ n := by exact_mod_cast hm
      have hdistance := le_abs_self (q - m)
      linarith
    · exact le_rfl
    · exact (habove m hm).le
  · intro m htie
    rcases lt_trichotomy m n with hm | rfl | hm
    · have hpositive : 0 ≤ m := by
        by_contra hnegative
        have hstep : (m : ℚ) + 1 ≤ 0 := by exact_mod_cast not_le.mp hnegative
        have hdistance := le_abs_self (q - m)
        linarith
      rw [abs_of_nonneg hpositive, abs_of_nonneg (hpositive.trans hm.le)]
      exact hm.le
    · exact le_rfl
    · exact absurd htie (habove m hm).ne'

theorem isNearest_nearest (q : ℚ) : IsNearest q (nearest q) := by
  unfold nearest
  split
  next hneg =>
    have h := (isNearest_floor (neg_nonneg.mpr hneg.le)).neg
    rwa [neg_neg] at h
  next hpos => exact isNearest_floor (not_lt.mp hpos)

@[simp] theorem nearest_neg (q : ℚ) : nearest (-q) = -nearest q := by
  unfold nearest
  rcases lt_trichotomy q 0 with h | rfl | h
  · rw [if_neg (not_lt.mpr (neg_nonneg.mpr h.le)), if_pos h, neg_neg]
  · norm_num
  · rw [if_pos (neg_neg_iff_pos.mpr h), if_neg (not_lt.mpr h.le), neg_neg]

end

@[simp] theorem Double.toRat_neg (x : Double) : x.neg.toRat = -x.toRat := by
  have hmagnitude : x.neg.magnitude = x.magnitude := rfl
  rw [Double.toRat, Double.toRat, hmagnitude, Double.neg]
  cases x.negative with
  | true => simp
  | false => simp

@[simp] theorem Number.toRat_neg (x : Number) : x.neg.toRat = -x.toRat := by
  cases x with
  | natural n => exact Int.cast_neg n
  | decimal d => exact Reckoner.toRat_neg d
  | float y => exact y.toRat_neg

section
variable (span : Span) (x a b : Number)

theorem call_floor : callValue "floor" span [x] = .ok (.natural ⌊x.toRat⌋) := by
  rw [← x.floor_eq]
  rfl

theorem call_ceil : callValue "ceil" span [x] = .ok (.natural ⌈x.toRat⌉) := by
  rw [← x.ceil_eq]
  rfl

theorem call_round : callValue "round" span [x] = .ok (.natural (nearest x.toRat)) := by
  rw [← x.round_eq]
  rfl

theorem call_max :
    callValue "max" span [a, b] = .ok (if a.toRat < b.toRat then b else a) := by
  rw [← a.max_eq]
  rfl

theorem call_min :
    callValue "min" span [a, b] = .ok (if b.toRat < a.toRat then b else a) := by
  rw [← a.min_eq]
  rfl

/-- For numbers of every kind, `floor` is the integer at or right below, `ceil` its counterpart under
negation, and `round` the nearest integer, halves going away from zero; `max` and `min` are the one
of two numbers that bounds both, and the first of two that are equal. -/
theorem whole_parts_and_bounds :
    (∃ n : ℤ, callValue "floor" span [x] = .ok (.natural n) ∧ n ≤ x.toRat ∧ x.toRat < n + 1) ∧
    (∃ n : ℤ, callValue "floor" span [x.neg] = .ok (.natural n) ∧
      callValue "ceil" span [x] = .ok (.natural (-n))) ∧
    (∃ n : ℤ, callValue "round" span [x] = .ok (.natural n) ∧ IsNearest x.toRat n ∧
      callValue "round" span [x.neg] = .ok (.natural (-n))) ∧
    (∃ c, callValue "max" span [a, b] = .ok c ∧ (c = a ∨ c = b) ∧
      a.toRat ≤ c.toRat ∧ b.toRat ≤ c.toRat ∧ (a.toRat = b.toRat → c = a)) ∧
    ∃ c, callValue "min" span [a, b] = .ok c ∧ (c = a ∨ c = b) ∧
      c.toRat ≤ a.toRat ∧ c.toRat ≤ b.toRat ∧ (a.toRat = b.toRat → c = a) := by
  refine ⟨⟨_, call_floor span x, Int.floor_le _, Int.lt_floor_add_one _⟩,
    ⟨_, call_floor span x.neg, ?_⟩, ⟨_, call_round span x, isNearest_nearest _, ?_⟩,
    ⟨_, call_max span a b, ?_⟩, ⟨_, call_min span a b, ?_⟩⟩
  · rw [call_ceil, x.toRat_neg, Int.floor_neg, neg_neg]
  · rw [call_round, x.toRat_neg, nearest_neg]
  · by_cases h : a.toRat < b.toRat
    · rw [if_pos h]
      exact ⟨.inr rfl, h.le, le_rfl, fun htie => absurd htie h.ne⟩
    · rw [if_neg h]
      exact ⟨.inl rfl, le_rfl, not_lt.mp h, fun _ => rfl⟩
  · by_cases h : b.toRat < a.toRat
    · rw [if_pos h]
      exact ⟨.inr rfl, h.le, le_rfl, fun htie => absurd htie h.ne'⟩
    · rw [if_neg h]
      exact ⟨.inl rfl, le_rfl, not_lt.mp h, fun _ => rfl⟩

/-- The double right below one half is not rounded up to one. -/
example : (Number.float ⟨false, 9007199254740991, 1020, by decide⟩).round = .natural 0 := by
  decide +kernel

end

end Reckoner
