import Mathlib
import Reckoner.Number.Decimal

namespace Reckoner

theorem tenTo_cast (n : Nat) : ((tenTo n : Nat) : ℚ) = 10 ^ n := by
  have h : tenTo n = 10 ^ n := rfl
  rw [h, Nat.cast_pow]
  rfl

theorem tenPow_eq (e : Int) : tenPow e = (10 : ℚ) ^ e := by
  unfold tenPow
  split
  next h =>
    obtain ⟨n, hn⟩ : ∃ n : Nat, e = -(n : Int) := ⟨e.natAbs, by omega⟩
    rw [hn, Int.natAbs_neg, Int.natAbs_natCast, Rat.mkRat_eq_div, tenTo_cast, zpow_neg,
      zpow_natCast, Int.cast_one, one_div]
  next h =>
    obtain ⟨n, hn⟩ : ∃ n : Nat, e = (n : Int) := ⟨e.natAbs, by omega⟩
    rw [hn, Int.natAbs_natCast, tenTo_cast, zpow_natCast]

theorem Decimal.toRat_eq (d : Decimal) : d.toRat = d.signed * (10 : ℚ) ^ d.exponent := by
  rw [Decimal.toRat, tenPow_eq]

/-- Decimals of one sign and one exponent are told apart by their sizes. -/
theorem Decimal.eq_of_toRat {d e : Decimal} (hnegative : d.negative = e.negative)
    (hexponent : d.exponent = e.exponent) (h : d.toRat = e.toRat) : d = e := by
  have hten : (10 : ℚ) ^ e.exponent ≠ 0 := zpow_ne_zero _ (by norm_num)
  rw [Decimal.toRat_eq, Decimal.toRat_eq, hexponent] at h
  have hsigned : d.signed = e.signed := by exact_mod_cast mul_right_cancel₀ hten h
  have hcoefficient : d.coefficient = e.coefficient := by
    unfold Decimal.signed at hsigned
    rw [hnegative] at hsigned
    cases hsign : e.negative with
    | true => simpa [hsign] using hsigned
    | false => simpa [hsign] using hsigned
  cases d
  cases e
  cases hnegative
  cases hexponent
  cases hcoefficient
  rfl

/-- A coefficient that is written as sign and size. -/
theorem signed_of_natAbs {negative : Bool} {n e : Int} (h : n ≠ 0 → negative = decide (n < 0)) :
    (Decimal.mk negative n.natAbs e).signed = n := by
  unfold Decimal.signed
  by_cases hn : n = 0
  · subst hn
    simp
  · rw [h hn]
    by_cases hneg : n < 0
    · simp only [hneg, decide_true, if_true]
      omega
    · simp only [hneg, decide_false, Bool.false_eq_true, if_false]
      omega

@[simp] theorem toRat_ofInt (n : Int) : (Decimal.ofInt n).toRat = n := by
  have hsigned : (Decimal.ofInt n).signed = n := signed_of_natAbs fun _ => rfl
  rw [Decimal.toRat_eq, hsigned]
  simp [Decimal.ofInt]

theorem signedAt_cast {d : Decimal} {e : Int} (h : e ≤ d.exponent) :
    ((d.signedAt e : Int) : ℚ) * 10 ^ e = d.toRat := by
  obtain ⟨n, hn⟩ : ∃ n : Nat, d.exponent - e = n := ⟨(d.exponent - e).toNat, by omega⟩
  have hexp : d.exponent = n + e := by omega
  rw [Decimal.toRat_eq, Decimal.signedAt, hn, Int.toNat_natCast, hexp,
    zpow_add₀ (by norm_num : (10 : ℚ) ≠ 0), zpow_natCast]
  push_cast
  rw [tenTo_cast]
  ring

@[simp] theorem toRat_add (a b : Decimal) : (a.add b).toRat = a.toRat + b.toRat := by
  have hsigned : (a.add b).signed =
      a.signedAt (min a.exponent b.exponent) + b.signedAt (min a.exponent b.exponent) := by
    unfold Decimal.add
    apply signed_of_natAbs
    intro hne
    rw [if_neg hne]
  have hexp : (a.add b).exponent = min a.exponent b.exponent := rfl
  rw [Decimal.toRat_eq, hsigned, hexp, Int.cast_add, add_mul, signedAt_cast (min_le_left _ _),
    signedAt_cast (min_le_right _ _)]

@[simp] theorem signed_flip (d : Decimal) : d.flip.signed = -d.signed := by
  unfold Decimal.signed Decimal.flip
  cases d.negative <;> simp

@[simp] theorem toRat_flip (d : Decimal) : d.flip.toRat = -d.toRat := by
  have hexp : d.flip.exponent = d.exponent := rfl
  rw [Decimal.toRat_eq, Decimal.toRat_eq, signed_flip, hexp, Int.cast_neg, neg_mul]

@[simp] theorem toRat_sub (a b : Decimal) : (a.sub b).toRat = a.toRat - b.toRat := by
  rw [Decimal.sub, toRat_add, toRat_flip, sub_eq_add_neg]

@[simp] theorem toRat_mul (a b : Decimal) : (a.mul b).toRat = a.toRat * b.toRat := by
  have hsigned : (a.mul b).signed = a.signed * b.signed := by
    unfold Decimal.signed Decimal.mul
    cases a.negative <;> cases b.negative <;> simp
  have hexp : (a.mul b).exponent = a.exponent + b.exponent := rfl
  rw [Decimal.toRat_eq, Decimal.toRat_eq, Decimal.toRat_eq, hsigned, hexp,
    zpow_add₀ (by norm_num : (10 : ℚ) ≠ 0), Int.cast_mul]
  ring

@[simp] theorem toRat_neg (d : Decimal) : d.neg.toRat = -d.toRat := by
  unfold Decimal.neg
  split
  next hz =>
    have hzero : d.coefficient = 0 := of_decide_eq_true hz
    simp [Decimal.toRat, Decimal.signed, hzero]
  next => exact toRat_flip d

@[simp] theorem toRat_abs (d : Decimal) : d.abs.toRat = |d.toRat| := by
  have hsigned : (d.abs.signed : ℚ) = |(d.signed : ℚ)| := by
    unfold Decimal.signed Decimal.abs
    cases d.negative <;> simp
  have hexp : d.abs.exponent = d.exponent := rfl
  have hpos : (0 : ℚ) < 10 ^ d.exponent := zpow_pos (by norm_num) _
  rw [Decimal.toRat_eq, Decimal.toRat_eq, hsigned, hexp, abs_mul, abs_of_pos hpos]

theorem tenPow_split (e : ℤ) :
    (10 : ℚ) ^ e = (tenTo e.toNat : ℚ) / (tenTo (-e).toNat : ℚ) := by
  have hexp : e = (e.toNat : ℤ) - ((-e).toNat : ℤ) := by omega
  rw [tenTo_cast, tenTo_cast, ← zpow_natCast, ← zpow_natCast,
    ← zpow_sub₀ (by norm_num : (10 : ℚ) ≠ 0), ← hexp]

/-- A decimal as a fraction whose denominator counts the digits after the point. -/
theorem toRat_eq_div (d : Decimal) :
    d.toRat = (d.signed * tenTo d.exponent.toNat : ℤ) / (tenTo (-d.exponent).toNat : ℕ) := by
  rw [Decimal.toRat_eq, tenPow_split, Int.cast_mul, Int.cast_natCast, mul_div_assoc]

theorem Decimal.floor_eq (d : Decimal) : d.floor = ⌊d.toRat⌋ := by
  rw [toRat_eq_div, Rat.floor_intCast_div_natCast]
  rfl

theorem Decimal.ceil_eq (d : Decimal) : d.ceil = ⌈d.toRat⌉ := by
  rw [toRat_eq_div, Rat.ceil_intCast_div_natCast]
  rfl

section
variable {n k : ℕ}

theorem digitCount_le_iff (hk : 0 < k) : digitCount n ≤ k ↔ n < tenTo k := by
  rw [digitCount, natChars_eq]
  exact Nat.length_toDigits_le_iff (by decide) hk

@[simp] theorem digitCount_pos (n : ℕ) : 0 < digitCount n := by
  rw [digitCount, natChars_eq]
  exact List.length_pos_iff.mpr Nat.toDigits_ne_nil

theorem lt_tenTo_digitCount (n : ℕ) : n < tenTo (digitCount n) :=
  (digitCount_le_iff (digitCount_pos n)).mp le_rfl

theorem tenTo_le_of_digitCount (hn : 0 < n) : tenTo (digitCount n - 1) ≤ n := by
  have hpos := digitCount_pos n
  by_cases hone : digitCount n = 1
  · rw [hone]
    exact hn
  · by_contra hlt
    have := (digitCount_le_iff (by omega)).mpr (not_le.mp hlt)
    omega

theorem digitCount_eq (hk : 0 < k) (hlow : tenTo (k - 1) ≤ n) (hhigh : n < tenTo k) :
    digitCount n = k := by
  have hle := (digitCount_le_iff hk).mpr hhigh
  by_contra hne
  have hpos := digitCount_pos n
  have hless : n < tenTo (k - 1) := (digitCount_le_iff (by omega)).mp (by omega)
  omega

end

/-- A fraction that finitely many decimals write. -/
def FiniteDecimal (r : ℚ) : Prop :=
  ∃ (k : ℕ) (n : ℤ), r * 10 ^ k = n

theorem removeFactor_mul (p n : ℕ) : p ^ (removeFactor p n).1 * (removeFactor p n).2 = n := by
  fun_induction removeFactor p n with
  | case1 n h _ count rest hrest ih =>
    rw [hrest] at ih
    have hdvd : p ∣ n := Nat.dvd_of_mod_eq_zero h.2.2
    have hn : p * (n / p) = n := Nat.mul_div_cancel' hdvd
    calc p ^ (count + 1) * rest = p * (p ^ count * rest) := by ring
      _ = p * (n / p) := by rw [ih]
      _ = n := hn
  | case2 n h => simp

theorem not_dvd_removeFactor {p n : ℕ} (hp : 1 < p) (hn : 0 < n) : ¬ p ∣ (removeFactor p n).2 := by
  fun_induction removeFactor p n with
  | case1 n h _ count rest hrest ih =>
    rw [hrest] at ih
    have hdvd : p ∣ n := Nat.dvd_of_mod_eq_zero h.2.2
    exact ih (Nat.div_pos (Nat.le_of_dvd hn hdvd) (by omega))
  | case2 n h =>
    intro hdvd
    exact h ⟨hp, hn, Nat.mod_eq_zero_of_dvd hdvd⟩

theorem coprime_ten_of_not_dvd {n : ℕ} (htwo : ¬ 2 ∣ n) (hfive : ¬ 5 ∣ n) : n.Coprime 10 := by
  have h2 : n.Coprime 2 := ((Nat.Prime.coprime_iff_not_dvd Nat.prime_two).mpr htwo).symm
  have h5 : n.Coprime 5 := ((Nat.Prime.coprime_iff_not_dvd Nat.prime_five).mpr hfive).symm
  exact Nat.Coprime.mul_right h2 h5

/-- The factors two and five of a denominator, and what is left of it. -/
theorem decimalPlaces_eq (den : ℕ) :
    ∃ twos fives rest, den = 2 ^ twos * (5 ^ fives * rest) ∧
      (0 < den → rest.Coprime 10) ∧
      decimalPlaces? den = if rest = 1 then some (max twos fives) else none := by
  refine ⟨_, _, _, ?_, ?_, rfl⟩
  · rw [removeFactor_mul, removeFactor_mul]
  · intro hpos
    have htwo := not_dvd_removeFactor (by decide : 1 < 2) hpos
    have hmul := removeFactor_mul 5 (removeFactor 2 den).2
    have hrest : 0 < (removeFactor 2 den).2 := by
      rcases Nat.eq_zero_or_pos (removeFactor 2 den).2 with hz | hz
      · rw [hz] at htwo
        exact absurd (dvd_zero 2) htwo
      · exact hz
    refine coprime_ten_of_not_dvd (fun h => htwo ?_) (not_dvd_removeFactor (by decide) hrest)
    rw [← hmul]
    exact h.mul_left _

theorem dvd_of_decimalPlaces {den places : ℕ} (h : decimalPlaces? den = some places) :
    den ∣ tenTo places := by
  obtain ⟨twos, fives, rest, hden, _, hplaces⟩ := decimalPlaces_eq den
  rw [hplaces] at h
  split at h
  next hrest =>
    have hten : tenTo places = 2 ^ places * 5 ^ places := Nat.mul_pow 2 5 places
    have hmax : max twos fives = places := Option.some.inj h
    rw [hten, hden, hrest, mul_one]
    exact mul_dvd_mul (pow_dvd_pow 2 (by omega)) (pow_dvd_pow 5 (by omega))
  next => cases h

theorem decimalPlaces_of_dvd {den k : ℕ} (h : den ∣ 10 ^ k) :
    ∃ places, decimalPlaces? den = some places := by
  obtain ⟨twos, fives, rest, hden, hcoprime, hplaces⟩ := decimalPlaces_eq den
  have hpos : 0 < den := Nat.pos_of_dvd_of_pos h (by positivity)
  have hdvd : rest ∣ 10 ^ k := by
    refine dvd_trans ?_ h
    rw [hden, ← mul_assoc]
    exact dvd_mul_left rest _
  have hone : rest = 1 := Nat.Coprime.eq_one_of_dvd ((hcoprime hpos).pow_right k) hdvd
  exact ⟨max twos fives, by rw [hplaces, if_pos hone]⟩

theorem toRat_of_ofFinite {r : ℚ} {d : Decimal} (h : Decimal.ofFinite? r = some d) :
    d.toRat = r := by
  obtain ⟨places, hplaces, rfl⟩ := Option.map_eq_some_iff.mp h
  obtain ⟨m, hm⟩ := dvd_of_decimalPlaces hplaces
  have hden : 0 < r.den := r.den_pos
  have hmpos : 0 < m := Nat.pos_of_ne_zero fun hz => by
    have := tenTo_pos places
    rw [hm, hz, mul_zero] at this
    omega
  have hcoefficient : r.num.natAbs * tenTo places / r.den = (r.num * m).natAbs := by
    rw [hm, Int.natAbs_mul, Int.natAbs_natCast, mul_left_comm, Nat.mul_div_cancel_left _ hden]
  have hsign : decide (r < 0) = decide (r.num * m < 0) := by
    have hm' : (0 : ℤ) < m := by exact_mod_cast hmpos
    have hiff : r < 0 ↔ r.num * m < 0 := by
      rw [← Rat.num_neg, mul_neg_iff]
      omega
    exact decide_eq_decide.mpr hiff
  have hten : ((10 : ℚ) ^ places) = r.den * m := by
    rw [← tenTo_cast, hm, Nat.cast_mul]
  have hden' : (r.den : ℚ) ≠ 0 := by exact_mod_cast hden.ne'
  have hm' : (m : ℚ) ≠ 0 := by exact_mod_cast hmpos.ne'
  rw [Decimal.toRat_eq, hcoefficient, hsign, signed_of_natAbs fun _ => rfl]
  show ((r.num * m : ℤ) : ℚ) * 10 ^ (-(places : ℤ)) = r
  rw [zpow_neg, zpow_natCast, hten]
  push_cast
  calc (r.num : ℚ) * m * ((r.den : ℚ) * m)⁻¹ = r.num / r.den := by field_simp
    _ = r := Rat.num_div_den r

/-- A fraction that a number makes whole has a denominator that divides it. -/
theorem den_dvd_of_whole {r : ℚ} {m : ℕ} {n : ℤ} (hm : 0 < m) (h : r * m = n) : r.den ∣ m := by
  have hm' : (m : ℚ) ≠ 0 := by exact_mod_cast hm.ne'
  have hr : r = Rat.divInt n m := by
    rw [Rat.divInt_eq_div, Int.cast_natCast, eq_div_iff hm', h]
  rw [hr]
  exact_mod_cast Rat.den_dvd n m

theorem den_dvd_of_mul {r : ℚ} {k : ℕ} {n : ℤ} (h : r * 10 ^ k = n) : r.den ∣ 10 ^ k :=
  den_dvd_of_whole (by positivity) (by exact_mod_cast h)

theorem ofFinite_of_finiteDecimal {r : ℚ} (h : FiniteDecimal r) :
    ∃ d, Decimal.ofFinite? r = some d ∧ d.toRat = r := by
  obtain ⟨k, n, hkn⟩ := h
  obtain ⟨places, hplaces⟩ := decimalPlaces_of_dvd (den_dvd_of_mul hkn)
  have hd : ∃ d, Decimal.ofFinite? r = some d := ⟨_, by rw [Decimal.ofFinite?, hplaces]; rfl⟩
  obtain ⟨d, hd⟩ := hd
  exact ⟨d, hd, toRat_of_ofFinite hd⟩

/-- A fraction with a finite expansion is never rounded. -/
theorem ofRat_of_finiteDecimal {r : ℚ} (precision : ℕ) (h : FiniteDecimal r) :
    ∃ d, Decimal.ofRat? precision r = some d ∧ d.toRat = r := by
  obtain ⟨d, hd, hr⟩ := ofFinite_of_finiteDecimal h
  exact ⟨d, by rw [Decimal.ofRat?, hd], hr⟩

theorem finiteDecimal_toRat (d : Decimal) : FiniteDecimal d.toRat := by
  refine ⟨(-d.exponent).toNat, d.signed * 10 ^ d.exponent.toNat, ?_⟩
  have hexp : d.exponent + ((-d.exponent).toNat : ℤ) = (d.exponent.toNat : ℤ) := by omega
  rw [Decimal.toRat_eq, mul_assoc, ← zpow_natCast, ← zpow_add₀ (by norm_num : (10 : ℚ) ≠ 0), hexp]
  push_cast
  rw [zpow_natCast]

theorem finiteDecimal_iff {r : ℚ} : FiniteDecimal r ↔ (Decimal.ofFinite? r).isSome = true := by
  constructor
  · intro h
    obtain ⟨d, hd, _⟩ := ofFinite_of_finiteDecimal h
    rw [hd]
    rfl
  · intro h
    obtain ⟨d, hd⟩ := Option.isSome_iff_exists.mp h
    exact toRat_of_ofFinite hd ▸ finiteDecimal_toRat d

instance (r : ℚ) : Decidable (FiniteDecimal r) :=
  decidable_of_iff _ finiteDecimal_iff.symm

theorem FiniteDecimal.pow {r : ℚ} (h : FiniteDecimal r) (n : ℕ) : FiniteDecimal (r ^ n) := by
  obtain ⟨k, m, hkm⟩ := h
  refine ⟨k * n, m ^ n, ?_⟩
  rw [pow_mul, ← mul_pow, hkm, Int.cast_pow]

@[simp] theorem toRat_pow (d : Decimal) (n : ℕ) : (d.pow n).toRat = d.toRat ^ n := by
  obtain ⟨e, he, hr⟩ := ofFinite_of_finiteDecimal ((finiteDecimal_toRat d).pow n)
  rw [Decimal.pow, he, Option.getD_some, hr]

end Reckoner
