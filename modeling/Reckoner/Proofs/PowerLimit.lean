import Reckoner.Proofs.EqualOperands

namespace Reckoner

section
variable {base exponent : ℕ}

theorem lt_pow_bitLength (n : ℕ) : n < 2 ^ bitLength n := by
  unfold bitLength
  split
  next hzero =>
    rw [hzero]
    exact Nat.one_pos
  next => exact Nat.lt_log2_self

theorem pow_bitLength_le {n : ℕ} (hn : n ≠ 0) : 2 ^ (bitLength n - 1) ≤ n := by
  rw [bitLength, if_neg hn, Nat.add_sub_cancel]
  exact Nat.log2_self_le hn

/-- A refused power is beyond the limit, as its base has a binary digit less above it than it has
digits. -/
theorem lt_pow_of_refused (h : powerRefused (bitLength base) exponent = true) :
    2 ^ maxResultBits < base ^ exponent := by
  simp only [powerRefused, Bool.and_eq_true, decide_eq_true_eq] at h
  obtain ⟨hbits, hlimit⟩ := h
  have hbase : base ≠ 0 := by
    rintro rfl
    exact absurd hbits (by decide)
  calc 2 ^ maxResultBits < 2 ^ ((bitLength base - 1) * exponent) :=
        Nat.pow_lt_pow_right (by decide) hlimit
    _ = (2 ^ (bitLength base - 1)) ^ exponent := Nat.pow_mul 2 _ _
    _ ≤ base ^ exponent := Nat.pow_le_pow_left (pow_bitLength_le hbase) exponent

/-- A base of at least two digits has at most twice as many as there are below its first one. -/
theorem pow_lt_of_allowed (h : powerRefused (bitLength base) exponent = false) :
    base ^ exponent < 2 ^ (2 * maxResultBits) := by
  have hone : 1 < 2 ^ (2 * maxResultBits) := Nat.one_lt_two_pow (by decide)
  have hbelow := lt_pow_bitLength base
  by_cases hbits : 1 < bitLength base
  · have hlimit : (bitLength base - 1) * exponent ≤ maxResultBits := by
      simpa [powerRefused, hbits] using h
    by_cases hexponent : exponent = 0
    · rw [hexponent, Nat.pow_zero]
      exact hone
    · have htwice : bitLength base * exponent ≤ 2 * maxResultBits := by
        calc bitLength base * exponent ≤ 2 * (bitLength base - 1) * exponent :=
              Nat.mul_le_mul_right exponent (by omega)
          _ = 2 * ((bitLength base - 1) * exponent) := Nat.mul_assoc _ _ _
          _ ≤ 2 * maxResultBits := Nat.mul_le_mul_left 2 hlimit
      calc base ^ exponent < (2 ^ bitLength base) ^ exponent :=
            Nat.pow_lt_pow_left hbelow hexponent
        _ = 2 ^ (bitLength base * exponent) := (Nat.pow_mul 2 _ _).symm
        _ ≤ 2 ^ (2 * maxResultBits) := Nat.pow_le_pow_right (by decide) htwice
  · have hbase : base ≤ 1 := by
      have hhigh : 2 ^ bitLength base ≤ 2 ^ 1 := Nat.pow_le_pow_right (by decide) (by omega)
      omega
    calc base ^ exponent ≤ 1 ^ exponent := Nat.pow_le_pow_left hbase exponent
      _ = 1 := Nat.one_pow exponent
      _ < 2 ^ (2 * maxResultBits) := hone

end

section
variable {b : Number} {n : ℕ} (m : ℤ)

theorem pow_natural_allowed (hb : b.Denotes n)
    (h : powerRefused (bitLength m.natAbs) n = false) :
    ∃ x, (Number.natural m).pow b = .ok x ∧ x.kind = b.kind ∧ x.toRat = m ^ n := by
  obtain ⟨x, hx, hkind⟩ : ∃ x, (Number.natural m).pow b = .ok x ∧ x.kind = b.kind := by
    simp only [Number.pow, exponent_of_denotes hb, h, Bool.false_eq_true, if_false]
    obtain hk | hk := hb.1
    · rw [hk]
      exact ⟨_, rfl, rfl⟩
    · rw [hk]
      exact ⟨_, rfl, rfl⟩
  exact ⟨x, hx, hkind, (pow_denotes (natural_denotes m) hb hx).2⟩

/-- The power of an integer to a natural or decimal exponent that is a natural number. Either it is
computed, and then it is exact, of the kind of the exponent and below the square of the limit, or it
is refused, and then it is beyond the limit. -/
theorem natural_power_limited (hb : b.Denotes n) :
    ((∃ x, (Number.natural m).pow b = .ok x ∧ x.kind = b.kind ∧ x.toRat = m ^ n) ∧
      m.natAbs ^ n < 2 ^ (2 * maxResultBits)) ∨
    ((Number.natural m).pow b = .error (.range .powerRefused) ∧
      2 ^ maxResultBits < m.natAbs ^ n) := by
  cases h : powerRefused (bitLength m.natAbs) n with
  | true =>
    have hrefuses : (Number.natural m).RefusesPower b := ⟨n, exponent_of_denotes hb, h⟩
    exact .inr ⟨pow_refused (natural_denotes m) hrefuses, lt_pow_of_refused h⟩
  | false => exact .inl ⟨pow_natural_allowed m hb h, pow_lt_of_allowed h⟩

end

def threePointZero : Number :=
  .decimal ⟨false, 30, -1⟩

theorem minusSeven_cubed :
    threePointZero.Denotes (3 : ℕ) ∧
      (∃ x, (Number.natural (-7)).pow threePointZero = .ok x ∧ x.kind = .decimal ∧
        x.toRat = -343) ∧ 343 < 2 ^ (2 * maxResultBits) := by
  have hthree : threePointZero.Denotes (3 : ℕ) := ⟨.inr rfl, by decide +kernel⟩
  have hallowed : powerRefused (bitLength (-7 : ℤ).natAbs) 3 = false := by decide
  obtain ⟨⟨x, hx, hkind, hsize⟩, hbelow⟩ | ⟨hrefused, _⟩ := natural_power_limited (-7) hthree
  · have hpower : ((-7 : ℤ) : ℚ) ^ 3 = -343 := by norm_num
    exact ⟨hthree, ⟨x, hx, hkind, hsize.trans hpower⟩, hbelow⟩
  · obtain ⟨x, hx, _⟩ := pow_natural_allowed (-7) hthree hallowed
    rw [hx] at hrefused
    cases hrefused

end Reckoner
