import Mathlib
import Reckoner.Proofs.SizeOrder

namespace Reckoner

theorem ten_mul_tenth : (10 : ZMod hashModulus) * tenthResidue = 1 := by
  have hproduct : 10 * tenthResidue = 9 * hashModulus + 1 := by decide
  have hcast : ((10 * tenthResidue : ℕ) : ZMod hashModulus) = 1 := by
    rw [hproduct, Nat.cast_add, Nat.cast_mul, ZMod.natCast_self, mul_zero, zero_add, Nat.cast_one]
  exact_mod_cast hcast

theorem two_pow_sixty_one : (2 : ZMod hashModulus) ^ 61 = 1 := by
  have hpower : 2 ^ 61 = hashModulus + 1 := by decide
  have hcast : ((2 ^ 61 : ℕ) : ZMod hashModulus) = 1 := by
    rw [hpower, Nat.cast_add, ZMod.natCast_self, zero_add, Nat.cast_one]
  exact_mod_cast hcast

theorem cast_powerResidue (base exponent : ℕ) :
    (powerResidue base exponent : ZMod hashModulus) = (base : ZMod hashModulus) ^ exponent := by
  fun_induction powerResidue base exponent with
  | case1 base => simp
  | case2 base exponent h half heven ih =>
    rw [ih, ZMod.natCast_mod, Nat.cast_mul, ← sq, ← pow_mul]
    congr 1
    omega
  | case3 base exponent h half hodd ih =>
    rw [ZMod.natCast_mod, Nat.cast_mul, ih, ZMod.natCast_mod, Nat.cast_mul, ← sq, ← pow_mul,
      ← pow_succ]
    congr 1
    omega

/-- A residue of a fraction with finitely many decimals. -/
def ResidueOf (q : ℚ) (residue : ℕ) : Prop :=
  residue < hashModulus ∧
    ∃ k n : ℕ, q * 10 ^ k = n ∧ (residue : ZMod hashModulus) * 10 ^ k = n

theorem ResidueOf.unique {q : ℚ} {r r' : ℕ} (h : ResidueOf q r) (h' : ResidueOf q r') : r = r' := by
  obtain ⟨hlt, k, n, hn, hr⟩ := h
  obtain ⟨hlt', k', n', hn', hr'⟩ := h'
  have hwhole : n * 10 ^ k' = n' * 10 ^ k := by
    have hcast : (n : ℚ) * 10 ^ k' = n' * 10 ^ k := by
      rw [← hn, ← hn']
      ring
    exact_mod_cast hcast
  -- Brought to a common power of ten, both residues are that of one whole number.
  have hten : IsUnit ((10 : ZMod hashModulus) ^ (k + k')) :=
    (IsUnit.of_mul_eq_one _ ten_mul_tenth).pow _
  have hscaled : (r : ZMod hashModulus) * 10 ^ (k + k') = r' * 10 ^ (k + k') :=
    calc (r : ZMod hashModulus) * 10 ^ (k + k') = n * 10 ^ k' := by rw [← hr]; ring
      _ = n' * 10 ^ k := by exact_mod_cast congrArg (Nat.cast (R := ZMod hashModulus)) hwhole
      _ = r' * 10 ^ (k + k') := by rw [← hr']; ring
  have hsame := (ZMod.natCast_eq_natCast_iff' r r' _).mp (hten.mul_right_cancel hscaled)
  rwa [Nat.mod_eq_of_lt hlt, Nat.mod_eq_of_lt hlt'] at hsame

theorem residueOf_nat {q : ℚ} {n : ℕ} (h : q = n) : ResidueOf q (n % hashModulus) := by
  refine ⟨Nat.mod_lt _ (by decide), 0, n, by rw [h, pow_zero, mul_one], ?_⟩
  rw [ZMod.natCast_mod, pow_zero, mul_one]

theorem Decimal.residueOf (d : Decimal) : ResidueOf d.magnitude (Number.decimal d).residue := by
  rw [Number.residue]
  by_cases hneg : d.exponent < 0
  · obtain ⟨k, hk⟩ : ∃ k : ℕ, d.exponent = -(k : ℤ) := ⟨d.exponent.natAbs, by omega⟩
    have hplaces : d.exponent.natAbs = k := by omega
    simp only [if_pos hneg, hplaces]
    refine ⟨Nat.mod_lt _ (by decide), k, d.coefficient, ?_, ?_⟩
    · rw [Decimal.magnitude, hk, zpow_neg, zpow_natCast, mul_assoc, inv_mul_cancel₀ (by positivity),
        mul_one]
    · rw [ZMod.natCast_mod, Nat.cast_mul, cast_powerResidue, mul_assoc, ← mul_pow, mul_comm _ 10,
        ten_mul_tenth, one_pow, mul_one]
  · obtain ⟨k, hk⟩ : ∃ k : ℕ, d.exponent = k := ⟨d.exponent.natAbs, by omega⟩
    have hplaces : d.exponent.natAbs = k := by omega
    simp only [if_neg hneg, hplaces]
    refine ⟨Nat.mod_lt _ (by decide), 0, d.coefficient * 10 ^ k, ?_, ?_⟩
    · rw [Decimal.magnitude, hk, zpow_natCast, pow_zero, mul_one]
      push_cast
      rfl
    · rw [ZMod.natCast_mod, Nat.cast_mul, cast_powerResidue, pow_zero, mul_one, Nat.cast_mul,
        Nat.cast_pow]

/-- Halves are residues as well, the inverses of powers of two. -/
theorem two_pow_shift {m shift : ℕ} (h : 61 ∣ m + shift) (unit : ℕ) :
    (2 : ZMod hashModulus) ^ ((unit + shift) % 61) * 2 ^ m = 2 ^ unit := by
  have hcycle : ∀ {n : ℕ}, 61 ∣ n → (2 : ZMod hashModulus) ^ n = 1 := by
    rintro _ ⟨k, rfl⟩
    rw [pow_mul, two_pow_sixty_one, one_pow]
  have hmod := Nat.div_add_mod (unit + shift) 61
  calc (2 : ZMod hashModulus) ^ ((unit + shift) % 61) * 2 ^ m
      = 2 ^ (61 * ((unit + shift) / 61)) * 2 ^ ((unit + shift) % 61) * 2 ^ m := by
        rw [hcycle (dvd_mul_right _ _), one_mul]
    _ = 2 ^ unit * 2 ^ (m + shift) := by
        rw [← pow_add, ← pow_add, ← pow_add, hmod]
        congr 1
        ring
    _ = 2 ^ unit := by rw [hcycle h, mul_one]

theorem residueOf_halves {significand unit places : ℕ} (h : 61 ∣ places + 24) :
    ResidueOf ((significand * twoTo unit : ℕ) * (1 / 2 ^ places))
      (significand * twoTo ((unit + 24) % 61) % hashModulus) := by
  refine ⟨Nat.mod_lt _ (by decide), places, significand * 2 ^ unit * 5 ^ places, ?_, ?_⟩
  · have hten : (10 : ℚ) ^ places = 2 ^ places * 5 ^ places := by
      rw [← mul_pow]
      norm_num
    have htwo : (1 / 2 ^ places : ℚ) * 2 ^ places = 1 := one_div_mul_cancel (by positivity)
    rw [hten, mul_assoc, ← mul_assoc (1 / 2 ^ places), htwo, one_mul, Nat.cast_mul, twoTo_cast]
    push_cast
    rfl
  · have hten : (10 : ZMod hashModulus) ^ places = 2 ^ places * 5 ^ places := by
      rw [← mul_pow]
      norm_num
    have htwo : ∀ n, ((twoTo n : ℕ) : ZMod hashModulus) = 2 ^ n := fun n => Nat.cast_pow 2 n
    rw [ZMod.natCast_mod, Nat.cast_mul, htwo, hten, mul_assoc, ← mul_assoc (2 ^ _),
      two_pow_shift h]
    push_cast
    ring

theorem Double.residueOf (x : Double) : ResidueOf |x.toRat| (Number.float x).residue := by
  have hsize : |x.toRat| = (x.significand * twoTo x.unit : ℕ) * (1 / 2 ^ 1074) := by
    rw [Double.toRat_eq_units, abs_mul, abs_of_pos smallest_pos, Double.units]
    split
    · rw [Int.cast_neg, abs_neg, Int.cast_natCast, Nat.abs_cast]
      rfl
    · rw [Int.cast_natCast, Nat.abs_cast]
      rfl
  rw [hsize]
  exact residueOf_halves (by decide)

theorem Number.residueOf (x : Number) : ResidueOf |x.toRat| x.residue := by
  cases x with
  | natural n => exact residueOf_nat (by rw [Nat.cast_natAbs, Int.cast_abs]; rfl)
  | decimal d => exact d.abs_toRat ▸ d.residueOf
  | float y => exact y.residueOf

/-- Zero has no sign for its hash either. -/
theorem signedHash_eq {q : ℚ} {negative : Bool} {residue : ℕ} (hresidue : ResidueOf |q| residue)
    (hsign : if negative then q ≤ 0 else 0 ≤ q) :
    signedHash negative residue = signedHash (decide (q < 0)) residue := by
  by_cases hzero : q = 0
  · have hnone : |q| = (0 : ℕ) := by rw [hzero, abs_zero, Nat.cast_zero]
    rw [hresidue.unique (residueOf_nat hnone), Nat.zero_mod]
    cases negative <;> simp [signedHash]
  · congr 1
    cases negative with
    | true => exact (decide_eq_true (lt_of_le_of_ne hsign hzero)).symm
    | false => exact (decide_eq_false (not_lt.mpr hsign)).symm

theorem Number.hash_eq (x : Number) : x.hash = signedHash (decide (x.toRat < 0)) x.residue := by
  unfold Number.hash
  cases x with
  | natural n => rw [Number.toRat, decide_eq_decide.mpr Int.cast_lt_zero]
  | decimal d => exact signedHash_eq (Number.residueOf _) d.toRat_sign
  | float y => exact signedHash_eq (Number.residueOf _) y.toRat_sign

theorem Number.hash_congr {a b : Number} (h : a.toRat = b.toRat) : a.hash = b.hash := by
  have hresidue : a.residue = b.residue := a.residueOf.unique (h ▸ b.residueOf)
  rw [Number.hash_eq, Number.hash_eq, h, hresidue]

theorem Number.isIn_iff {x : Number} {set : List Number} :
    x.isIn set = true ↔ x.toRat ∈ set.map Number.toRat := by
  simp only [Number.isIn, List.any_eq_true, Bool.and_eq_true, decide_eq_true_iff, List.mem_map,
    Number.equals_iff]
  exact ⟨fun ⟨y, hy, _, h⟩ => ⟨y, hy, h⟩,
    fun ⟨y, hy, h⟩ => ⟨y, hy, Number.hash_congr h, h⟩⟩

/-- A set holds one number of each of the given sizes. -/
structure HoldsSizes (set : List Number) (sizes : Finset ℚ) : Prop where
  distinct : (set.map Number.toRat).Nodup
  complete : (set.map Number.toRat).toFinset = sizes

theorem HoldsSizes.nil : HoldsSizes [] ∅ :=
  ⟨List.nodup_nil, rfl⟩

theorem HoldsSizes.insert {set : List Number} {sizes : Finset ℚ} (h : HoldsSizes set sizes)
    (x : Number) : HoldsSizes (insertNumber set x) (insert x.toRat sizes) := by
  unfold insertNumber
  by_cases hmem : x.toRat ∈ set.map Number.toRat
  · rw [if_pos (Number.isIn_iff.mpr hmem)]
    refine ⟨h.distinct, ?_⟩
    rw [Finset.insert_eq_of_mem]
    · exact h.complete
    · rw [← h.complete]
      exact List.mem_toFinset.mpr hmem
  · rw [if_neg (mt Number.isIn_iff.mp hmem)]
    refine ⟨?_, ?_⟩
    · rw [List.map_append]
      exact h.distinct.append (List.nodup_singleton _) (by simpa using hmem)
    · rw [List.map_append, List.toFinset_append, h.complete, Finset.union_comm]
      rfl

theorem HoldsSizes.numberSet (xs : List Number) :
    HoldsSizes (numberSet xs) (xs.map Number.toRat).toFinset := by
  have hfold : ∀ {set sizes}, HoldsSizes set sizes →
      HoldsSizes (xs.foldl insertNumber set) (sizes ∪ (xs.map Number.toRat).toFinset) := by
    induction xs with
    | nil =>
      intro set sizes h
      simpa using h
    | cons x xs ih =>
      intro set sizes h
      have hrest := ih (h.insert x)
      rw [List.foldl_cons, List.map_cons, List.toFinset_cons, Finset.union_insert,
        ← Finset.insert_union]
      exact hrest
  have hsizes := hfold .nil
  rwa [Finset.empty_union] at hsizes

theorem length_numberSet (xs : List Number) :
    (numberSet xs).length = (xs.map Number.toRat).toFinset.card := by
  have h := HoldsSizes.numberSet xs
  rw [← h.complete, List.toFinset_card_of_nodup h.distinct, List.length_map]

/-- However two numbers are compared, the rational numbers that they stand for decide; so the
comparisons are those of one total order, equal numbers have equal hashes, and a set of numbers
holds as many of them as there are different rational numbers. -/
theorem numbers_ordered :
    (∀ (comparison : Comparison) (a b : Number),
      comparison.holds a b = true ↔ comparison.Relates a.toRat b.toRat) ∧
    TotallyOrdered Comparison.holds ∧
    (∀ a b : Number, Comparison.equal.holds a b = true → a.hash = b.hash) ∧
    ∀ xs : List Number, (numberSet xs).length = (xs.map Number.toRat).toFinset.card :=
  ⟨Comparison.holds_iff, totallyOrdered_of_relates Comparison.holds_iff,
    fun _ _ h => Number.hash_congr (Number.equals_iff.mp h), length_numberSet⟩

end Reckoner
