import Mathlib
import Reckoner.Builtin
import Reckoner.Proofs.DecimalLimits
import Reckoner.Proofs.TreeEvaluation

namespace Reckoner

/-- The number is not a float and stands for the fraction. -/
def Number.Denotes (x : Number) (q : ℚ) : Prop :=
  (x.kind = .natural ∨ x.kind = .decimal) ∧ x.toRat = q

theorem natural_denotes (n : ℤ) : (Number.natural n).Denotes n :=
  ⟨.inl rfl, rfl⟩

theorem decimal_denotes {d : Decimal} {q : ℚ} (h : d.toRat = q) : (Number.decimal d).Denotes q :=
  ⟨.inr rfl, h⟩

theorem Number.Denotes.cases {x : Number} {q : ℚ} (h : x.Denotes q) :
    (∃ n : ℤ, x = .natural n ∧ q = n) ∨ ∃ d : Decimal, x = .decimal d ∧ q = d.toRat := by
  obtain ⟨hkind, hq⟩ := h
  cases x with
  | natural n => exact .inl ⟨n, rfl, hq.symm⟩
  | decimal d => exact .inr ⟨d, rfl, hq.symm⟩
  | float y => rcases hkind with hk | hk <;> cases hk

theorem denotes_of_kind {x : Number} (h : x.kind ≠ .float) : x.Denotes x.toRat := by
  cases x with
  | natural n => exact natural_denotes n
  | decimal d => exact decimal_denotes rfl
  | float y => exact absurd rfl h

section
variable {a b x : Number} {p q : ℚ}

/-- Two exact operands are widened to naturals or to decimals, of the same values. -/
theorem promote_denotes (ha : a.Denotes p) (hb : b.Denotes q) :
    (∃ m n : ℤ, a.promote b = .ok (.naturals m n) ∧ p = m ∧ q = n) ∨
      ∃ d e : Decimal, a.promote b = .ok (.decimals d e) ∧ p = d.toRat ∧ q = e.toRat := by
  obtain ⟨m, rfl, rfl⟩ | ⟨d, rfl, rfl⟩ := ha.cases
  · obtain ⟨n, rfl, rfl⟩ | ⟨e, rfl, rfl⟩ := hb.cases
    · exact .inl ⟨m, n, rfl, rfl, rfl⟩
    · exact .inr ⟨.ofInt m, e, rfl, (toRat_ofInt m).symm, rfl⟩
  · obtain ⟨n, rfl, rfl⟩ | ⟨e, rfl, rfl⟩ := hb.cases
    · exact .inr ⟨d, .ofInt n, rfl, rfl, (toRat_ofInt n).symm⟩
    · exact .inr ⟨d, e, rfl, rfl, rfl⟩

/-- Two numbers that are widened to decimals. -/
structure Number.DecimalPair (a b : Number) : Prop where
  left : a.kind ≠ .float
  right : b.kind ≠ .float
  widened : a.kind = .decimal ∨ b.kind = .decimal

theorem promote_decimals (h : a.DecimalPair b) :
    ∃ d e, a.promote b = .ok (.decimals d e) ∧ d.toRat = a.toRat ∧ e.toRat = b.toRat := by
  obtain ⟨ha, hb, hwidened⟩ := h
  cases a with
  | natural m =>
    cases b with
    | natural n => simp [Number.kind] at hwidened
    | decimal e => exact ⟨_, _, rfl, toRat_ofInt m, rfl⟩
    | float y => exact absurd rfl hb
  | decimal d =>
    cases b with
    | natural n => exact ⟨_, _, rfl, rfl, toRat_ofInt n⟩
    | decimal e => exact ⟨_, _, rfl, rfl, rfl⟩
    | float y => exact absurd rfl hb
  | float x => exact absurd rfl ha

/-- The operation does on naturals and decimals what `g` does on their numbers: naturals give an
exact natural, and a decimal is fitted to the limits. -/
structure Combines (f : Number → Number → Except NumericError Number) (g : ℚ → ℚ → ℚ) : Prop where
  naturals : ∀ m n : ℤ, ∃ k : ℤ, f (.natural m) (.natural n) = .ok (.natural k) ∧ (k : ℚ) = g m n
  decimals : ∀ {a b : Number}, a.DecimalPair b →
    ∃ d, d.toRat = g a.toRat b.toRat ∧ f a b = Number.ofDecimal? (exactContext.fit d)

theorem add_combines : Combines Number.add (· + ·) where
  naturals m n := ⟨m + n, rfl, Int.cast_add m n⟩
  decimals h := by
    obtain ⟨d, e, hops, hd, he⟩ := promote_decimals h
    refine ⟨d.add e, ?_, ?_⟩
    · rw [toRat_add, hd, he]
    · rw [Number.add, hops]
      rfl

theorem sub_combines : Combines Number.sub (· - ·) where
  naturals m n := ⟨m - n, rfl, Int.cast_sub m n⟩
  decimals h := by
    obtain ⟨d, e, hops, hd, he⟩ := promote_decimals h
    refine ⟨d.sub e, ?_, ?_⟩
    · rw [toRat_sub, hd, he]
    · rw [Number.sub, hops]
      rfl

theorem mul_combines : Combines Number.mul (· * ·) where
  naturals m n := ⟨m * n, rfl, Int.cast_mul m n⟩
  decimals h := by
    obtain ⟨d, e, hops, hd, he⟩ := promote_decimals h
    refine ⟨d.mul e, ?_, ?_⟩
    · rw [toRat_mul, hd, he]
    · rw [Number.mul, hops]
      rfl

/-- Sums, differences and products, and what they are of numbers. -/
inductive ExactSign : BinarySign → (ℚ → ℚ → ℚ) → Prop
  | sum : ExactSign .plus (· + ·)
  | difference : ExactSign .minus (· - ·)
  | product : ExactSign .times (· * ·)

theorem ExactSign.combines {op : BinarySign} {g : ℚ → ℚ → ℚ} (h : ExactSign op g)
    (precision : ℕ) : Combines (op.apply precision) g := by
  cases h with
  | sum => exact add_combines
  | difference => exact sub_combines
  | product => exact mul_combines

theorem Number.Denotes.pair (ha : a.Denotes p) (hb : b.Denotes q) :
    (∃ m n : ℤ, a = .natural m ∧ b = .natural n ∧ p = m ∧ q = n) ∨ a.DecimalPair b := by
  obtain ⟨m, rfl, rfl⟩ | ⟨d, rfl, rfl⟩ := ha.cases
  · obtain ⟨n, rfl, rfl⟩ | ⟨e, rfl, rfl⟩ := hb.cases
    · exact .inl ⟨m, n, rfl, rfl, rfl, rfl⟩
    · exact .inr ⟨Kind.noConfusion, Kind.noConfusion, .inr rfl⟩
  · obtain ⟨n, rfl, rfl⟩ | ⟨e, rfl, rfl⟩ := hb.cases
    · exact .inr ⟨Kind.noConfusion, Kind.noConfusion, .inl rfl⟩
    · exact .inr ⟨Kind.noConfusion, Kind.noConfusion, .inl rfl⟩

section
variable {f : Number → Number → Except NumericError Number} {g : ℚ → ℚ → ℚ}

/-- On decimals the exact result is too large, or is rounded to the digits that can be held. -/
theorem Combines.on_decimals (hf : Combines f g) (h : a.DecimalPair b) :
    (f a b = .error (.fault .decimalTooLarge) ∧ exactContext.limit ≤ |g a.toRat b.toRat|) ∨
      ∃ d, f a b = .ok (.decimal d) ∧ |g a.toRat b.toRat| < exactContext.limit ∧
        d.toRat = exactContext.rounded (g a.toRat b.toRat) := by
  obtain ⟨d, hd, hresult⟩ := hf.decimals h
  rw [hresult, ← hd]
  obtain ⟨hnone, hlarge⟩ | ⟨e, hsome, hless, hvalue⟩ :=
    DecimalContext.fit_cases DecimalContext.exactContext_sound d
  · rw [hnone]
    exact .inl ⟨rfl, hlarge⟩
  · rw [hsome]
    exact .inr ⟨e, rfl, hless, hvalue⟩

/-- Where the digits of the exact result can be held, every result is exact. -/
theorem Combines.denotes (hf : Combines f g) (ha : a.Denotes p) (hb : b.Denotes q)
    (hheld : a.DecimalPair b → exactContext.Holds (g p q)) (h : f a b = .ok x) :
    x.Denotes (g p q) := by
  obtain ⟨m, n, rfl, rfl, rfl, rfl⟩ | hpair := ha.pair hb
  · obtain ⟨k, hresult, hk⟩ := hf.naturals m n
    rw [hresult] at h
    cases h
    rw [← hk]
    exact natural_denotes k
  · have hexact := (hheld hpair).rounded
    rw [← ha.2, ← hb.2] at hexact ⊢
    obtain ⟨herror, _⟩ | ⟨d, hresult, _, hvalue⟩ := hf.on_decimals hpair
    · rw [herror] at h
      cases h
    · rw [hresult] at h
      cases h
      exact decimal_denotes (hvalue.trans hexact)

end

/-- A quotient with a finite expansion is exact: an integer is natural where both operands are, and
every other quotient is a decimal. -/
theorem div_denotes {precision : ℕ} (ha : a.Denotes p) (hb : b.Denotes q)
    (hfinite : FiniteDecimal (p / q)) (h : a.div precision b = .ok x) : x.Denotes (p / q) := by
  have hdecimal : Number.ofDecimal? (Decimal.ofRat? precision (p / q)) = .ok x →
      x.Denotes (p / q) := by
    intro h
    obtain ⟨d, hd, hvalue⟩ := ofRat_of_finiteDecimal precision hfinite
    rw [hd] at h
    cases h
    exact decimal_denotes hvalue
  unfold Number.div at h
  by_cases hzero : b.isZero = true
  · rw [if_pos hzero] at h
    cases h
  rw [if_neg hzero] at h
  obtain ⟨m, n, hops, rfl, rfl⟩ | ⟨d, e, hops, rfl, rfl⟩ := promote_denotes ha hb
  · rw [hops] at h
    replace h : (if m % n = 0 then Except.ok (Number.natural (m / n))
      else Number.ofDecimal? (Decimal.ofRat? precision (m / n))) = .ok x := h
    by_cases hmod : m % n = 0
    · rw [if_pos hmod] at h
      cases h
      have hn : (n : ℚ) ≠ 0 := fun hn => hzero (decide_eq_true (hb.2.trans hn))
      have hquotient : ((m / n : ℤ) : ℚ) = m / n :=
        Int.cast_div (Int.dvd_of_emod_eq_zero hmod) hn
      rw [← hquotient]
      exact natural_denotes (m / n)
    · rw [if_neg hmod] at h
      exact hdecimal h
  · rw [hops] at h
    exact hdecimal h

theorem intPower_eq (m : ℤ) (n : ℕ) : intPower m n = m ^ n := by
  unfold intPower
  split
  next hm =>
    obtain rfl | rfl | rfl : m = 0 ∨ m = 1 ∨ m = -1 := by omega
    · cases n <;> simp
    · simp
    · rcases Nat.even_or_odd n with heven | hodd
      · have hmod : n % 2 = 0 := Nat.even_iff.mp heven
        simp [heven.neg_one_pow, hmod]
      · have hmod : n % 2 = 1 := Nat.odd_iff.mp hodd
        have hne : n ≠ 0 := by omega
        simp [hodd.neg_one_pow, hmod, hne]
  next => rfl

/-- An exact exponent is recognized, whichever of the two kinds it has. -/
theorem exponent_of_denotes {n : ℕ} (hb : b.Denotes n) : b.exponent? = some n := by
  obtain ⟨m, rfl, hm⟩ | ⟨d, rfl, hd⟩ := hb.cases
  · have hmn : m = n := by exact_mod_cast hm.symm
    subst hmn
    simp [Number.exponent?]
  · have hinteger : d.integer? = some (n : ℤ) := by
      unfold Decimal.integer?
      rw [← hd]
      simp
    simp [Number.exponent?, hinteger]

theorem pow_denotes {n : ℕ} (ha : a.Denotes p) (hb : b.Denotes n) (h : a.pow b = .ok x) :
    x.Denotes (p ^ n) := by
  have hexponent := exponent_of_denotes hb
  obtain ⟨m, rfl, rfl⟩ | ⟨d, rfl, rfl⟩ := ha.cases
  · have hpower : ((intPower m n : ℤ) : ℚ) = (m : ℚ) ^ n := by
      rw [intPower_eq, Int.cast_pow]
    simp only [Number.pow, hexponent] at h
    split at h
    · cases h
    · split at h
      · cases h
        rw [← hpower]
        exact natural_denotes _
      · cases h
        rw [← hpower]
        exact decimal_denotes (toRat_ofInt _)
  · simp only [Number.pow, hexponent] at h
    split at h
    · cases h
    · cases h
      exact decimal_denotes (toRat_pow d n)

theorem neg_denotes (ha : a.Denotes p) : a.neg.Denotes (-p) := by
  obtain ⟨m, rfl, rfl⟩ | ⟨d, rfl, rfl⟩ := ha.cases
  · exact_mod_cast natural_denotes (-m)
  · exact decimal_denotes (toRat_neg d)

theorem abs_denotes (ha : a.Denotes p) : a.abs.Denotes |p| := by
  obtain ⟨m, rfl, rfl⟩ | ⟨d, rfl, rfl⟩ := ha.cases
  · have habs : ((m.natAbs : ℤ) : ℚ) = |(m : ℚ)| := by
      rw [Int.natCast_natAbs, Int.cast_abs]
    rw [← habs]
    exact natural_denotes _
  · exact decimal_denotes (toRat_abs d)

theorem rangeProduct_eq (start count : ℕ) :
    rangeProduct start count = (start + 1).ascFactorial count := by
  fun_induction rangeProduct start count with
  | case1 start => rfl
  | case2 start => simp [Nat.ascFactorial]
  | case3 start count hzero hone ih ih' =>
    have hshift : start + count / 2 + 1 = start + 1 + count / 2 := by omega
    have hsum : count / 2 + (count - count / 2) = count := by omega
    rw [ih, ih', hshift, Nat.ascFactorial_mul_ascFactorial, hsum]

theorem factorial_eq (n : ℕ) : Reckoner.factorial n = n.factorial := by
  rw [Reckoner.factorial, rangeProduct_eq, zero_add, Nat.one_ascFactorial]

theorem factorial_denotes {n : ℕ} (ha : a.Denotes n) (h : a.factorial = .ok x) :
    x.Denotes (n.factorial : ℕ) := by
  have hinteger : a.integer? = some (n : ℤ) := by
    unfold Number.integer?
    rw [ha.2]
    simp
  unfold Number.factorial at h
  simp only [hinteger] at h
  split at h
  · cases h
  · split at h
    · cases h
    · cases h
      rw [Int.toNat_natCast, factorial_eq]
      exact_mod_cast natural_denotes (n.factorial : ℤ)

theorem Number.floor_eq (x : Number) : x.floor = .natural ⌊x.toRat⌋ := by
  cases x with
  | natural n =>
    have hfloor : ⌊(Number.natural n).toRat⌋ = n := Int.floor_intCast n
    rw [hfloor]
    rfl
  | decimal d => exact congrArg Number.natural d.floor_eq
  | float y => exact congrArg Number.natural y.floor_eq

theorem Number.ceil_eq (x : Number) : x.ceil = .natural ⌈x.toRat⌉ := by
  cases x with
  | natural n =>
    have hceil : ⌈(Number.natural n).toRat⌉ = n := Int.ceil_intCast n
    rw [hceil]
    rfl
  | decimal d => exact congrArg Number.natural d.ceil_eq
  | float y => exact congrArg Number.natural y.ceil_eq

/-- The nearest integer, of two that are equally near the one farther from zero. -/
def nearest (q : ℚ) : ℤ :=
  if q < 0 then -⌊-q + 1 / 2⌋ else ⌊q + 1 / 2⌋

theorem nearest_intCast (n : ℤ) : nearest n = n := by
  unfold nearest
  have hfloor : ∀ m : ℤ, ⌊(m : ℚ) + 1 / 2⌋ = m := by
    intro m
    rw [Int.floor_intCast_add]
    norm_num
  split
  · rw [← Int.cast_neg, hfloor, neg_neg]
  · exact hfloor n

theorem Number.round_eq (x : Number) : x.round = .natural (nearest x.toRat) := by
  have hhalf : mkRat 1 2 = (1 / 2 : ℚ) := by norm_num [Rat.mkRat_eq_div]
  have hrational : Number.natural
      (let n := ((if x.toRat < 0 then -x.toRat else x.toRat) + mkRat 1 2).floor
       if x.toRat < 0 then -n else n) = .natural (nearest x.toRat) := by
    unfold nearest
    by_cases hneg : x.toRat < 0
    · simp only [hhalf, if_pos hneg]
      rfl
    · simp only [hhalf, if_neg hneg]
      rfl
  cases x with
  | natural n =>
    have hnearest : nearest (Number.natural n).toRat = n := nearest_intCast n
    rw [hnearest]
    rfl
  | decimal d => exact hrational
  | float y => exact hrational

theorem Number.max_eq (a b : Number) : a.max b = if a.toRat < b.toRat then b else a :=
  if_congr (Comparison.holds_iff .greater b a) rfl rfl

theorem Number.min_eq (a b : Number) : a.min b = if b.toRat < a.toRat then b else a :=
  if_congr (Comparison.holds_iff .less b a) rfl rfl

theorem floor_denotes (ha : a.Denotes p) : a.floor.Denotes (⌊p⌋ : ℤ) := by
  rw [a.floor_eq, ha.2]
  exact natural_denotes _

theorem ceil_denotes (ha : a.Denotes p) : a.ceil.Denotes (⌈p⌉ : ℤ) := by
  rw [a.ceil_eq, ha.2]
  exact natural_denotes _

theorem round_denotes (ha : a.Denotes p) : a.round.Denotes (nearest p) := by
  rw [a.round_eq, ha.2]
  exact natural_denotes _

theorem max_denotes (ha : a.Denotes p) (hb : b.Denotes q) : (a.max b).Denotes (max p q) := by
  rw [a.max_eq, ha.2, hb.2]
  by_cases h : p < q
  · rw [if_pos h, max_eq_right h.le]
    exact hb
  · rw [if_neg h, max_eq_left (not_lt.mp h)]
    exact ha

theorem min_denotes (ha : a.Denotes p) (hb : b.Denotes q) : (a.min b).Denotes (min p q) := by
  rw [a.min_eq, ha.2, hb.2]
  by_cases h : q < p
  · rw [if_pos h, min_eq_right h.le]
    exact hb
  · rw [if_neg h, min_eq_left (not_lt.mp h)]
    exact ha

end

end Reckoner
