import Reckoner.Proofs.SizeOrder

namespace Reckoner

section
variable {num den num' den' : ℕ}

/-- A quotient is less than the power of ten at its point, and not less than the one before. -/
theorem pointPlace_bounds (hnum : 0 < num) (hden : 0 < den) :
    (10 : ℚ) ^ (pointPlace num den - 1) ≤ num / den ∧
      (num / den : ℚ) < 10 ^ pointPlace num den := by
  have hden' : (0 : ℚ) < den := by exact_mod_cast hden
  unfold pointPlace
  split
  next hle =>
    have hlow := tenTo_le_of_digitCount (Nat.div_pos hle hden)
    have hhigh := lt_tenTo_digitCount (num / den)
    obtain ⟨k, hk⟩ : ∃ k, digitCount (num / den) = k + 1 :=
      ⟨_, (Nat.succ_pred (digitCount_pos _).ne').symm⟩
    rw [hk, Nat.add_sub_cancel, Nat.le_div_iff_mul_le hden] at hlow
    rw [hk, Nat.div_lt_iff_lt_mul hden] at hhigh
    have hexp : ((k + 1 : ℕ) : ℤ) - 1 = (k : ℕ) := by push_cast; ring
    rw [hk, hexp, zpow_natCast, zpow_natCast, ← tenTo_cast, ← tenTo_cast, le_div_iff₀ hden',
      div_lt_iff₀ hden']
    exact ⟨by exact_mod_cast hlow, by exact_mod_cast hhigh⟩
  next hlt =>
    -- The places before the first digit are the digits of the inverse; with `den - 1` the inverse
    -- of a power of ten has one digit less than the power.
    have hlow := tenTo_le_of_digitCount (Nat.div_pos (by omega : num ≤ den - 1) hnum)
    have hhigh := lt_tenTo_digitCount ((den - 1) / num)
    obtain ⟨k, hk⟩ : ∃ k, digitCount ((den - 1) / num) = k + 1 :=
      ⟨_, (Nat.succ_pred (digitCount_pos _).ne').symm⟩
    rw [hk, Nat.add_sub_cancel, Nat.le_div_iff_mul_le hnum] at hlow
    rw [hk, Nat.div_lt_iff_lt_mul hnum] at hhigh
    have hlow' : tenTo k * num < den := by omega
    have hhigh' : den ≤ tenTo (k + 1) * num := by omega
    have hexp : 1 - ((k + 1 : ℕ) : ℤ) = -(k : ℕ) := by push_cast; ring
    have hexp' : -((k : ℕ) : ℤ) - 1 = -((k + 1 : ℕ) : ℤ) := by push_cast; ring
    rw [hk, hexp, hexp', zpow_neg, zpow_neg, zpow_natCast, zpow_natCast, ← tenTo_cast,
      ← tenTo_cast, le_div_iff₀ hden', div_lt_iff₀ hden']
    have hpos : (0 : ℚ) < tenTo k := by exact_mod_cast tenTo_pos k
    have hpos' : (0 : ℚ) < tenTo (k + 1) := by exact_mod_cast tenTo_pos (k + 1)
    constructor
    · rw [inv_mul_le_iff₀ hpos']
      exact_mod_cast hhigh'
    · rw [lt_inv_mul_iff₀ hpos]
      exact_mod_cast hlow'

theorem roundHalfEven_bounds (num : ℕ) (hden : 0 < den) :
    2 * (den * roundHalfEven num den) ≤ 2 * num + den ∧
      2 * num ≤ 2 * (den * roundHalfEven num den) + den := by
  have hsplit := Nat.div_add_mod num den
  have hrest := Nat.mod_lt num hden
  have hnext : den * (num / den + 1) = den * (num / den) + den := Nat.mul_succ _ _
  unfold roundHalfEven
  simp only
  split
  · omega
  split
  · rw [hnext]
    omega
  split
  · omega
  · rw [hnext]
    omega

theorem roundHalfEven_mul {k : ℕ} (hk : 0 < k) (num den : ℕ) :
    roundHalfEven (k * num) (k * den) = roundHalfEven num den := by
  have htwice : 2 * (k * (num % den)) = k * (2 * (num % den)) := Nat.mul_left_comm _ _ _
  unfold roundHalfEven
  rw [Nat.mul_div_mul_left _ _ hk, Nat.mul_mod_mul_left, htwice]
  simp only [Nat.mul_lt_mul_left hk]

/-- Rounding depends on the quotient only. -/
theorem roundHalfEven_congr (hden : 0 < den) (hden' : 0 < den')
    (h : num * den' = num' * den) : roundHalfEven num den = roundHalfEven num' den' := by
  have hnum : den' * num = den * num' := by
    rw [mul_comm den' num, h, mul_comm num' den]
  rw [← roundHalfEven_mul hden' num den, ← roundHalfEven_mul hden num' den', hnum,
    mul_comm den' den]

end

/-- The natural number nearest to the size of a fraction; a half goes to the even one. -/
def halfEven (q : ℚ) : ℕ :=
  roundHalfEven q.num.natAbs q.den

section
variable {q : ℚ} {n : ℕ}

theorem roundHalfEven_eq {den : ℕ} (num : ℕ) (hden : 0 < den) :
    roundHalfEven num den = halfEven (num / den) := by
  have hden' : (den : ℚ) ≠ 0 := by exact_mod_cast hden.ne'
  have hnonneg : (0 : ℚ) ≤ num / den := by positivity
  have hsize := abs_eq_natAbs_div (num / den : ℚ)
  have hne : (((num / den : ℚ).den : ℕ) : ℚ) ≠ 0 := by exact_mod_cast (num / den : ℚ).den_pos.ne'
  rw [abs_of_nonneg hnonneg, div_eq_div_iff hden' hne] at hsize
  exact roundHalfEven_congr hden (num / den : ℚ).den_pos (by exact_mod_cast hsize)

@[simp] theorem halfEven_natCast (n : ℕ) : halfEven n = n := by
  simp [halfEven, roundHalfEven, Nat.mod_one]

theorem halfEven_near (hq : 0 ≤ q) : |(halfEven q : ℚ) - q| ≤ 1 / 2 := by
  have hden : (0 : ℚ) < q.den := by exact_mod_cast q.den_pos
  have hsize := abs_eq_natAbs_div q
  rw [abs_of_nonneg hq, eq_div_iff hden.ne'] at hsize
  obtain ⟨hhigh, hlow⟩ := roundHalfEven_bounds q.num.natAbs q.den_pos
  have hhigh' : 2 * ((q.den : ℚ) * halfEven q) ≤ 2 * q.num.natAbs + q.den := by
    exact_mod_cast hhigh
  have hlow' : 2 * (q.num.natAbs : ℚ) ≤ 2 * (q.den * halfEven q) + q.den := by
    exact_mod_cast hlow
  rw [← hsize] at hhigh' hlow'
  rw [abs_le]
  constructor
  · have hscaled : (q.den : ℚ) * q ≤ q.den * (halfEven q + 1 / 2) := by linarith
    have := le_of_mul_le_mul_left hscaled hden
    linarith
  · have hscaled : (q.den : ℚ) * halfEven q ≤ q.den * (q + 1 / 2) := by linarith
    have := le_of_mul_le_mul_left hscaled hden
    linarith

theorem le_halfEven (h : (n : ℚ) ≤ q) : n ≤ halfEven q := by
  have hq : 0 ≤ q := (Nat.cast_nonneg n).trans h
  have hnear := (abs_le.mp (halfEven_near hq)).1
  have hlt : (n : ℚ) < halfEven q + 1 := by linarith
  have : n < halfEven q + 1 := by exact_mod_cast hlt
  omega

theorem halfEven_le (hq : 0 ≤ q) (h : q ≤ n) : halfEven q ≤ n := by
  have hnear := (abs_le.mp (halfEven_near hq)).2
  have hlt : (halfEven q : ℚ) < n + 1 := by linarith
  have : halfEven q < n + 1 := by exact_mod_cast hlt
  omega

theorem lt_halfEven_iff (hq : 0 ≤ q) (hodd : n % 2 = 1) : n < halfEven q ↔ n + 1 / 2 ≤ q := by
  have hden : (0 : ℚ) < q.den := by exact_mod_cast q.den_pos
  have hsize := abs_eq_natAbs_div q
  rw [abs_of_nonneg hq, eq_div_iff hden.ne'] at hsize
  have hcast : (2 * n + 1) * q.den ≤ 2 * q.num.natAbs ↔
      (q.den : ℚ) * (n + 1 / 2) ≤ q.den * q := by
    rw [mul_comm (q.den : ℚ) q, hsize, ← Nat.cast_le (α := ℚ)]
    push_cast
    constructor
    · intro h
      linarith
    · intro h
      linarith
  rw [halfEven, lt_roundHalfEven_iff q.den_pos hodd, hcast, mul_le_mul_iff_right₀ hden]

end

/-- The place of the point in the digits of a fraction, whose size is less than this power of
ten. -/
def place (r : ℚ) : ℤ :=
  pointPlace r.num.natAbs r.den

section
variable {r : ℚ} {k : ℤ}

theorem place_bounds (hr : r ≠ 0) : (10 : ℚ) ^ (place r - 1) ≤ |r| ∧ |r| < 10 ^ place r := by
  have hnum : 0 < r.num.natAbs := Int.natAbs_pos.mpr (Rat.num_ne_zero.mpr hr)
  rw [abs_eq_natAbs_div]
  exact pointPlace_bounds hnum r.den_pos

theorem place_le_iff (hr : r ≠ 0) : place r ≤ k ↔ |r| < 10 ^ k := by
  obtain ⟨hlow, hhigh⟩ := place_bounds hr
  constructor
  · intro h
    exact hhigh.trans_le (zpow_le_zpow_right₀ (by norm_num) h)
  · intro h
    have hlt : (10 : ℚ) ^ (place r - 1) < 10 ^ k := hlow.trans_lt h
    have := (zpow_lt_zpow_iff_right₀ (by norm_num : (1 : ℚ) < 10)).mp hlt
    omega

theorem lt_place_iff (hr : r ≠ 0) : k < place r ↔ 10 ^ k ≤ |r| := by
  rw [← not_le, place_le_iff hr, not_lt]

theorem toRat_ne_zero {d : Decimal} (h : 0 < d.coefficient) : d.toRat ≠ 0 := by
  rw [← abs_pos, Decimal.abs_toRat]
  exact (zpow_pos (by norm_num) _).trans_le (Decimal.magnitude_bounds h).1

theorem place_toRat {d : Decimal} (h : 0 < d.coefficient) :
    place d.toRat = d.leadingPlace + 1 := by
  obtain ⟨hlow, hhigh⟩ := Decimal.magnitude_bounds h
  rw [← Decimal.abs_toRat] at hlow hhigh
  have hle := (place_le_iff (toRat_ne_zero h)).mpr hhigh
  have hlt := (lt_place_iff (toRat_ne_zero h)).mpr hlow
  omega

end

namespace DecimalContext

/-- A context with room for a digit. -/
structure Sound (c : DecimalContext) : Prop where
  precision : 0 < c.precision
  places : c.lowest ≤ c.highest

theorem exactContext_sound : exactContext.Sound :=
  ⟨by decide, by decide⟩

theorem quotientContext_sound {precision : ℕ} (h : 0 < precision) :
    (quotientContext precision).Sound :=
  ⟨h, show (-999999 : ℤ) ≤ 999999 by decide⟩

/-- The number has no more digits than the precision allows, and none below the least exponent. -/
def Holds (c : DecimalContext) (r : ℚ) : Prop :=
  ∃ (n : ℤ) (e : ℤ), n.natAbs < tenTo c.precision ∧ c.leastExponent ≤ e ∧ r = n * 10 ^ e

/-- Half a unit beyond the largest number; from there on numbers are too large. -/
def limit (c : DecimalContext) : ℚ :=
  10 ^ (c.highest + 1) - 10 ^ (c.highest + 1 - c.precision) / 2

/-- A number that the context has: its digits are held, and it is not too large. -/
def Fits (c : DecimalContext) (r : ℚ) : Prop :=
  c.Holds r ∧ |r| < c.limit

/-- The place of the last digit that a number keeps. -/
def lastPlace (c : DecimalContext) (r : ℚ) : ℤ :=
  c.exponentAt (place r)

/-- The size of a rounded number. -/
def roundedSize (c : DecimalContext) (r : ℚ) : ℚ :=
  halfEven (|r| / 10 ^ c.lastPlace r) * 10 ^ c.lastPlace r

def rounded (c : DecimalContext) (r : ℚ) : ℚ :=
  if r < 0 then -c.roundedSize r else c.roundedSize r

section
variable {c : DecimalContext} {r : ℚ} {d : Decimal}

theorem place_le_lastPlace (c : DecimalContext) (r : ℚ) :
    place r ≤ c.lastPlace r + c.precision := by
  have hle : place r - c.precision ≤ c.lastPlace r := le_max_left _ _
  omega

theorem leastExponent_le_lastPlace (c : DecimalContext) (r : ℚ) :
    c.leastExponent ≤ c.lastPlace r :=
  le_max_right _ _

theorem lastPlace_le {k : ℤ} (hplace : place r ≤ k + c.precision) (hleast : c.leastExponent ≤ k) :
    c.lastPlace r ≤ k := by
  have hle : place r - c.precision ≤ k := by omega
  exact max_le hle hleast

/-- Counted in its last place, a number has no more digits than the precision allows. -/
theorem scaled_lt (c : DecimalContext) (r : ℚ) :
    |r| / 10 ^ c.lastPlace r < (tenTo c.precision : ℕ) := by
  have hunit : (0 : ℚ) < 10 ^ c.lastPlace r := zpow_pos (by norm_num) _
  rw [div_lt_iff₀ hunit, tenTo_cast, ← zpow_natCast, ← zpow_add₀ (by norm_num)]
  by_cases hr : r = 0
  · rw [hr, abs_zero]
    exact zpow_pos (by norm_num) _
  · rw [← place_le_iff hr]
    have := c.place_le_lastPlace r
    omega

theorem scaled_nonneg (c : DecimalContext) (r : ℚ) : 0 ≤ |r| / 10 ^ c.lastPlace r := by
  positivity

theorem halfEven_scaled_le (c : DecimalContext) (r : ℚ) :
    halfEven (|r| / 10 ^ c.lastPlace r) ≤ tenTo c.precision :=
  halfEven_le (c.scaled_nonneg r) (c.scaled_lt r).le

theorem roundedSize_nonneg (c : DecimalContext) (r : ℚ) : 0 ≤ c.roundedSize r := by
  unfold roundedSize
  positivity

theorem roundedSize_near (c : DecimalContext) (r : ℚ) :
    |c.roundedSize r - abs r| ≤ 10 ^ c.lastPlace r / 2 := by
  have hunit : (0 : ℚ) < 10 ^ c.lastPlace r := zpow_pos (by norm_num) _
  have hnear := halfEven_near (c.scaled_nonneg r)
  have hsplit : c.roundedSize r - |r| =
      (halfEven (|r| / 10 ^ c.lastPlace r) - |r| / 10 ^ c.lastPlace r) * 10 ^ c.lastPlace r := by
    rw [sub_mul, div_mul_cancel₀ _ hunit.ne', roundedSize]
  rw [hsplit, abs_mul, abs_of_pos hunit]
  have := mul_le_mul_of_nonneg_right hnear hunit.le
  linarith

@[simp] theorem roundedSize_zero (c : DecimalContext) : c.roundedSize 0 = 0 := by
  have hzero : halfEven 0 = 0 := by exact_mod_cast halfEven_natCast 0
  rw [roundedSize, abs_zero, zero_div, hzero, Nat.cast_zero, zero_mul]

/-- A rounded number is off by at most half a unit of its last place. -/
theorem rounded_near (c : DecimalContext) (r : ℚ) :
    |c.rounded r - r| ≤ 10 ^ c.lastPlace r / 2 := by
  have hnear := c.roundedSize_near r
  unfold rounded
  by_cases hneg : r < 0
  · rw [abs_of_neg hneg] at hnear
    rw [if_pos hneg, ← abs_neg]
    have hflip : -(-c.roundedSize r - r) = c.roundedSize r - -r := by ring
    rwa [hflip]
  · rw [abs_of_nonneg (not_lt.mp hneg)] at hnear
    rwa [if_neg hneg]

/-- What is a multiple of the unit of its last place is not changed. -/
theorem roundedSize_of_multiple {n : ℕ} (h : |r| = n * 10 ^ c.lastPlace r) :
    c.roundedSize r = |r| := by
  have hunit : (10 : ℚ) ^ c.lastPlace r ≠ 0 := zpow_ne_zero _ (by norm_num)
  rw [roundedSize, h, mul_div_cancel_right₀ _ hunit, halfEven_natCast]

theorem rounded_of_multiple {n : ℕ} (h : |r| = n * 10 ^ c.lastPlace r) : c.rounded r = r := by
  rw [rounded, roundedSize_of_multiple h]
  by_cases hneg : r < 0
  · rw [if_pos hneg, abs_of_neg hneg, neg_neg]
  · rw [if_neg hneg, abs_of_nonneg (not_lt.mp hneg)]

@[simp] theorem rounded_zero (c : DecimalContext) : c.rounded 0 = 0 :=
  rounded_of_multiple (n := 0) (by simp)

theorem Holds.rounded (h : c.Holds r) : c.rounded r = r := by
  obtain ⟨n, e, hn, he, rfl⟩ := h
  by_cases hzero : (n : ℚ) * 10 ^ e = 0
  · rw [hzero, c.rounded_zero]
  have hunit : (0 : ℚ) < 10 ^ e := zpow_pos (by norm_num) _
  have hsize : |(n : ℚ) * 10 ^ e| = n.natAbs * 10 ^ e := by
    rw [abs_mul, abs_of_pos hunit, Nat.cast_natAbs, Int.cast_abs]
  have hplace : place (n * 10 ^ e) ≤ e + c.precision := by
    rw [place_le_iff hzero, hsize, add_comm, zpow_add₀ (by norm_num), zpow_natCast, ← tenTo_cast]
    exact mul_lt_mul_of_pos_right (by exact_mod_cast hn) hunit
  have hlast := lastPlace_le hplace he
  generalize hl : c.lastPlace (n * 10 ^ e) = l at hlast
  obtain ⟨k, rfl⟩ : ∃ k : ℕ, e = k + l := ⟨(e - l).toNat, by omega⟩
  refine rounded_of_multiple (n := n.natAbs * 10 ^ k) ?_
  rw [hsize, hl, zpow_add₀ (by norm_num), zpow_natCast]
  push_cast
  ring

/-- A rounded number is one that the context has. -/
theorem holds_rounded (hc : c.Sound) (r : ℚ) : c.Holds (c.rounded r) := by
  have hle := c.halfEven_scaled_le r
  have hleast := c.leastExponent_le_lastPlace r
  obtain ⟨k, hk⟩ : ∃ k, c.precision = k + 1 := ⟨_, (Nat.succ_pred hc.precision.ne').symm⟩
  have hgrows : tenTo k < tenTo c.precision := by
    have := tenTo_pos k
    rw [hk, tenTo_succ]
    omega
  have hsize : c.Holds (c.roundedSize r) := by
    obtain hlt | heq := Nat.lt_or_eq_of_le hle
    · exact ⟨(halfEven (|r| / 10 ^ c.lastPlace r) : ℕ), c.lastPlace r, hlt, hleast, rfl⟩
    · refine ⟨(tenTo k : ℕ), c.lastPlace r + 1, hgrows, by omega, ?_⟩
      rw [roundedSize, heq, hk, tenTo_succ, zpow_add₀ (by norm_num)]
      push_cast
      ring
  unfold DecimalContext.rounded
  split
  · obtain ⟨n, e, hn, he, heq⟩ := hsize
    refine ⟨-n, e, by rwa [Int.natAbs_neg], he, ?_⟩
    rw [heq]
    push_cast
    ring
  · exact hsize

theorem rounded_eq_iff (hc : c.Sound) : c.rounded r = r ↔ c.Holds r :=
  ⟨fun h => h ▸ holds_rounded hc r, Holds.rounded⟩

theorem limit_eq (c : DecimalContext) :
    c.limit = (tenTo c.precision - 1 / 2) * 10 ^ (c.highest + 1 - c.precision) := by
  have hsplit : c.highest + 1 = c.precision + (c.highest + 1 - c.precision) := by ring
  rw [limit, sub_mul, tenTo_cast, ← zpow_natCast, ← zpow_add₀ (by norm_num), ← hsplit]
  ring

/-- Half a unit beyond the largest number is less than one place above it. -/
theorem limit_bounds (hc : c.Sound) :
    (10 : ℚ) ^ c.highest < c.limit ∧ c.limit < 10 ^ (c.highest + 1) := by
  have hunit : (0 : ℚ) < 10 ^ (c.highest + 1 - c.precision) := zpow_pos (by norm_num) _
  have hprecision := hc.precision
  have hle : (10 : ℚ) ^ (c.highest + 1 - c.precision) ≤ 10 ^ c.highest :=
    zpow_le_zpow_right₀ (by norm_num) (by omega)
  have hten : (10 : ℚ) ^ (c.highest + 1) = 10 * 10 ^ c.highest := by
    rw [zpow_add₀ (by norm_num), zpow_one, mul_comm]
  unfold limit
  constructor
  · rw [hten]
    linarith
  · linarith

section
variable {k : ℤ}

theorem scaled_tenPow (hk : c.lastPlace r ≤ k) :
    (10 : ℚ) ^ k = (tenTo (k - c.lastPlace r).toNat : ℕ) * 10 ^ c.lastPlace r := by
  have hsplit : k = ((k - c.lastPlace r).toNat : ℤ) + c.lastPlace r := by omega
  rw [tenTo_cast, ← zpow_natCast, ← zpow_add₀ (by norm_num), ← hsplit]

/-- Rounding does not bring a number below a power of ten. -/
theorem tenPow_le_roundedSize (hk : c.lastPlace r ≤ k) (h : 10 ^ k ≤ |r|) :
    10 ^ k ≤ c.roundedSize r := by
  have hunit : (0 : ℚ) < 10 ^ c.lastPlace r := zpow_pos (by norm_num) _
  rw [scaled_tenPow hk] at h ⊢
  have hle := le_halfEven ((le_div_iff₀ hunit).mpr h)
  exact mul_le_mul_of_nonneg_right (by exact_mod_cast hle) hunit.le

theorem roundedSize_le_tenPow (hk : c.lastPlace r ≤ k) (h : |r| ≤ 10 ^ k) :
    c.roundedSize r ≤ 10 ^ k := by
  have hunit : (0 : ℚ) < 10 ^ c.lastPlace r := zpow_pos (by norm_num) _
  rw [scaled_tenPow hk] at h ⊢
  have hle := halfEven_le (c.scaled_nonneg r) ((div_le_iff₀ hunit).mpr h)
  exact mul_le_mul_of_nonneg_right (by exact_mod_cast hle) hunit.le

end

theorem leastExponent_le (hc : c.Sound) : c.leastExponent ≤ c.highest + 1 - c.precision := by
  have := hc.places
  unfold leastExponent
  omega

/-- With a first digit at the highest place, numbers from half a unit beyond the largest one on are
rounded up: the coefficient of the largest number is odd. -/
theorem limit_le_iff_of_place (hc : c.Sound) (hplace : place r = c.highest + 1) :
    c.limit ≤ |r| ↔ 10 ^ (c.highest + 1) ≤ c.roundedSize r := by
  have hlast : c.lastPlace r = c.highest + 1 - c.precision := by
    rw [lastPlace, exponentAt, hplace]
    exact max_eq_left (leastExponent_le hc)
  have hunit : (0 : ℚ) < 10 ^ c.lastPlace r := zpow_pos (by norm_num) _
  obtain ⟨k, hk⟩ : ∃ k, c.precision = k + 1 := ⟨_, (Nat.succ_pred hc.precision.ne').symm⟩
  have hten : tenTo c.precision = tenTo k * 10 := by rw [hk, tenTo_succ]
  have hpos := tenTo_pos k
  obtain ⟨n, hn⟩ : ∃ n, tenTo c.precision = n + 1 := ⟨_, (Nat.succ_pred (tenTo_pos _).ne').symm⟩
  have hodd : n % 2 = 1 := by omega
  have hhalf : (tenTo c.precision : ℚ) - 1 / 2 = n + 1 / 2 := by
    rw [hn]
    push_cast
    ring
  have hhigh : c.lastPlace r ≤ c.highest + 1 := by omega
  have hshift : (c.highest + 1 - c.lastPlace r).toNat = c.precision := by omega
  rw [limit_eq, ← hlast, hhalf, ← le_div_iff₀ hunit, ← lt_halfEven_iff (c.scaled_nonneg r) hodd,
    scaled_tenPow hhigh, hshift, roundedSize, mul_le_mul_iff_left₀ hunit, Nat.cast_le, hn]
  exact Nat.lt_iff_add_one_le

/-- A number is too large from the limit on: there it is rounded to one with a digit above the
highest place. -/
theorem limit_le_iff (hc : c.Sound) (r : ℚ) :
    c.limit ≤ |r| ↔ 10 ^ (c.highest + 1) ≤ c.roundedSize r := by
  obtain ⟨hlow, hhigh⟩ := limit_bounds hc
  have hleast := leastExponent_le hc
  have hprecision := hc.precision
  by_cases hr : r = 0
  · have hpos : (0 : ℚ) < 10 ^ c.highest := zpow_pos (by norm_num) _
    have hsize : c.roundedSize r = 0 := by rw [hr, c.roundedSize_zero]
    rw [hsize, hr, abs_zero]
    exact iff_of_false (not_le.mpr (hpos.trans hlow)) (not_le.mpr (zpow_pos (by norm_num) _))
  rcases lt_trichotomy (place r) (c.highest + 1) with hplace | hplace | hplace
  · have hsmall : |r| < 10 ^ c.highest := (place_le_iff hr).mp (by omega)
    have hlast : c.lastPlace r ≤ c.highest := lastPlace_le (by omega) (by omega)
    have hsize := roundedSize_le_tenPow hlast hsmall.le
    exact iff_of_false (not_le.mpr (hsmall.trans hlow))
      (not_le.mpr (hsize.trans_lt (hlow.trans hhigh)))
  · exact limit_le_iff_of_place hc hplace
  · have hlarge : 10 ^ (c.highest + 1) ≤ |r| := (lt_place_iff hr).mp hplace
    have hbelow : (10 : ℚ) ^ (place r - 1) ≤ |r| := (place_bounds hr).1
    have hlast : c.lastPlace r ≤ place r - 1 := lastPlace_le (by omega) (by omega)
    have hsize := tenPow_le_roundedSize hlast hbelow
    have hpower : (10 : ℚ) ^ (c.highest + 1) ≤ 10 ^ (place r - 1) :=
      zpow_le_zpow_right₀ (by norm_num) (by omega)
    exact iff_of_true (hhigh.le.trans hlarge) (hpower.trans hsize)

@[simp] theorem abs_rounded (c : DecimalContext) (r : ℚ) : |c.rounded r| = c.roundedSize r := by
  have hsize := c.roundedSize_nonneg r
  unfold DecimalContext.rounded
  split
  · rw [abs_neg, abs_of_nonneg hsize]
  · exact abs_of_nonneg hsize

theorem Holds.fits (hc : c.Sound) (h : c.Holds r) (hless : |r| < 10 ^ (c.highest + 1)) :
    c.Fits r := by
  refine ⟨h, not_le.mp fun hlimit => ?_⟩
  have hsize := (limit_le_iff hc r).mp hlimit
  rw [← abs_rounded, h.rounded] at hsize
  exact absurd hless (not_lt.mpr hsize)

theorem fits_toRat (hc : c.Sound) (hdigits : digitCount d.coefficient ≤ c.precision)
    (hleast : c.leastExponent ≤ d.exponent) (hplace : d.leadingPlace ≤ c.highest) :
    c.Fits d.toRat := by
  have hnatAbs : d.signed.natAbs = d.coefficient := by
    unfold Decimal.signed
    split
    · exact Int.natAbs_neg d.coefficient
    · exact Int.natAbs_natCast d.coefficient
  have hcoefficient : d.coefficient < tenTo c.precision :=
    (digitCount_le_iff hc.precision).mp hdigits
  refine Holds.fits hc ⟨d.signed, d.exponent, hnatAbs ▸ hcoefficient, hleast, d.toRat_eq⟩ ?_
  rw [Decimal.abs_toRat]
  by_cases hzero : d.coefficient = 0
  · rw [Decimal.magnitude, hzero, Nat.cast_zero, zero_mul]
    exact zpow_pos (by norm_num) _
  · have hbelow := (Decimal.magnitude_bounds (Nat.pos_of_ne_zero hzero)).2
    exact hbelow.trans_le (zpow_le_zpow_right₀ (by norm_num) (by omega))

section
variable {x : Decimal}

theorem shorten_of_carry (hc : c.Sound) (hx : x.coefficient ≤ tenTo c.precision)
    (hcarry : c.precision < digitCount x.coefficient) :
    ∃ k, c.precision = k + 1 ∧ x.coefficient = tenTo (k + 1) ∧
      c.shorten x = ⟨x.negative, tenTo k, x.exponent + 1⟩ := by
  obtain ⟨k, hk⟩ : ∃ k, c.precision = k + 1 := ⟨_, (Nat.succ_pred hc.precision.ne').symm⟩
  have hlow : ¬ digitCount x.coefficient ≤ c.precision := by omega
  rw [digitCount_le_iff hc.precision, not_lt] at hlow
  have heq : x.coefficient = tenTo (k + 1) := by
    rw [← hk]
    exact le_antisymm hx hlow
  refine ⟨k, hk, heq, ?_⟩
  rw [shorten, if_pos hcarry, heq, tenTo_succ, Nat.mul_div_cancel _ (by decide)]

theorem shorten_magnitude (hc : c.Sound) (hx : x.coefficient ≤ tenTo c.precision) :
    (c.shorten x).magnitude = x.magnitude := by
  by_cases hcarry : c.precision < digitCount x.coefficient
  · obtain ⟨k, _, hcoefficient, hshort⟩ := shorten_of_carry hc hx hcarry
    rw [hshort, Decimal.magnitude, Decimal.magnitude, hcoefficient, tenTo_succ,
      zpow_add₀ (by norm_num)]
    push_cast
    ring
  · rw [shorten, if_neg hcarry]

@[simp] theorem shorten_negative (c : DecimalContext) (x : Decimal) :
    (c.shorten x).negative = x.negative := by
  unfold shorten
  split <;> rfl

theorem highest_lt_iff (hx : 0 < x.coefficient) :
    c.highest < x.leadingPlace ↔ 10 ^ (c.highest + 1) ≤ x.magnitude := by
  rw [← Decimal.abs_toRat, ← lt_place_iff (toRat_ne_zero hx), place_toRat hx]
  omega

theorem settle_eq (hc : c.Sound) (hx : x.coefficient ≤ tenTo c.precision) :
    c.settle x = if 10 ^ (c.highest + 1) ≤ x.magnitude then none else some (c.shorten x) := by
  unfold settle
  rw [← shorten_magnitude hc hx]
  generalize c.shorten x = y
  by_cases hzero : y.coefficient = 0
  · have hsmall : ¬ (10 : ℚ) ^ (c.highest + 1) ≤ y.magnitude := by
      rw [Decimal.magnitude, hzero, Nat.cast_zero, zero_mul, not_le]
      exact zpow_pos (by norm_num) _
    simp [Decimal.isZero, hzero, hsmall]
  · simp [Decimal.isZero, hzero, highest_lt_iff (Nat.pos_of_ne_zero hzero)]

end

/-- A decimal of the sign of a fraction and of the size that it is rounded to is settled to the
rounded number, unless the fraction is too large. -/
theorem settle_cases (hc : c.Sound) {x : Decimal} (hx : x.coefficient ≤ tenTo c.precision)
    (hsize : x.magnitude = c.roundedSize r) (hsign : x.negative = decide (r < 0)) :
    (c.settle x = none ∧ c.limit ≤ |r|) ∨
      (c.settle x = some (c.shorten x) ∧ |r| < c.limit ∧ (c.shorten x).toRat = c.rounded r) := by
  have hlimit := limit_le_iff hc r
  rw [settle_eq hc hx, hsize]
  by_cases hlarge : c.limit ≤ |r|
  · exact .inl ⟨if_pos (hlimit.mp hlarge), hlarge⟩
  · refine .inr ⟨if_neg (mt hlimit.mpr hlarge), not_le.mp hlarge, ?_⟩
    rw [Decimal.toRat_eq_magnitude, shorten_negative, shorten_magnitude hc hx, hsize, hsign,
      DecimalContext.rounded]
    simp only [decide_eq_true_eq]

/-- The decimal that a fraction is rounded to, before it is settled. -/
def roundedDecimal (c : DecimalContext) (r : ℚ) : Decimal :=
  ⟨decide (r < 0), halfEven (|r| / 10 ^ c.lastPlace r), c.lastPlace r⟩

theorem settle_roundedDecimal (hc : c.Sound) (r : ℚ) :
    (c.settle (c.roundedDecimal r) = none ∧ c.limit ≤ |r|) ∨
      (c.settle (c.roundedDecimal r) = some (c.shorten (c.roundedDecimal r)) ∧ |r| < c.limit ∧
        (c.shorten (c.roundedDecimal r)).toRat = c.rounded r) :=
  settle_cases hc (c.halfEven_scaled_le r) rfl rfl

theorem round_eq (c : DecimalContext) (r : ℚ) : c.round r = c.settle (c.roundedDecimal r) := by
  have hcoefficient : ∀ e : ℤ, roundHalfEven (r.num.natAbs * tenTo (-e).toNat)
      (r.den * tenTo e.toNat) = halfEven (|r| / 10 ^ e) := by
    intro e
    have hdown : (tenTo (-e).toNat : ℚ) ≠ 0 := by exact_mod_cast (tenTo_pos _).ne'
    have hup : (tenTo e.toNat : ℚ) ≠ 0 := by exact_mod_cast (tenTo_pos _).ne'
    have hden : (r.den : ℚ) ≠ 0 := by exact_mod_cast r.den_pos.ne'
    rw [roundHalfEven_eq _ (Nat.mul_pos r.den_pos (tenTo_pos _)), abs_eq_natAbs_div, tenPow_split]
    congr 1
    push_cast
    field_simp
  unfold DecimalContext.round
  simp only [hcoefficient]
  rfl

theorem exponent_le_shorten (c : DecimalContext) (x : Decimal) :
    x.exponent ≤ (c.shorten x).exponent := by
  unfold shorten
  split
  · show x.exponent ≤ x.exponent + 1
    omega
  · exact le_rfl

theorem round_cases (hc : c.Sound) (r : ℚ) :
    (c.round r = none ∧ c.limit ≤ |r|) ∨
      (c.round r = some (c.shorten (c.roundedDecimal r)) ∧ |r| < c.limit ∧
        (c.shorten (c.roundedDecimal r)).toRat = c.rounded r) := by
  rw [round_eq]
  exact settle_roundedDecimal hc r

theorem round_eq_none_iff (hc : c.Sound) : c.round r = none ↔ c.limit ≤ |r| := by
  obtain ⟨hround, hlarge⟩ | ⟨hround, hless, _⟩ := round_cases hc r
  · exact iff_of_true hround hlarge
  · rw [hround]
    exact iff_of_false (Option.some_ne_none _) (not_le.mpr hless)

theorem round_near (hc : c.Sound) (h : |r| < c.limit) :
    c.round r = some (c.shorten (c.roundedDecimal r)) ∧
      |(c.shorten (c.roundedDecimal r)).toRat - r| ≤
        10 ^ (c.shorten (c.roundedDecimal r)).exponent / 2 := by
  obtain ⟨_, hlarge⟩ | ⟨hround, _, hvalue⟩ := round_cases hc r
  · exact absurd hlarge (not_le.mpr h)
  · have hexponent := c.exponent_le_shorten (c.roundedDecimal r)
    have hunit : (10 : ℚ) ^ c.lastPlace r ≤ 10 ^ (c.shorten (c.roundedDecimal r)).exponent :=
      zpow_le_zpow_right₀ (by norm_num) hexponent
    have hnear := c.rounded_near r
    refine ⟨hround, ?_⟩
    rw [hvalue]
    linarith

/-- A number whose first digit is not below the lowest place is rounded to as many digits as the
precision says. -/
theorem digitCount_round (hc : c.Sound) (h : 10 ^ c.lowest ≤ |r|) :
    digitCount (c.shorten (c.roundedDecimal r)).coefficient = c.precision := by
  have hr : r ≠ 0 := by
    rw [← abs_pos]
    exact (zpow_pos (by norm_num) _).trans_le h
  have hplace := (lt_place_iff hr).mpr h
  have hlast : c.lastPlace r = place r - c.precision := by
    refine max_eq_left ?_
    unfold leastExponent
    omega
  have hle : (c.roundedDecimal r).coefficient ≤ tenTo c.precision := c.halfEven_scaled_le r
  obtain ⟨k, hk⟩ : ∃ k, c.precision = k + 1 := ⟨_, (Nat.succ_pred hc.precision.ne').symm⟩
  have hgrows : tenTo k < tenTo (k + 1) := by
    have := tenTo_pos k
    rw [tenTo_succ]
    omega
  by_cases hcarry : c.precision < digitCount (c.roundedDecimal r).coefficient
  · obtain ⟨l, hl, _, hshort⟩ := shorten_of_carry hc hle hcarry
    obtain rfl : l = k := by omega
    rw [hshort, hk]
    exact digitCount_eq (Nat.succ_pos l) le_rfl hgrows
  · have hunit : (0 : ℚ) < 10 ^ c.lastPlace r := zpow_pos (by norm_num) _
    have hfirst : ((tenTo k : ℕ) : ℚ) ≤ |r| / 10 ^ c.lastPlace r := by
      have hexponent : (k : ℤ) + c.lastPlace r = place r - 1 := by omega
      rw [le_div_iff₀ hunit, tenTo_cast, ← zpow_natCast, ← zpow_add₀ (by norm_num), hexponent]
      exact (place_bounds hr).1
    have hlow : tenTo k ≤ (c.roundedDecimal r).coefficient := le_halfEven hfirst
    have hhigh := not_lt.mp hcarry
    rw [digitCount_le_iff hc.precision, hk] at hhigh
    rw [shorten, if_neg hcarry, hk]
    exact digitCount_eq (Nat.succ_pos k) hlow hhigh

/-- A number whose first digit is below the lowest place keeps the digits down to the least
exponent. -/
theorem exponent_round (hc : c.Sound) (hr : r ≠ 0) (h : |r| < 10 ^ c.lowest) :
    (c.shorten (c.roundedDecimal r)).exponent = c.leastExponent := by
  have hplace := (place_le_iff hr).mpr h
  obtain ⟨k, hk⟩ : ∃ k, c.precision = k + 1 := ⟨_, (Nat.succ_pred hc.precision.ne').symm⟩
  have hleast : c.lowest = k + c.leastExponent := by
    unfold leastExponent
    omega
  have hlast : c.lastPlace r = c.leastExponent := by
    refine max_eq_right ?_
    omega
  have hunit : (0 : ℚ) < 10 ^ c.lastPlace r := zpow_pos (by norm_num) _
  have hscaled : |r| / 10 ^ c.lastPlace r ≤ (tenTo k : ℕ) := by
    rw [div_le_iff₀ hunit, tenTo_cast, ← zpow_natCast, ← zpow_add₀ (by norm_num), hlast, ← hleast]
    exact h.le
  have hcoefficient : (c.roundedDecimal r).coefficient ≤ tenTo k :=
    halfEven_le (c.scaled_nonneg r) hscaled
  have hfew : digitCount (c.roundedDecimal r).coefficient ≤ c.precision := by
    have := tenTo_pos k
    rw [digitCount_le_iff hc.precision, hk, tenTo_succ]
    omega
  rw [shorten, if_neg (not_lt.mpr hfew)]
  exact hlast

theorem negative_eq (hd : 0 < d.coefficient) : d.negative = decide (d.toRat < 0) := by
  have hpos : 0 < d.magnitude := (zpow_pos (by norm_num) _).trans_le (Decimal.magnitude_bounds hd).1
  rw [Decimal.toRat_eq_magnitude]
  cases d.negative with
  | true => simp [hpos]
  | false => simp [hpos.le]

/-- Rounding a decimal to a larger exponent is rounding its number. -/
theorem roundAt_coefficient {e : ℤ} (h : d.exponent < e) :
    (d.roundAt e).coefficient = halfEven (|d.toRat| / 10 ^ e) := by
  obtain ⟨k, hk⟩ : ∃ k : ℕ, e = k + d.exponent := ⟨(e - d.exponent).toNat, by omega⟩
  have hplaces : (e - d.exponent).toNat = k := by omega
  have hunit : (10 : ℚ) ^ d.exponent ≠ 0 := zpow_ne_zero _ (by norm_num)
  have hscaled : |d.toRat| / 10 ^ e = d.coefficient / (tenTo k : ℕ) := by
    rw [Decimal.abs_toRat, Decimal.magnitude, hk, zpow_add₀ (by norm_num), zpow_natCast, tenTo_cast,
      mul_div_mul_right _ _ hunit]
  rw [hscaled, ← roundHalfEven_eq _ (tenTo_pos k), Decimal.roundAt, hplaces]
  by_cases hfew : digitCount d.coefficient < k
  · have hlt := lt_tenTo_digitCount d.coefficient
    have hle : tenTo (digitCount d.coefficient + 1) ≤ tenTo k := Nat.pow_le_pow_right (by decide) hfew
    rw [tenTo_succ] at hle
    rw [if_pos hfew, eq_comm, roundHalfEven_eq_zero (tenTo_pos k)]
    omega
  · rw [if_neg hfew]

theorem fit_of_zero (hc : c.Sound) (hzero : d.coefficient = 0) :
    ∃ e, c.fit d = some e ∧ |d.toRat| < c.limit ∧ e.toRat = c.rounded d.toRat := by
  have hnumber : ∀ e : ℤ, (Decimal.mk d.negative 0 e).toRat = 0 := by
    intro e
    rw [← abs_eq_zero, Decimal.abs_toRat, Decimal.magnitude, Nat.cast_zero, zero_mul]
  have hd : d.toRat = 0 := by
    have := hnumber d.exponent
    rwa [← hzero] at this
  have hpos : 0 < c.limit := (zpow_pos (by norm_num) _).trans (limit_bounds hc).1
  refine ⟨_, if_pos (decide_eq_true hzero), ?_, ?_⟩
  · rwa [hd, abs_zero]
  · rw [hd, c.rounded_zero]
    simpa [hzero] using hnumber _

theorem fit_of_pos (hpos : 0 < d.coefficient) :
    c.fit d = c.settle (if c.lastPlace d.toRat ≤ d.exponent then d
      else d.roundAt (c.lastPlace d.toRat)) := by
  have hlast : c.exponentAt (d.leadingPlace + 1) = c.lastPlace d.toRat := by
    rw [lastPlace, place_toRat hpos]
  have hzero : ¬ d.isZero = true := by simpa [Decimal.isZero] using hpos.ne'
  rw [fit, if_neg hzero, hlast]

/-- A decimal that has no digit to lose is its own rounded number. -/
theorem settle_kept (hc : c.Sound) (hpos : 0 < d.coefficient)
    (hkept : c.lastPlace d.toRat ≤ d.exponent) :
    (c.settle d = none ∧ c.limit ≤ |d.toRat|) ∨
      (c.settle d = some (c.shorten d) ∧ |d.toRat| < c.limit ∧
        (c.shorten d).toRat = c.rounded d.toRat) := by
  have hsize : c.roundedSize d.toRat = d.magnitude := by
    rw [← Decimal.abs_toRat]
    refine roundedSize_of_multiple
      (n := d.coefficient * tenTo (d.exponent - c.lastPlace d.toRat).toNat) ?_
    rw [Decimal.abs_toRat, d.magnitude_eq_scaled (c.lastPlace d.toRat), min_eq_right hkept]
  have hdigits : d.coefficient ≤ tenTo c.precision := by
    have hplace := c.place_le_lastPlace d.toRat
    rw [place_toRat hpos, Decimal.leadingPlace] at hplace
    exact ((digitCount_le_iff hc.precision).mp (by omega)).le
  exact settle_cases hc hdigits hsize.symm (negative_eq hpos)

theorem roundAt_eq (hpos : 0 < d.coefficient) (h : d.exponent < c.lastPlace d.toRat) :
    d.roundAt (c.lastPlace d.toRat) = c.roundedDecimal d.toRat := by
  have hcoefficient := roundAt_coefficient h
  rw [roundedDecimal, ← hcoefficient, ← negative_eq hpos]
  rfl

/-- A decimal is fitted to the rounded number, unless it is too large. -/
theorem fit_cases (hc : c.Sound) (d : Decimal) :
    (c.fit d = none ∧ c.limit ≤ |d.toRat|) ∨
      ∃ e, c.fit d = some e ∧ |d.toRat| < c.limit ∧ e.toRat = c.rounded d.toRat := by
  by_cases hzero : d.coefficient = 0
  · exact .inr (fit_of_zero hc hzero)
  have hpos : 0 < d.coefficient := Nat.pos_of_ne_zero hzero
  rw [fit_of_pos hpos]
  by_cases hkept : c.lastPlace d.toRat ≤ d.exponent
  · rw [if_pos hkept]
    obtain hnone | hsome := settle_kept hc hpos hkept
    · exact .inl hnone
    · exact .inr ⟨_, hsome⟩
  · rw [if_neg hkept, roundAt_eq hpos (not_le.mp hkept)]
    obtain hnone | hsome := settle_roundedDecimal hc d.toRat
    · exact .inl hnone
    · exact .inr ⟨_, hsome⟩

end

end DecimalContext

end Reckoner
