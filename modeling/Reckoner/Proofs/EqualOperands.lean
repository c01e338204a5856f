import Reckoner.Proofs.Faults

namespace Reckoner

/-- Errors are told apart by their classes, not by the numbers they mention. -/
def NumericError.SameClass : NumericError → NumericError → Prop
  | .domain _, .domain _ => True
  | .range _, .range _ => True
  | .fault f, .fault g => f = g
  | _, _ => False

/-- Results of equal size, or errors of one class. -/
def Agree : Except NumericError Number → Except NumericError Number → Prop
  | .ok x, .ok y => x.sameSize y = true
  | .error e, .error f => e.SameClass f
  | _, _ => False

theorem NumericError.SameClass.refl (e : NumericError) : e.SameClass e := by
  cases e with
  | domain d => trivial
  | range r => trivial
  | fault f => rfl

theorem Agree.refl (result : Except NumericError Number) : Agree result result := by
  cases result with
  | ok x => exact decide_eq_true rfl
  | error e => exact NumericError.SameClass.refl e

theorem NumericError.SameClass.symm {e f : NumericError} (h : e.SameClass f) : f.SameClass e := by
  match e, f, h with
  | .domain _, .domain _, _ => trivial
  | .range _, .range _, _ => trivial
  | .fault _, .fault _, h => exact Eq.symm h

theorem Agree.symm {r s : Except NumericError Number} (h : Agree r s) : Agree s r := by
  match r, s, h with
  | .ok x, .ok y, h => exact decide_eq_true (of_decide_eq_true h).symm
  | .error e, .error f, h => exact NumericError.SameClass.symm h

theorem Agree.comm {r s : Except NumericError Number} : Agree r s ↔ Agree s r :=
  ⟨Agree.symm, Agree.symm⟩

theorem agree_ok_iff {x y : Number} : Agree (.ok x) (.ok y) ↔ x.toRat = y.toRat :=
  decide_eq_true_iff

section
variable {a a' b b' : Number} {p q : ℚ}

theorem agree_of_values {r s : Except NumericError Number} (hr : ∃ x, r = .ok x ∧ x.toRat = p)
    (hs : ∃ y, s = .ok y ∧ y.toRat = p) : Agree r s := by
  obtain ⟨x, rfl, hx⟩ := hr
  obtain ⟨y, rfl, hy⟩ := hs
  exact agree_ok_iff.mpr (hx.trans hy.symm)

section
variable {f : Number → Number → Except NumericError Number} {g : ℚ → ℚ → ℚ}

theorem Combines.on_naturals (hf : Combines f g) (ha : a.Denotes p) (hb : b.Denotes q)
    (h : ¬ a.DecimalPair b) : ∃ x, f a b = .ok x ∧ x.toRat = g p q := by
  obtain ⟨m, n, rfl, rfl, rfl, rfl⟩ | hpair := ha.pair hb
  · obtain ⟨k, hk, hvalue⟩ := hf.naturals m n
    exact ⟨.natural k, hk, hvalue⟩
  · exact absurd hpair h

/-- The result on naturals is exact, and so is that on decimals of the same sizes as long as these
hold its digits. -/
theorem Combines.mixed_agree_iff (hf : Combines f g) (ha : a.Denotes p) (hb : b.Denotes q)
    (ha' : a'.Denotes p) (hb' : b'.Denotes q) (h : ¬ a.DecimalPair b) (h' : a'.DecimalPair b') :
    Agree (f a b) (f a' b') ↔ exactContext.Fits (g p q) := by
  obtain ⟨x, hx, hvalue⟩ := hf.on_naturals ha hb h
  have hdecimals := hf.on_decimals h'
  rw [ha'.2, hb'.2] at hdecimals
  rw [hx]
  obtain ⟨herror, hlarge⟩ | ⟨d, hd, hless, hrounded⟩ := hdecimals
  · rw [herror]
    exact iff_of_false id fun h => absurd hlarge (not_le.mpr h.2)
  · have hresult : (Number.decimal d).toRat = exactContext.rounded (g p q) := hrounded
    rw [hd, agree_ok_iff, hvalue, hresult, eq_comm,
      DecimalContext.rounded_eq_iff DecimalContext.exactContext_sound]
    exact ⟨fun hholds => ⟨hholds, hless⟩, And.left⟩

theorem Combines.decimals_agree (hf : Combines f g) (ha : a.Denotes p) (hb : b.Denotes q)
    (ha' : a'.Denotes p) (hb' : b'.Denotes q) (h : a.DecimalPair b) (h' : a'.DecimalPair b') :
    Agree (f a b) (f a' b') := by
  have hleft := hf.on_decimals h
  have hright := hf.on_decimals h'
  rw [ha.2, hb.2] at hleft
  rw [ha'.2, hb'.2] at hright
  obtain ⟨herror, hlarge⟩ | ⟨d, hd, hless, hvalue⟩ := hleft
  · obtain ⟨herror', _⟩ | ⟨_, _, hless', _⟩ := hright
    · rw [herror, herror']
      exact Agree.refl _
    · exact absurd hlarge (not_le.mpr hless')
  · obtain ⟨_, hlarge⟩ | ⟨e, he, _, hvalue'⟩ := hright
    · exact absurd hlarge (not_le.mpr hless)
    · rw [hd, he]
      exact agree_ok_iff.mpr (hvalue.trans hvalue'.symm)

theorem Combines.agree_iff (hf : Combines f g) (ha : a.Denotes p) (hb : b.Denotes q)
    (ha' : a'.Denotes p) (hb' : b'.Denotes q) :
    Agree (f a b) (f a' b') ↔
      (a.DecimalPair b ↔ a'.DecimalPair b') ∨ exactContext.Fits (g p q) := by
  by_cases h : a.DecimalPair b
  · by_cases h' : a'.DecimalPair b'
    · exact iff_of_true (hf.decimals_agree ha hb ha' hb' h h') (.inl (iff_of_true h h'))
    · rw [Agree.comm, hf.mixed_agree_iff ha' hb' ha hb h' h]
      exact (or_iff_right fun hsame => h' (hsame.mp h)).symm
  · by_cases h' : a'.DecimalPair b'
    · rw [hf.mixed_agree_iff ha hb ha' hb' h h']
      exact (or_iff_right fun hsame => h (hsame.mpr h')).symm
    · exact iff_of_true (agree_of_values (hf.on_naturals ha hb h) (hf.on_naturals ha' hb' h'))
        (.inl (iff_of_false h h'))

end

theorem div_agree (precision : ℕ) (ha : a.Denotes p) (ha' : a'.Denotes p) (hb : b.Denotes q)
    (hb' : b'.Denotes q) : Agree (a.div precision b) (a'.div precision b') := by
  by_cases hq : q = 0
  · subst hq
    rw [div_by_zero precision a hb.2, div_by_zero precision a' hb'.2]
    exact Agree.refl _
  · by_cases hfinite : FiniteDecimal (p / q)
    · obtain ⟨x, hx, hvalue⟩ := div_of_finite ha hb hq hfinite
      obtain ⟨y, hy, hvalue'⟩ := div_of_finite ha' hb' hq hfinite
      rw [hx, hy]
      exact agree_ok_iff.mpr (hvalue.trans hvalue'.symm)
    · rw [div_eq_round ha hb hq hfinite, div_eq_round ha' hb' hq hfinite]
      exact Agree.refl _

theorem factorial_agree (h : a.toRat = a'.toRat) : Agree a.factorial a'.factorial := by
  have hinteger : a.integer? = a'.integer? := by
    unfold Number.integer?
    rw [h]
  unfold Number.factorial
  rw [hinteger]
  cases a'.integer? with
  | none => trivial
  | some n =>
    simp only
    split
    · trivial
    · exact Agree.refl _

theorem exponent_eq (hb : b.Denotes q) :
    b.exponent? = if q.den = 1 ∧ 0 ≤ q.num then some q.num.toNat else none := by
  obtain ⟨m, rfl, rfl⟩ | ⟨d, rfl, rfl⟩ := hb.cases
  · rw [Number.exponent?, Rat.num_intCast, Rat.den_intCast]
    by_cases hm : m < 0
    · rw [if_pos hm, if_neg (by omega)]
    · rw [if_neg hm, if_pos (by omega)]
  · simp only [Number.exponent?, Decimal.integer?]
    by_cases hden : d.toRat.den = 1
    · rw [if_pos hden]
      by_cases hnum : d.toRat.num < 0
      · rw [if_neg (fun h => Int.not_lt.mpr h.2 hnum)]
        exact if_pos hnum
      · rw [if_pos ⟨hden, Int.not_lt.mp hnum⟩]
        exact if_neg hnum
    · rw [if_neg hden, if_neg (fun h => hden h.1)]

/-- The bits that the limit on powers counts for a base: those of an integer, and for a decimal
those of the power of ten with as many zeros as its coefficient has digits. -/
def Number.countedBits : Number → ℕ
  | .natural m => bitLength m.natAbs
  | .decimal d => bitLength (tenTo (digitCount d.coefficient))
  | .float _ => 0

def Number.RefusesPower (a b : Number) : Prop :=
  ∃ n, b.exponent? = some n ∧ powerRefused a.countedBits n = true

theorem pow_refused (ha : a.Denotes p) (h : a.RefusesPower b) :
    a.pow b = .error (.range .powerRefused) := by
  obtain ⟨n, hn, hrefused⟩ := h
  obtain ⟨m, rfl, _⟩ | ⟨d, rfl, _⟩ := ha.cases
  · simp only [Number.pow, hn]
    exact if_pos hrefused
  · simp only [Number.pow, hn]
    exact if_pos hrefused

theorem pow_value {n : ℕ} (ha : a.Denotes p) (hb : b.Denotes q) (hn : b.exponent? = some n)
    (hallowed : ¬ a.RefusesPower b) : ∃ x, a.pow b = .ok x ∧ x.toRat = p ^ n := by
  have hq : q = n := by
    rw [exponent_eq hb] at hn
    split at hn
    next hnatural =>
      cases hn
      have hnum : ((q.num.toNat : ℕ) : ℤ) = q.num := Int.toNat_of_nonneg hnatural.2
      rw [← Int.cast_natCast, hnum, Rat.coe_int_num_of_den_eq_one hnatural.1]
    · cases hn
  subst hq
  have hpower : powerRefused a.countedBits n = false := by
    rw [← Bool.not_eq_true]
    exact fun hrefused => hallowed ⟨n, hn, hrefused⟩
  obtain ⟨x, hx⟩ : ∃ x, a.pow b = .ok x := by
    obtain ⟨m, rfl, _⟩ | ⟨d, rfl, _⟩ := ha.cases
    · rw [Number.countedBits] at hpower
      simp only [Number.pow, hn, hpower, Bool.false_eq_true, if_false]
      split <;> exact ⟨_, rfl⟩
    · rw [Number.countedBits] at hpower
      simp only [Number.pow, hn, hpower, Bool.false_eq_true, if_false]
      exact ⟨_, rfl⟩
  exact ⟨x, hx, (pow_denotes ha hb hx).2⟩

/-- The sign of a zero matters only for the double of zero. -/
theorem ofRat_sign {r : ℚ} (hr : r ≠ 0) (sign other : Bool) :
    Double.ofRat sign r = Double.ofRat other r := by
  rw [Double.ofRat, Double.ofRat, if_neg hr, if_neg hr]

theorem toDouble?_eq (ha : a.Denotes p) (hp : p ≠ 0) : a.toDouble? = Double.ofRat false p := by
  obtain ⟨m, rfl, rfl⟩ | ⟨d, rfl, rfl⟩ := ha.cases
  · rfl
  · exact ofRat_sign hp _ _

theorem toDouble_zero (ha : a.Denotes 0) : ∃ x, a.toDouble = .ok x ∧ x.isZero = true := by
  refine toDouble_of_le_tiny ?_
  rw [ha.2, abs_zero]
  exact tiny_pos.le

theorem toDouble_cases (ha : a.Denotes p) (ha' : a'.Denotes p) (hp : p ≠ 0) :
    (∃ x, a.toDouble = .ok x ∧ a'.toDouble = .ok x) ∨
      (a.toDouble = .error (.range (.tooLargeForFloat a)) ∧
        a'.toDouble = .error (.range (.tooLargeForFloat a'))) := by
  unfold Number.toDouble
  rw [toDouble?_eq ha hp, toDouble?_eq ha' hp]
  cases Double.ofRat false p with
  | some x => exact .inl ⟨x, rfl, rfl⟩
  | none => exact .inr ⟨rfl, rfl⟩

theorem zeroPow_cases (x x' y : Double) :
    (x.zeroPow y = none ∧ x'.zeroPow y = none) ∨
      ∃ z z', x.zeroPow y = some z ∧ x'.zeroPow y = some z' ∧ z.toRat = z'.toRat := by
  have hzero : ∀ sign, (Double.zero sign).toRat = 0 := fun _ => Double.toRat_of_isZero rfl
  unfold Double.zeroPow
  by_cases hneg : y.toRat < 0
  · rw [if_pos hneg, if_pos hneg]
    exact .inl ⟨rfl, rfl⟩
  · rw [if_neg hneg, if_neg hneg]
    refine .inr ?_
    by_cases hy : y.isZero = true
    · rw [if_pos hy, if_pos hy]
      exact ⟨_, _, rfl, rfl, rfl⟩
    · rw [if_neg hy, if_neg hy]
      exact ⟨_, _, rfl, rfl, (hzero _).trans (hzero _).symm⟩

theorem ofFloat_agree {e e' f f' : NumericError} (he : e.SameClass e') (hf : f.SameClass f')
    (x : Float) : Agree (Number.ofFloat e f x) (Number.ofFloat e' f' x) := by
  unfold Number.ofFloat
  cases ExtendedDouble.ofBits x.toBits with
  | finite y => exact Agree.refl _
  | infinite _ => exact he
  | notANumber => exact hf

theorem floatPow_of_doubles {x y : Double} (hx : a.toDouble = .ok x) (hy : b.toDouble = .ok y) :
    a.floatPow b =
      if x.isZero then
        match x.zeroPow y with
        | some z => .ok (.float z)
        | none => .error (.domain (.undefinedPower a b))
      else
        Number.ofFloat (.range (.powerTooLarge a b)) (.domain (.undefinedPower a b))
          (x.toFloat ^ y.toFloat) := by
  unfold Number.floatPow
  rw [hx, hy]
  rfl

theorem floatPow_base_error {e : NumericError} (h : a.toDouble = .error e) (b : Number) :
    a.floatPow b = .error e := by
  unfold Number.floatPow
  rw [h]
  rfl

theorem floatPow_exponent_error {x : Double} {e : NumericError} (hx : a.toDouble = .ok x)
    (h : b.toDouble = .error e) : a.floatPow b = .error e := by
  unfold Number.floatPow
  rw [hx, h]
  rfl

theorem base_cases (ha : a.Denotes p) (ha' : a'.Denotes p) :
    (∃ x, a.toDouble = .ok x ∧ a'.toDouble = .ok x) ∨
      (∃ x x', a.toDouble = .ok x ∧ a'.toDouble = .ok x' ∧ x.isZero = true ∧ x'.isZero = true) ∨
      (a.toDouble = .error (.range (.tooLargeForFloat a)) ∧
        a'.toDouble = .error (.range (.tooLargeForFloat a'))) := by
  by_cases hp : p = 0
  · subst hp
    obtain ⟨x, hx, hzero⟩ := toDouble_zero ha
    obtain ⟨x', hx', hzero'⟩ := toDouble_zero ha'
    exact .inr (.inl ⟨x, x', hx, hx', hzero, hzero'⟩)
  · obtain hsame | hlarge := toDouble_cases ha ha' hp
    · exact .inl hsame
    · exact .inr (.inr hlarge)

/-- The power of zeros to one exponent, whatever their signs are. -/
theorem floatPow_zeros {x x' y : Double} (hx : a.toDouble = .ok x) (hx' : a'.toDouble = .ok x')
    (hzero : x.isZero = true) (hzero' : x'.isZero = true) (hy : b.toDouble = .ok y)
    (hy' : b'.toDouble = .ok y) : Agree (a.floatPow b) (a'.floatPow b') := by
  rw [floatPow_of_doubles hx hy, floatPow_of_doubles hx' hy', if_pos hzero, if_pos hzero']
  obtain ⟨hnone, hnone'⟩ | ⟨z, z', hz, hz', hsize⟩ := zeroPow_cases x x' y
  · rw [hnone, hnone']
    trivial
  · rw [hz, hz']
    exact decide_eq_true hsize

theorem floatPow_agree (ha : a.Denotes p) (ha' : a'.Denotes p) (hb : b.Denotes q)
    (hb' : b'.Denotes q) (hq : q ≠ 0) : Agree (a.floatPow b) (a'.floatPow b') := by
  obtain ⟨y, hy, hy'⟩ | ⟨hy, hy'⟩ := toDouble_cases hb hb' hq
  · obtain ⟨x, hx, hx'⟩ | ⟨x, x', hx, hx', hzero, hzero'⟩ | ⟨hx, hx'⟩ := base_cases ha ha'
    · by_cases hzero : x.isZero = true
      · exact floatPow_zeros hx hx' hzero hzero hy hy'
      · rw [floatPow_of_doubles hx hy, floatPow_of_doubles hx' hy', if_neg hzero, if_neg hzero]
        have hrange : (NumericError.range (.powerTooLarge a b)).SameClass
            (.range (.powerTooLarge a' b')) := trivial
        have hdomain : (NumericError.domain (.undefinedPower a b)).SameClass
            (.domain (.undefinedPower a' b')) := trivial
        exact ofFloat_agree hrange hdomain _
    · exact floatPow_zeros hx hx' hzero hzero' hy hy'
    · rw [floatPow_base_error hx, floatPow_base_error hx']
      trivial
  · obtain ⟨x, hx, hx'⟩ | ⟨x, x', hx, hx', _, _⟩ | ⟨hx, hx'⟩ := base_cases ha ha'
    · rw [floatPow_exponent_error hx hy, floatPow_exponent_error hx' hy']
      trivial
    · rw [floatPow_exponent_error hx hy, floatPow_exponent_error hx' hy']
      trivial
    · rw [floatPow_base_error hx, floatPow_base_error hx']
      trivial

theorem pow_eq_floatPow (h : b.exponent? = none) : a.pow b = a.floatPow b := by
  unfold Number.pow
  rw [h]

/-- Powers agree unless the limit refuses only one of them. -/
theorem pow_agree_iff (ha : a.Denotes p) (ha' : a'.Denotes p) (hb : b.Denotes q)
    (hb' : b'.Denotes q) :
    Agree (a.pow b) (a'.pow b') ↔ (a.RefusesPower b ↔ a'.RefusesPower b') := by
  have hsame : b.exponent? = b'.exponent? := (exponent_eq hb).trans (exponent_eq hb').symm
  cases hn : b.exponent? with
  | none =>
    have hn' : b'.exponent? = none := hsame ▸ hn
    have hq : q ≠ 0 := by
      rintro rfl
      rw [exponent_eq hb] at hn
      simp at hn
    have hfloat : Agree (a.pow b) (a'.pow b') := by
      rw [pow_eq_floatPow hn, pow_eq_floatPow hn']
      exact floatPow_agree ha ha' hb hb' hq
    refine iff_of_true hfloat (iff_of_false ?_ ?_)
    · rintro ⟨n, hsome, _⟩
      rw [hn] at hsome
      cases hsome
    · rintro ⟨n, hsome, _⟩
      rw [hn'] at hsome
      cases hsome
  | some n =>
    have hn' : b'.exponent? = some n := hsame ▸ hn
    by_cases hr : a.RefusesPower b
    · rw [pow_refused ha hr]
      by_cases hr' : a'.RefusesPower b'
      · rw [pow_refused ha' hr']
        exact iff_of_true trivial (iff_of_true hr hr')
      · obtain ⟨x, hx, _⟩ := pow_value ha' hb' hn' hr'
        rw [hx]
        exact iff_of_false not_false fun h => hr' (h.mp hr)
    · by_cases hr' : a'.RefusesPower b'
      · obtain ⟨x, hx, _⟩ := pow_value ha hb hn hr
        rw [pow_refused ha' hr', hx]
        exact iff_of_false not_false fun h => hr (h.mpr hr')
      · exact iff_of_true (agree_of_values (pow_value ha hb hn hr) (pow_value ha' hb' hn' hr'))
          (iff_of_false hr hr')

end

/-- On naturals and decimals of equal sizes the operations have results of equal size, or errors of
one class, at every precision, with two exceptions. The sum, difference or product of naturals agrees
with that of decimals where decimals have this number, and powers agree where the limit refuses both
or none. -/
theorem equal_operands_agree {a a' b b' : Number} (ha : a.kind ≠ .float) (ha' : a'.kind ≠ .float)
    (hb : b.kind ≠ .float) (hb' : b'.kind ≠ .float) (hsize : a.sameSize a' = true)
    (hsize' : b.sameSize b' = true) (precision : ℕ) :
    (∀ op g, ExactSign op g → (Agree (op.apply precision a b) (op.apply precision a' b') ↔
      (a.DecimalPair b ↔ a'.DecimalPair b') ∨ exactContext.Fits (g a.toRat b.toRat))) ∧
      Agree (a.div precision b) (a'.div precision b') ∧ Agree a.factorial a'.factorial ∧
      (Agree (a.pow b) (a'.pow b') ↔ (a.RefusesPower b ↔ a'.RefusesPower b')) := by
  have hequal : a.toRat = a'.toRat := of_decide_eq_true hsize
  have hequal' : b.toRat = b'.toRat := of_decide_eq_true hsize'
  have hda := denotes_of_kind ha
  have hda' := denotes_of_kind ha'
  have hdb := denotes_of_kind hb
  have hdb' := denotes_of_kind hb'
  rw [← hequal] at hda'
  rw [← hequal'] at hdb'
  exact ⟨fun op g hop => (hop.combines precision).agree_iff hda hdb hda' hdb',
    div_agree precision hda hda' hdb hdb', factorial_agree hequal,
    pow_agree_iff hda hda' hdb hdb'⟩

def twoPointZero : Number :=
  .decimal ⟨false, 20, -1⟩

def negativeZero : Number :=
  .decimal ⟨true, 0, -2⟩

/-- `2.0` agrees with `2` as a base and `-0.00` with `0` as a divisor and as an exponent. -/
theorem twoPointZero_agrees :
    (Number.natural 2).kind ≠ .float ∧ twoPointZero.kind ≠ .float ∧
      (Number.natural 0).kind ≠ .float ∧ negativeZero.kind ≠ .float ∧
      (Number.natural 2).sameSize twoPointZero = true ∧
      (Number.natural 0).sameSize negativeZero = true ∧
      Agree ((Number.natural 2).add (.natural 0)) (twoPointZero.add negativeZero) ∧
      Agree ((Number.natural 2).div 28 (.natural 0)) (twoPointZero.div 28 negativeZero) ∧
      Agree (Number.natural 2).factorial twoPointZero.factorial ∧
      Agree ((Number.natural 2).pow (.natural 0)) (twoPointZero.pow negativeZero) := by
  have htwo : (Number.natural 2).kind ≠ .float := by decide
  have htwo' : twoPointZero.kind ≠ .float := by decide
  have hzero : (Number.natural 0).kind ≠ .float := by decide
  have hzero' : negativeZero.kind ≠ .float := by decide
  have hsize : (Number.natural 2).sameSize twoPointZero = true := by decide +kernel
  have hsize' : (Number.natural 0).sameSize negativeZero = true := by decide +kernel
  obtain ⟨hexact, hdiv, hfactorial, hpow⟩ :=
    equal_operands_agree htwo htwo' hzero hzero' hsize hsize' 28
  have hsum : (Decimal.mk false 2 0).toRat = (Number.natural 2).toRat + (Number.natural 0).toRat := by
    decide +kernel
  have hfits : exactContext.Fits (Decimal.mk false 2 0).toRat :=
    DecimalContext.fits_toRat DecimalContext.exactContext_sound (by decide +kernel)
      (by decide +kernel) (by decide +kernel)
  rw [hsum] at hfits
  have hallowed : ¬ (Number.natural 2).RefusesPower (.natural 0) := by
    rintro ⟨n, hn, hrefused⟩
    cases hn
    exact absurd hrefused (by decide +kernel)
  have hallowed' : ¬ twoPointZero.RefusesPower negativeZero := by
    rintro ⟨n, hn, hrefused⟩
    have hzero : negativeZero.exponent? = some 0 := by decide +kernel
    rw [hzero] at hn
    cases hn
    exact absurd hrefused (by decide +kernel)
  exact ⟨htwo, htwo', hzero, hzero', hsize, hsize', (hexact .plus _ .sum).mpr (.inr hfits), hdiv,
    hfactorial, hpow.mpr (iff_of_false hallowed hallowed')⟩

/-- The limit counts two digits for `1.0`, and refuses a power of it that `1` has. -/
theorem onePointZero_disagrees :
    (Number.natural 1).sameSize (.decimal ⟨false, 10, -1⟩) = true ∧
      (Number.natural 1).pow (.natural 2796203) = .ok (.natural 1) ∧
      (Number.decimal ⟨false, 10, -1⟩).pow (.natural 2796203) = .error (.range .powerRefused) ∧
      ¬ Agree ((Number.natural 1).pow (.natural 2796203))
        ((Number.decimal ⟨false, 10, -1⟩).pow (.natural 2796203)) := by
  have hone : (Number.natural 1).pow (.natural 2796203) = .ok (.natural 1) := by decide +kernel
  have hrefused : (Number.decimal ⟨false, 10, -1⟩).pow (.natural 2796203) =
      .error (.range .powerRefused) := by decide +kernel
  refine ⟨by decide +kernel, hone, hrefused, ?_⟩
  rw [hone, hrefused]
  exact not_false

end Reckoner
