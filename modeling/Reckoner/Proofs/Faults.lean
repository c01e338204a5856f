import Reckoner.Proofs.Quotients
import Reckoner.Proofs.Steps

namespace Reckoner

def Faultless {α : Type} (result : Except NumericError α) : Prop :=
  ∀ f, result ≠ .error (.fault f)

section
variable {α β : Type}

theorem faultless_ok (a : α) : Faultless (.ok a) :=
  fun f h => by cases h

theorem faultless_domain (e : DomainError) : Faultless (.error (.domain e) : Except _ α) :=
  fun f h => by cases h

theorem faultless_range (e : RangeError) : Faultless (.error (.range e) : Except _ α) :=
  fun f h => by cases h

theorem Faultless.bind {x : Except NumericError α} {next : α → Except NumericError β}
    (h : Faultless x) (hnext : ∀ a, Faultless (next a)) : Faultless (x >>= next) := by
  cases x with
  | ok a => exact hnext a
  | error e =>
    intro f heq
    cases heq
    exact h f rfl

end

theorem ofDouble_faultless (x : Option Double) : Faultless (Number.ofDouble? x) := by
  cases x with
  | some x => exact faultless_ok _
  | none => exact faultless_range _

theorem toDouble_faultless (x : Number) : Faultless x.toDouble := by
  unfold Number.toDouble
  split
  · exact faultless_ok _
  · exact faultless_range _

theorem promote_faultless (a b : Number) : Faultless (a.promote b) := by
  unfold Number.promote
  split
  · exact faultless_ok _
  · exact faultless_ok _
  · exact faultless_ok _
  · exact faultless_ok _
  · exact (toDouble_faultless a).bind fun _ => (toDouble_faultless b).bind fun _ => faultless_ok _

/-- A hardware float is a number or one of the two errors that are given for it. -/
theorem ofFloat_faultless {overflow undefined : NumericError} (f : Float)
    (ho : Faultless (.error overflow : Except _ Number))
    (hu : Faultless (.error undefined : Except _ Number)) :
    Faultless (Number.ofFloat overflow undefined f) := by
  unfold Number.ofFloat
  split
  · exact faultless_ok _
  · exact ho
  · exact hu

theorem floatPow_faultless (a b : Number) : Faultless (a.floatPow b) := by
  refine (toDouble_faultless a).bind fun x => (toDouble_faultless b).bind fun y => ?_
  simp only
  split
  · split
    · exact faultless_ok _
    · exact faultless_domain _
  · exact ofFloat_faultless _ (faultless_range _) (faultless_domain _)

theorem pow_faultless (a b : Number) : Faultless (a.pow b) := by
  unfold Number.pow
  split
  · split
    · exact faultless_range _
    · split <;> exact faultless_ok _
  · split
    · exact faultless_range _
    · exact faultless_ok _
  · exact floatPow_faultless _ _

theorem factorial_faultless (x : Number) : Faultless x.factorial := by
  unfold Number.factorial
  split
  · split
    · exact faultless_domain _
    · split
      · exact faultless_range _
      · exact faultless_ok _
  · exact faultless_domain _

section
variable (name : String) (f : Float → Float) (x : Number)

theorem bounded_faultless : Faultless (bounded name f x) :=
  (toDouble_faultless x).bind fun _ =>
    ofFloat_faultless _ (faultless_domain _) (faultless_domain _)

theorem growing_faultless : Faultless (growing name f x) :=
  (toDouble_faultless x).bind fun _ =>
    ofFloat_faultless _ (faultless_range _) (faultless_domain _)

theorem onUnitInterval_faultless : Faultless (onUnitInterval name f x) := by
  unfold onUnitInterval
  split
  · exact faultless_domain _
  · exact bounded_faultless name f x

theorem logarithm_faultless : Faultless (logarithm name f x) := by
  unfold logarithm
  split
  · exact faultless_domain _
  · split
    · exact ofFloat_faultless _ (faultless_domain _) (faultless_domain _)
    · exact bounded_faultless name f _

theorem squareRoot_faultless : Faultless (squareRoot x) := by
  unfold squareRoot
  split
  · exact faultless_domain _
  · split
    · exact faultless_ok _
    · exact faultless_ok _
    · exact (toDouble_faultless _).bind fun _ => ofDouble_faultless _

end

theorem angle_faultless (y x : Number) : Faultless (angle y x) :=
  (toDouble_faultless y).bind fun _ => (toDouble_faultless x).bind fun _ =>
    ofFloat_faultless _ (faultless_domain _) (faultless_domain _)

def Rule.Faultless : Rule → Prop
  | .unary f => ∀ x, Reckoner.Faultless (f x)
  | .binary f => ∀ x y, Reckoner.Faultless (f x y)

theorem builtins_faultless : ∀ b ∈ builtins, b.rule.Faultless := by
  intro b hb
  simp only [builtins, List.mem_cons, List.not_mem_nil, or_false] at hb
  rcases hb with rfl | rfl | rfl | rfl | rfl | rfl | rfl | rfl | rfl | rfl | rfl | rfl | rfl | rfl |
    rfl | rfl | rfl | rfl | rfl | rfl | rfl | rfl | rfl
  · exact bounded_faultless _ _
  · exact bounded_faultless _ _
  · exact bounded_faultless _ _
  · exact onUnitInterval_faultless _ _
  · exact onUnitInterval_faultless _ _
  · exact bounded_faultless _ _
  · exact angle_faultless
  · exact growing_faultless _ _
  · exact growing_faultless _ _
  · exact bounded_faultless _ _
  · exact growing_faultless _ _
  · exact logarithm_faultless _ _
  · exact logarithm_faultless _ _
  · exact logarithm_faultless _ _
  · exact logarithm_faultless _ _
  · exact squareRoot_faultless
  · exact pow_faultless
  · exact fun _ => faultless_ok _
  · exact fun _ => faultless_ok _
  · exact fun _ => faultless_ok _
  · exact fun _ => faultless_ok _
  · exact fun _ _ => faultless_ok _
  · exact fun _ _ => faultless_ok _

/-- A float over a number that is not zero but at most half the smallest positive double. -/
def Number.Vanishes (a b : Number) : Prop :=
  a.kind = .float ∧ b.toRat ≠ 0 ∧ |b.toRat| ≤ tiny

/-- An operation breaks off on two numbers. -/
inductive OperationBreaks (precision : ℕ) (a b : Number) : BinarySign → Fault → Prop
  | vanishing : a.Vanishes b → OperationBreaks precision a b .over .zeroDivisor
  | endless : a.EndlessOver b → (quotientContext precision).limit ≤ |a.toRat / b.toRat| →
      OperationBreaks precision a b .over .decimalTooLarge
  | combined {op : BinarySign} {g : ℚ → ℚ → ℚ} : ExactSign op g → a.DecimalPair b →
      exactContext.limit ≤ |g a.toRat b.toRat| → OperationBreaks precision a b op .decimalTooLarge

section
variable {a b : Number} {f : Fault}

theorem ofDecimal_fault_iff {d : Option Decimal} :
    Number.ofDecimal? d = .error (.fault f) ↔ f = .decimalTooLarge ∧ d = none := by
  cases d with
  | some d => simp [Number.ofDecimal?]
  | none => simp [Number.ofDecimal?, eq_comm]

theorem promote_of_float (h : a.kind = .float ∨ b.kind = .float) :
    a.promote b = a.toDouble >>= fun x => b.toDouble >>= fun y => .ok (.doubles x y) := by
  cases a with
  | float x => rfl
  | natural m | decimal d =>
    cases b with
    | float y => rfl
    | natural n | decimal e => simp [Number.kind] at h

theorem decimalPair_of_promote {d e : Decimal} (h : a.promote b = .ok (.decimals d e)) :
    a.DecimalPair b := by
  by_cases hfloat : a.kind = .float ∨ b.kind = .float
  · rw [promote_of_float hfloat] at h
    obtain ⟨x, _, h⟩ := bind_eq_ok h
    obtain ⟨y, _, h⟩ := bind_eq_ok h
    cases h
  · obtain ⟨ha, hb⟩ := not_or.mp hfloat
    refine ⟨ha, hb, ?_⟩
    cases a with
    | decimal d => exact .inl rfl
    | natural m =>
      cases b with
      | decimal e => exact .inr rfl
      | natural n => cases h
      | float y => exact absurd rfl hb
    | float x => exact absurd rfl ha

/-- What has no faults on naturals and on doubles breaks off on decimals only. -/
theorem decimalPair_of_fault {next : Operands → Except NumericError Number}
    (hnaturals : ∀ m n, Faultless (next (.naturals m n)))
    (hdoubles : ∀ x y, Faultless (next (.doubles x y)))
    (h : a.promote b >>= next = .error (.fault f)) : a.DecimalPair b := by
  cases hoperands : a.promote b with
  | error e =>
    rw [hoperands] at h
    cases h
    exact absurd hoperands (promote_faultless a b f)
  | ok operands =>
    rw [hoperands] at h
    cases operands with
    | naturals m n => exact absurd h (hnaturals m n f)
    | decimals d e => exact decimalPair_of_promote hoperands
    | doubles x y => exact absurd h (hdoubles x y f)

theorem ExactSign.fault {precision : ℕ} {op : BinarySign} {g : ℚ → ℚ → ℚ} (h : ExactSign op g)
    (hfault : op.apply precision a b = .error (.fault f)) : a.DecimalPair b := by
  cases h with
  | sum | difference | product =>
    exact decimalPair_of_fault (fun _ _ => faultless_ok _) (fun _ _ => ofDouble_faultless _) hfault

/-- Sums, differences and products break off where they are decimals and too large. -/
theorem ExactSign.fault_iff {precision : ℕ} {op : BinarySign} {g : ℚ → ℚ → ℚ}
    (h : ExactSign op g) : op.apply precision a b = .error (.fault f) ↔
      f = .decimalTooLarge ∧ a.DecimalPair b ∧ exactContext.limit ≤ |g a.toRat b.toRat| := by
  constructor
  · intro hfault
    have hpair := h.fault hfault
    obtain ⟨herror, hlarge⟩ | ⟨d, hresult, _⟩ := (h.combines precision).on_decimals hpair
    · rw [herror] at hfault
      cases hfault
      exact ⟨rfl, hpair, hlarge⟩
    · rw [hresult] at hfault
      cases hfault
  · rintro ⟨rfl, hpair, hlarge⟩
    obtain ⟨herror, _⟩ | ⟨_, _, hless, _⟩ := (h.combines precision).on_decimals hpair
    · exact herror
    · exact absurd hlarge (not_le.mpr hless)

theorem toDouble_eq_ok {y : Double} : b.toDouble = .ok y ↔ b.toDouble? = some y := by
  unfold Number.toDouble
  split
  next z hz => simp [hz]
  next hnone => simp [hnone]

theorem le_tiny_of_toDouble {y : Double} (h : b.toDouble = .ok y) (hzero : y.isZero = true) :
    |b.toRat| ≤ tiny := by
  rw [toDouble_eq_ok] at h
  cases b with
  | natural n => exact le_tiny_of_ofRat h hzero
  | decimal d => exact le_tiny_of_ofRat h hzero
  | float x =>
    cases h
    rw [Number.toRat, Double.toRat_of_isZero hzero, abs_zero]
    exact tiny_pos.le

theorem toDouble_of_le_tiny (h : |b.toRat| ≤ tiny) :
    ∃ y, b.toDouble = .ok y ∧ y.isZero = true := by
  simp only [toDouble_eq_ok]
  cases b with
  | natural n => exact ofRat_of_le_tiny false h
  | decimal d => exact ofRat_of_le_tiny d.negative h
  | float x => exact ⟨x, rfl, Double.isZero_of_le_tiny h⟩

theorem div_of_float (precision : ℕ) (hfloat : a.kind = .float ∨ b.kind = .float)
    (hne : b.toRat ≠ 0) : a.div precision b = a.toDouble >>= fun x => b.toDouble >>= fun y =>
      if y.isZero then .error (.fault .zeroDivisor) else Number.ofDouble? (x.div y) := by
  have hguard : b.isZero = false := by simp [Number.isZero, hne]
  unfold Number.div
  simp only [hguard, Bool.false_eq_true, if_false, promote_of_float hfloat]
  cases a.toDouble with
  | error e => rfl
  | ok x => cases b.toDouble <;> rfl

/-- A divisor that becomes zero as a float is no float itself: as a float it would not change. -/
theorem vanishes_of_isZero (hfloat : a.kind = .float ∨ b.kind = .float) (hne : b.toRat ≠ 0)
    {y : Double} (hy : b.toDouble = .ok y) (hzero : y.isZero = true) : a.Vanishes b := by
  refine ⟨hfloat.resolve_right fun hb => hne ?_, hne, le_tiny_of_toDouble hy hzero⟩
  cases b with
  | float z =>
    cases hy
    exact Double.toRat_of_isZero hzero
  | natural n => cases hb
  | decimal d => cases hb

/-- With a float among its operands a division breaks off in one case only. -/
theorem float_fault_iff (precision : ℕ) (hfloat : a.kind = .float ∨ b.kind = .float)
    (hne : b.toRat ≠ 0) :
    a.div precision b = .error (.fault f) ↔ f = .zeroDivisor ∧ a.Vanishes b := by
  rw [div_of_float precision hfloat hne]
  constructor
  · intro h
    cases hx : a.toDouble with
    | error e =>
      rw [hx, error_bind] at h
      cases h
      exact absurd hx (toDouble_faultless a f)
    | ok x =>
      cases hy : b.toDouble with
      | error e =>
        rw [hx, hy, ok_bind, error_bind] at h
        cases h
        exact absurd hy (toDouble_faultless b f)
      | ok y =>
        rw [hx, hy, ok_bind, ok_bind] at h
        by_cases hzero : y.isZero = true
        · rw [if_pos hzero] at h
          cases h
          exact ⟨rfl, vanishes_of_isZero hfloat hne hy hzero⟩
        · rw [if_neg hzero] at h
          exact absurd h (ofDouble_faultless _ f)
  · rintro ⟨rfl, hkind, _, htiny⟩
    obtain ⟨y, hy, hzero⟩ := toDouble_of_le_tiny htiny
    cases a with
    | float x =>
      have hx : (Number.float x).toDouble = .ok x := rfl
      rw [hx, hy, ok_bind, ok_bind, if_pos hzero]
    | natural n => cases hkind
    | decimal d => cases hkind

/-- A division breaks off where its divisor vanishes and where an endless quotient is too large. -/
theorem div_fault_iff {precision : ℕ} (hprecision : 0 < precision) :
    a.div precision b = .error (.fault f) ↔ OperationBreaks precision a b .over f := by
  by_cases hne : b.toRat = 0
  · rw [div_by_zero precision a hne]
    refine iff_of_false (by simp) fun hbreaks => ?_
    cases hbreaks with
    | vanishing h => exact h.2.1 hne
    | endless h _ => exact h.nonzero hne
    | combined h _ _ => cases h
  by_cases hfloat : a.kind = .float ∨ b.kind = .float
  · rw [float_fault_iff precision hfloat hne]
    constructor
    · rintro ⟨rfl, hvanishes⟩
      exact .vanishing hvanishes
    · intro hbreaks
      cases hbreaks with
      | vanishing h => exact ⟨rfl, h⟩
      | endless h _ => exact absurd hfloat (not_or.mpr ⟨h.dividend, h.divisor⟩)
      | combined h _ _ => cases h
  · obtain ⟨ha, hb⟩ := not_or.mp hfloat
    by_cases hfinite : FiniteDecimal (a.toRat / b.toRat)
    · obtain ⟨x, hx, _⟩ := div_of_finite (denotes_of_kind ha) (denotes_of_kind hb) hne hfinite
      rw [hx]
      refine iff_of_false (by simp) fun hbreaks => ?_
      cases hbreaks with
      | vanishing h => exact ha h.1
      | endless h _ => exact h.endless hfinite
      | combined h _ _ => cases h
    · rw [div_eq_round (denotes_of_kind ha) (denotes_of_kind hb) hne hfinite, ofDecimal_fault_iff,
        DecimalContext.round_eq_none_iff (DecimalContext.quotientContext_sound hprecision)]
      constructor
      · rintro ⟨rfl, hlarge⟩
        exact .endless ⟨ha, hb, hne, hfinite⟩ hlarge
      · intro hbreaks
        cases hbreaks with
        | vanishing h => exact absurd h.1 ha
        | endless _ hlarge => exact ⟨rfl, hlarge⟩
        | combined h _ _ => cases h

theorem ExactSign.breaks_iff {precision : ℕ} {op : BinarySign} {g : ℚ → ℚ → ℚ}
    (h : ExactSign op g) : OperationBreaks precision a b op f ↔
      f = .decimalTooLarge ∧ a.DecimalPair b ∧ exactContext.limit ≤ |g a.toRat b.toRat| := by
  constructor
  · intro hbreaks
    cases h with
    | sum | difference | product =>
      cases hbreaks with
      | combined h hpair hlarge =>
        cases h
        exact ⟨rfl, hpair, hlarge⟩
  · rintro ⟨rfl, hpair, hlarge⟩
    exact .combined h hpair hlarge

theorem apply_fault_iff {precision : ℕ} (hprecision : 0 < precision) (op : BinarySign) :
    op.apply precision a b = .error (.fault f) ↔ OperationBreaks precision a b op f :=
  match op with
  | .plus => ExactSign.sum.fault_iff.trans ExactSign.sum.breaks_iff.symm
  | .minus => ExactSign.difference.fault_iff.trans ExactSign.difference.breaks_iff.symm
  | .times => ExactSign.product.fault_iff.trans ExactSign.product.breaks_iff.symm
  | .over => div_fault_iff hprecision
  | .power => by
    refine iff_of_false (pow_faultless a b f) fun hbreaks => ?_
    cases hbreaks with
    | combined h _ _ => cases h

end

end Reckoner
