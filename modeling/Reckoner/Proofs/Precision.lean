import Reckoner.Proofs.Quotients
import Reckoner.Proofs.Resolution
import Reckoner.Proofs.SquareRoots

namespace Reckoner

/-- A fraction with a finite expansion is the same decimal at every precision. -/
theorem ofRat_finite {r : ℚ} {d : Decimal} (h : Decimal.ofFinite? r = some d) (precision : ℕ) :
    Decimal.ofRat? precision r = some d := by
  rw [Decimal.ofRat?, h]

theorem ofRat_pow (precision : ℕ) (d : Decimal) (n : ℕ) :
    Decimal.ofRat? precision (d.toRat ^ n) = some (d.pow n) := by
  obtain ⟨e, he, _⟩ := ofFinite_of_finiteDecimal ((finiteDecimal_toRat d).pow n)
  rw [ofRat_finite he, Decimal.pow, he, Option.getD_some]

/-- A natural as a decimal; the other numbers are what they are. -/
def Number.widened : Number → Number
  | .natural n => .decimal (.ofInt n)
  | x => x

theorem ofFinite_of_den {r : ℚ} (h : r.den = 1) : Decimal.ofFinite? r = some (.ofInt r.num) := by
  have hplaces : decimalPlaces? 1 = some 0 := by decide +kernel
  have hsign : decide (r < 0) = decide (r.num < 0) := decide_eq_decide.mpr Rat.num_neg.symm
  rw [Decimal.ofFinite?, h, hplaces, Option.map_some, hsign, tenTo_zero, mul_one, Nat.div_one]
  rfl

section
variable {r : ℚ}

theorem squareRoot_natural {n : ℤ} (h : 0 ≤ (Number.natural n).toRat)
    (hr : exactRoot? (Number.natural n).toRat = some r) (precision : ℕ) :
    ∃ x, Number.ofRat precision r = .ok x ∧ squareRoot (.natural n) = .ok x := by
  have hden : r.den = 1 := den_of_root (exactRoot_mul_self h hr)
  unfold squareRoot
  rw [if_neg (not_isNegative h), hr, Number.ofRat, if_pos hden]
  exact ⟨_, rfl, rfl⟩

theorem squareRoot_decimal {d : Decimal} (h : 0 ≤ (Number.decimal d).toRat)
    (hr : exactRoot? (Number.decimal d).toRat = some r) (precision : ℕ) :
    ∃ x, Number.ofRat precision r = .ok x ∧ squareRoot (.decimal d) = .ok x.widened := by
  have hfinite : FiniteDecimal r := finiteDecimal_of_root (exactRoot_mul_self h hr)
  unfold squareRoot
  rw [if_neg (not_isNegative h), hr, Number.ofRat]
  by_cases hden : r.den = 1
  · rw [if_pos hden]
    refine ⟨_, rfl, ?_⟩
    simp only [ofFinite_of_den hden, Option.getD_some]
    rfl
  · obtain ⟨e, he, _⟩ := ofFinite_of_finiteDecimal hfinite
    rw [if_neg hden, ofRat_finite he]
    refine ⟨_, rfl, ?_⟩
    simp only [he, Option.getD_some]
    rfl

end

section
variable {a b : Number}

/-- A quotient is rounded to the precision only where it is endless. -/
theorem div_precision (h : ¬ a.EndlessOver b) (p q : ℕ) : a.div p b = a.div q b := by
  by_cases hzero : b.toRat = 0
  · rw [div_by_zero p a hzero, div_by_zero q a hzero]
  by_cases hfloat : a.kind = .float ∨ b.kind = .float
  · rw [div_of_float p hfloat hzero, div_of_float q hfloat hzero]
  · obtain ⟨ha, hb⟩ := not_or.mp hfloat
    have hfinite : FiniteDecimal (a.toRat / b.toRat) := by
      by_contra hendless
      exact h ⟨ha, hb, hzero, hendless⟩
    obtain ⟨x, hx, _⟩ := div_of_finite (denotes_of_kind ha) (denotes_of_kind hb) hzero hfinite
    rw [hx, hx]

end

/-- A token divides the two numbers on top of a stack, and their quotient is endless. -/
def Token.Rounds (token : Token) : List Number → Prop
  | b :: a :: _ => token.IsSign "/" ∧ a.EndlessOver b
  | _ => False

/-- The run of a program on a stack comes to an endless quotient of two naturals or decimals. -/
def Environment.Rounds (env : Environment) (program : List Token) (stack : List Number) : Prop :=
  ∃ done token rest held, program = done ++ token :: rest ∧ env.execute done stack = .ok held ∧
    token.Rounds held

instance (a b : Number) : Decidable (a.EndlessOver b) :=
  decidable_of_iff
    (a.kind ≠ .float ∧ b.kind ≠ .float ∧ b.toRat ≠ 0 ∧ ¬ FiniteDecimal (a.toRat / b.toRat))
    ⟨fun ⟨ha, hb, hzero, h⟩ => ⟨ha, hb, hzero, h⟩, fun ⟨ha, hb, hzero, h⟩ => ⟨ha, hb, hzero, h⟩⟩

instance (token : Token) : (stack : List Number) → Decidable (token.Rounds stack)
  | b :: a :: _ => inferInstanceAs (Decidable (token.IsSign "/" ∧ a.EndlessOver b))
  | [_] => .isFalse id
  | [] => .isFalse id

def Environment.withPrecision (env : Environment) (precision : ℕ) : Environment :=
  { env with precision }

section
variable {env : Environment} {token : Token} {program rest : List Token} {stack : List Number}

@[simp] theorem rounds_cons : env.Rounds (token :: rest) stack ↔
    token.Rounds stack ∨ ∃ next, env.step token stack = .ok next ∧ env.Rounds rest next := by
  constructor
  · rintro ⟨done, sign, after, held, hprogram, hdone, hrounds⟩
    obtain ⟨rfl, hhead⟩ | ⟨done, rfl, rfl⟩ := List.cons_eq_append_iff.mp hprogram
    · cases hhead
      cases hdone
      exact .inl hrounds
    · rw [execute_cons] at hdone
      obtain ⟨next, hnext, hdone⟩ := bind_eq_ok hdone
      exact .inr ⟨next, hnext, done, sign, after, held, rfl, hdone, hrounds⟩
  · rintro (hrounds | ⟨next, hnext, done, sign, after, held, rfl, hdone, hrounds⟩)
    · exact ⟨[], token, rest, stack, rfl, rfl, hrounds⟩
    · refine ⟨token :: done, sign, after, held, rfl, ?_, hrounds⟩
      rw [execute_cons, hnext]
      exact hdone

instance decidableRounds (env : Environment) : (program : List Token) → (stack : List Number) →
    Decidable (env.Rounds program stack)
  | [], stack => .isFalse fun ⟨done, token, rest, _, h, _⟩ => by simp at h
  | token :: rest, stack =>
    match hstep : env.step token stack with
    | .ok next =>
      have := decidableRounds env rest next
      decidable_of_iff (token.Rounds stack ∨ env.Rounds rest next) (by simp [hstep])
    | .error _ => decidable_of_iff (token.Rounds stack) (by simp [hstep])

theorem applyBinary_congr {f g : Number → Number → Except NumericError Number}
    (h : ∀ a b held, stack = b :: a :: held → f a b = g a b) :
    applyBinary token f stack = applyBinary token g stack := by
  match stack, h with
  | [], _ => rfl
  | [_], _ => rfl
  | b :: a :: held, h => rw [applyBinary, applyBinary, h a b held rfl]

/-- Among the operations of a sign, only the division knows the precision. -/
theorem binaryOperation_precision {sign : String} (h : sign ≠ "/") (p q : ℕ) :
    binaryOperation? p sign = binaryOperation? q sign := by
  unfold binaryOperation?
  simp only [if_neg h]

theorem step_precision (h : ¬ token.Rounds stack) (q : ℕ) :
    (env.withPrecision q).step token stack = env.step token stack := by
  unfold Environment.step
  split
  next => rfl
  next => rfl
  next => rfl
  next hkind =>
    split
    · rfl
    · by_cases hsign : token.value = "/"
      · have hdivision : ∀ p, binaryOperation? p token.value = some (Number.div p) := by
          rw [hsign]
          exact fun _ => rfl
        rw [hdivision, hdivision]
        refine applyBinary_congr fun a b held hstack => div_precision (fun hendless => h ?_) _ _
        rw [hstack]
        exact ⟨⟨hkind, hsign⟩, hendless⟩
      · rw [binaryOperation_precision hsign (env.withPrecision q).precision env.precision]
  all_goals rfl

theorem execute_precision (h : ¬ env.Rounds program stack) (q : ℕ) :
    (env.withPrecision q).execute program stack = env.execute program stack := by
  induction program generalizing stack with
  | nil => rfl
  | cons token rest ih =>
    rw [rounds_cons, not_or] at h
    obtain ⟨htoken, hrest⟩ := h
    rw [execute_cons, execute_cons, step_precision htoken]
    cases hstep : env.step token stack with
    | error e => rfl
    | ok next => exact ih fun hrounds => hrest ⟨next, hstep, hrounds⟩

theorem evaluate_precision (h : ¬ env.Rounds program []) (q : ℕ) :
    (env.withPrecision q).evaluate program = env.evaluate program := by
  rw [Environment.evaluate, Environment.evaluate, execute_precision h]

end

def Session.withPrecision (s : Session) (precision : ℕ) : Session :=
  { s with precision }

section
variable {s : Session} {e : Expression} {source : String} {q : ℕ}

@[simp] theorem assign_precision (s : Session) (e : Expression) (x : Number) (q : ℕ) :
    (s.withPrecision q).assign e x = (s.assign e x).map (·.withPrecision q) := by
  cases htarget : e.target with
  | none => simp [Session.assign, htarget]
  | some target =>
    by_cases hname : isName target.value = true
    · rw [assign_named htarget hname, assign_named htarget hname]
      rfl
    · simp [assign_misnamed htarget hname]

theorem run_precision (hp : s.precision ≤ maxPrecision) (hq : q ≤ maxPrecision)
    (h : ¬ s.environment.Rounds e.program []) :
    (s.withPrecision q).run e = (s.run e).map fun (next, x) => (next.withPrecision q, x) := by
  have hvalue : (s.withPrecision q).evaluate e = s.evaluate e := by
    rw [evaluate_eq (s := s.withPrecision q) hq, evaluate_eq hp]
    exact congrArg _ (evaluate_precision h q)
  unfold Session.run
  rw [hvalue]
  cases s.evaluate e with
  | error error => rfl
  | ok x =>
    simp
    cases s.assign e x <;> rfl

end

/-- The precision of a session matters for endless quotients of naturals and decimals only. The
power of a decimal and the root of a square are the same when they are written at any precision; and
if a resolution comes to no endless quotient, it comes to the same number or the same error and
leaves the same variables at every precision that decimal arithmetic allows. -/
theorem precision_only_for_endless :
    (∀ (precision : ℕ) (d : Decimal) (n : ℕ),
      Decimal.ofRat? precision (d.toRat ^ n) = some (d.pow n)) ∧
    (∀ precision n r, 0 ≤ (Number.natural n).toRat → exactRoot? (Number.natural n).toRat = some r →
      ∃ x, Number.ofRat precision r = .ok x ∧ squareRoot (.natural n) = .ok x) ∧
    (∀ precision d r, 0 ≤ (Number.decimal d).toRat → exactRoot? (Number.decimal d).toRat = some r →
      ∃ x, Number.ofRat precision r = .ok x ∧ squareRoot (.decimal d) = .ok x.widened) ∧
    ∀ (s : Session) (q : ℕ), s.precision ≤ maxPrecision → q ≤ maxPrecision →
      (∀ e : Expression, ¬ s.environment.Rounds e.program [] →
        (s.withPrecision q).run e = (s.run e).map fun (next, x) => (next.withPrecision q, x)) ∧
      ∀ source, (∀ e, Expression.parse source = .ok e → ¬ s.environment.Rounds e.program []) →
        (s.withPrecision q).resolve source =
          (s.resolve source).map fun (next, x) => (next.withPrecision q, x) := by
  refine ⟨ofRat_pow, fun precision n r h hr => squareRoot_natural h hr precision,
    fun precision d r h hr => squareRoot_decimal h hr precision,
    fun s q hp hq => ⟨fun e => run_precision hp hq, fun source hfinite => ?_⟩⟩
  unfold Session.resolve
  cases hparse : Expression.parse source with
  | error e => rfl
  | ok e => exact run_precision hp hq (hfinite e hparse)

/-- A session with four digits in which `x` is 1.5. -/
def shortSession : Session :=
  ⟨4, [("x", .decimal ⟨false, 15, -1⟩)]⟩

/-- The processed text `r = sqrt(0.04)*x^3/8`. -/
def endingExpression : Expression :=
  ⟨"r = sqrt(0.04)*x^3/8", [.written .number "0.04" 9, ⟨.call, "sqrt", "sqrt",
      ⟨⟨1, 5, 4⟩, ⟨1, 15, 14⟩⟩, 1⟩, .written .identifier "x" 15, .written .number "3" 17,
      .written .operator "^" 16, .written .operator "*" 14, .written .number "8" 19,
      .written .operator "/" 18], some (.written .identifier "r" 0)⟩

/-- The processed text `x/7`. -/
def endlessExpression : Expression :=
  ⟨"x/7", [.written .identifier "x" 0, .written .number "7" 2, .written .operator "/" 1], none⟩

theorem endingExpression_precise :
    (∀ precision, ∃ x, Number.ofRat precision 3 = .ok x ∧ squareRoot (.natural 9) = .ok x) ∧
      (∀ precision, ∃ x, Number.ofRat precision (1 / 5) = .ok x ∧
        squareRoot (.decimal ⟨false, 4, -2⟩) = .ok x.widened) ∧
      Expression.parse "r = sqrt(0.04)*x^3/8" = .ok endingExpression ∧
      shortSession.precision ≤ maxPrecision ∧
      ¬ shortSession.environment.Rounds endingExpression.program [] ∧
      shortSession.environment.Rounds endlessExpression.program [] ∧
      (shortSession.run endingExpression).toOption.map (·.2) =
        some (.decimal ⟨false, 84375, -6⟩) ∧
      ∀ q ≤ maxPrecision,
        (shortSession.withPrecision q).run endingExpression =
          ((shortSession.run endingExpression).map fun (next, x) => (next.withPrecision q, x)) ∧
        (shortSession.withPrecision q).resolve "r = sqrt(0.04)*x^3/8" =
          (shortSession.resolve "r = sqrt(0.04)*x^3/8").map fun (next, x) =>
            (next.withPrecision q, x) := by
  have hparse : Expression.parse "r = sqrt(0.04)*x^3/8" = .ok endingExpression := by
    decide +kernel
  have hp : shortSession.precision ≤ maxPrecision := by decide
  have hfinite : ¬ shortSession.environment.Rounds endingExpression.program [] := by
    decide +kernel
  have hread : ∀ e, Expression.parse "r = sqrt(0.04)*x^3/8" = .ok e →
      ¬ shortSession.environment.Rounds e.program [] := by
    intro e he
    rw [hparse] at he
    cases he
    exact hfinite
  obtain ⟨_, hnatural, hdecimal, hruns⟩ := precision_only_for_endless
  refine ⟨fun precision => hnatural precision 9 3 (by decide +kernel) (by decide +kernel),
    fun precision => hdecimal precision ⟨false, 4, -2⟩ (1 / 5) (by decide +kernel)
      (by decide +kernel),
    hparse, hp, hfinite, by decide +kernel, by decide +kernel, fun q hq => ?_⟩
  obtain ⟨hrun, hresolve⟩ := hruns shortSession q hp hq
  exact ⟨hrun _ hfinite, hresolve _ hread⟩

end Reckoner
