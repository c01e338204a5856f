import Mathlib
import Reckoner.Proofs.Conversion
import Reckoner.Proofs.ExactArithmetic
import Reckoner.Proofs.Literals
import Reckoner.Proofs.TreeEvaluation
import Reckoner.Session

namespace Reckoner

/-- The value of digits with at most one point among them: the digits before the point and, divided
by a power of ten, those after it. -/
def unsignedValue (body : List Char) : ℚ :=
  let whole := body.takeWhile (· ≠ '.')
  let decimals := (body.dropWhile (· ≠ '.')).drop 1
  Nat.ofDigitChars 10 whole 0 + Nat.ofDigitChars 10 decimals 0 / 10 ^ decimals.length

def literalValue (text : String) : ℚ :=
  let (negative, body) := takeSign text.toList
  if negative then -unsignedValue body else unsignedValue body

section
variable {whole decimals : List Char}

theorem unsignedValue_digits (h : ∀ c ∈ whole, isPlainDigit c = true) :
    unsignedValue whole = Nat.ofDigitChars 10 whole 0 := by
  have hsplit := takeWhile_point_append h []
  rw [List.append_nil] at hsplit
  unfold unsignedValue
  rw [hsplit.1, hsplit.2]
  simp

theorem unsignedValue_point (h : ∀ c ∈ whole, isPlainDigit c = true) :
    unsignedValue (whole ++ '.' :: decimals) =
      Nat.ofDigitChars 10 (whole ++ decimals) 0 / 10 ^ decimals.length := by
  have hsplit := takeWhile_point_append h ('.' :: decimals)
  have hpow : (10 : ℚ) ^ decimals.length ≠ 0 := by positivity
  unfold unsignedValue
  rw [hsplit.1, hsplit.2, Nat.ofDigitChars_append, Nat.ofDigitChars_eq_ofDigitChars_zero]
  simp only [ne_eq, decide_not, List.takeWhile_cons, List.dropWhile_cons, decide_true,
    Bool.not_true, Bool.false_eq_true, if_false, List.append_nil, List.drop_one, List.tail_cons]
  push_cast
  rw [add_div, mul_div_cancel_left₀ _ hpow]

end

theorem toRat_places (negative : Bool) (n k : ℕ) :
    (Decimal.mk negative n (-(k : ℤ))).toRat =
      if negative then -((n : ℚ) / 10 ^ k) else (n : ℚ) / 10 ^ k := by
  rw [Decimal.toRat_eq, zpow_neg, zpow_natCast, ← div_eq_mul_inv]
  unfold Decimal.signed
  cases negative with
  | true => simp [neg_div]
  | false => simp

theorem literal_denotes {text : String} {x : Number} (h : Number.ofText? text = some x) :
    x.Denotes (literalValue text) := by
  unfold literalValue
  cases hsign : takeSign text.toList with
  | mk negative body =>
    show x.Denotes (if negative then -unsignedValue body else unsignedValue body)
    have hliteral : isUnsignedLiteral body = true := isUnsignedLiteral_of_ofChars h hsign
    obtain hdigits | ⟨whole, decimals, rfl, hwhole, hdecimals⟩ := unsignedLiteral_cases hliteral
    · have hvalue : ((withSign negative (Nat.ofDigitChars 10 body 0) : ℤ) : ℚ) =
          if negative then -unsignedValue body else unsignedValue body := by
        rw [unsignedValue_digits hdigits]
        cases negative <;> simp [withSign]
      rw [Number.ofText?, ofChars_of_digits hsign hliteral hdigits] at h
      cases h
      rw [← hvalue]
      exact natural_denotes _
    · rw [Number.ofText?, ofChars_of_point hsign hliteral hwhole hdecimals] at h
      cases h
      rw [unsignedValue_point hwhole]
      exact decimal_denotes (toRat_places negative _ _)

/-- The functions of one argument that have exact values. -/
inductive ExactUnary : String → (ℚ → ℚ) → Prop
  | abs : ExactUnary "abs" fun q => |q|
  | floor : ExactUnary "floor" fun q => (⌊q⌋ : ℤ)
  | ceil : ExactUnary "ceil" fun q => (⌈q⌉ : ℤ)
  | round : ExactUnary "round" fun q => (nearest q : ℤ)

/-- The functions of two arguments that have exact values whatever the arguments are. -/
inductive ExactBinary : String → (ℚ → ℚ → ℚ) → Prop
  | max : ExactBinary "max" max
  | min : ExactBinary "min" min

/-- The exact value of an expression, for values of its names. Divisors are not zero and quotients
have a finite expansion; exponents and the operands of factorials are natural numbers, and the power
of zero to zero is one. -/
inductive Exact (values : String → Option ℚ) : Tree → ℚ → Prop
  | number {token : Token} (hk : token.kind = .number) :
      Exact values (.number token hk) (literalValue token.value)
  | name {token : Token} {q : ℚ} (hk : token.kind = .identifier) :
      values token.value = some q → Exact values (.name token hk) q
  | negation {sign : Token} {operand : Tree} {q : ℚ} (hs : sign.IsSign "-") :
      Exact values operand q → Exact values (.negation sign hs operand) (-q)
  | factorial {sign : Token} {operand : Tree} {n : ℕ} (hs : sign.IsSign "!") :
      Exact values operand n → Exact values (.factorial sign hs operand) (n.factorial : ℕ)
  | sum {sign : Token} {left right : Tree} {p q : ℚ} (hs : sign.IsSign BinarySign.plus.text) :
      Exact values left p → Exact values right q →
      Exact values (.binary .plus sign hs left right) (p + q)
  | difference {sign : Token} {left right : Tree} {p q : ℚ}
      (hs : sign.IsSign BinarySign.minus.text) : Exact values left p → Exact values right q →
      Exact values (.binary .minus sign hs left right) (p - q)
  | product {sign : Token} {left right : Tree} {p q : ℚ}
      (hs : sign.IsSign BinarySign.times.text) : Exact values left p → Exact values right q →
      Exact values (.binary .times sign hs left right) (p * q)
  | quotient {sign : Token} {left right : Tree} {p q : ℚ}
      (hs : sign.IsSign BinarySign.over.text) : Exact values left p → Exact values right q →
      q ≠ 0 → FiniteDecimal (p / q) → Exact values (.binary .over sign hs left right) (p / q)
  | power {sign : Token} {left right : Tree} {p : ℚ} {n : ℕ}
      (hs : sign.IsSign BinarySign.power.text) : Exact values left p → Exact values right n →
      Exact values (.binary .power sign hs left right) (p ^ n)
  | unaryCall {callee closing : Token} {arg : Tree} {f : ℚ → ℚ} {q : ℚ}
      (hn : callee.kind = .identifier) (hc : closing.kind = .closeParen) :
      ExactUnary callee.value f → Exact values arg q →
      Exact values (.call callee closing hn hc [arg]) (f q)
  | binaryCall {callee closing : Token} {left right : Tree} {f : ℚ → ℚ → ℚ} {p q : ℚ}
      (hn : callee.kind = .identifier) (hc : closing.kind = .closeParen) :
      ExactBinary callee.value f → Exact values left p → Exact values right q →
      Exact values (.call callee closing hn hc [left, right]) (f p q)
  | powerCall {callee closing : Token} {left right : Tree} {p : ℚ} {n : ℕ}
      (hn : callee.kind = .identifier) (hc : closing.kind = .closeParen) :
      callee.value = "pow" → Exact values left p → Exact values right n →
      Exact values (.call callee closing hn hc [left, right]) (p ^ n)

/-- The evaluation of the tree comes to a sum, difference or product of decimals that needs more
digits than decimals hold. -/
inductive Tree.LosesDigits (env : Environment) : Tree → Prop
  | binary {op : BinarySign} {sign : Token} {hs : sign.IsSign op.text} {left right : Tree}
      {a b : Number} {g : ℚ → ℚ → ℚ} : ExactSign op g → left.eval env = .ok a →
      right.eval env = .ok b → a.DecimalPair b → ¬ exactContext.Holds (g a.toRat b.toRat) →
      LosesDigits env (.binary op sign hs left right)
  | left {op : BinarySign} {sign : Token} {hs : sign.IsSign op.text} {left right : Tree} :
      LosesDigits env left → LosesDigits env (.binary op sign hs left right)
  | right {op : BinarySign} {sign : Token} {hs : sign.IsSign op.text} {left right : Tree} :
      LosesDigits env right → LosesDigits env (.binary op sign hs left right)
  | negation {sign : Token} {hs : sign.IsSign "-"} {operand : Tree} :
      LosesDigits env operand → LosesDigits env (.negation sign hs operand)
  | factorial {sign : Token} {hs : sign.IsSign "!"} {operand : Tree} :
      LosesDigits env operand → LosesDigits env (.factorial sign hs operand)
  | call {callee closing : Token} {hn : callee.kind = .identifier}
      {hc : closing.kind = .closeParen} {args : List Tree} {arg : Tree} : arg ∈ args →
      LosesDigits env arg → LosesDigits env (.call callee closing hn hc args)

theorem combined_denotes {env : Environment} {op : BinarySign} {sign : Token}
    {hs : sign.IsSign op.text} {left right : Tree} {g : ℚ → ℚ → ℚ} {p q : ℚ} {x : Number}
    (hop : ExactSign op g) (hkept : ¬ (Tree.binary op sign hs left right).LosesDigits env)
    (hleft : ∀ {y}, left.eval env = .ok y → y.Denotes p)
    (hright : ∀ {z}, right.eval env = .ok z → z.Denotes q)
    (h : (Tree.binary op sign hs left right).eval env = .ok x) : x.Denotes (g p q) := by
  obtain ⟨y, z, hy, hz, hresult⟩ := eval_binary h
  refine (hop.combines env.precision).denotes (hleft hy) (hright hz) (fun hpair => ?_) hresult
  by_contra hlost
  rw [← (hleft hy).2, ← (hright hz).2] at hlost
  exact hkept (.binary hop hy hz hpair hlost)

theorem unaryCall_denotes {name : String} {f : ℚ → ℚ} {span : Span} {x y : Number} {q : ℚ}
    (hf : ExactUnary name f) (hx : x.Denotes q) (h : callValue name span [x] = .ok y) :
    y.Denotes (f q) := by
  cases hf with
  | abs =>
    cases h
    exact abs_denotes hx
  | floor =>
    cases h
    exact floor_denotes hx
  | ceil =>
    cases h
    exact ceil_denotes hx
  | round =>
    cases h
    exact round_denotes hx

theorem binaryCall_denotes {name : String} {f : ℚ → ℚ → ℚ} {span : Span} {x y z : Number}
    {p q : ℚ} (hf : ExactBinary name f) (hx : x.Denotes p) (hy : y.Denotes q)
    (h : callValue name span [x, y] = .ok z) : z.Denotes (f p q) := by
  cases hf with
  | max =>
    cases h
    exact max_denotes hx hy
  | min =>
    cases h
    exact min_denotes hx hy

theorem powerCall_denotes {span : Span} {x y z : Number} {p : ℚ} {n : ℕ} (hx : x.Denotes p)
    (hy : y.Denotes n) (h : callValue "pow" span [x, y] = .ok z) : z.Denotes (p ^ n) := by
  have hpow : (x.pow y).mapError (NumericError.at span) = .ok z := h
  exact pow_denotes hx hy (mapError_eq_ok hpow)

theorem eval_call_one {env : Environment} {callee closing : Token} {hn : callee.kind = .identifier}
    {hc : closing.kind = .closeParen} {arg : Tree} {x : Number}
    (h : (Tree.call callee closing hn hc [arg]).eval env = .ok x) :
    ∃ y, arg.eval env = .ok y ∧
      callValue callee.value ⟨callee.span.start, closing.span.stop⟩ [y] = .ok x := by
  obtain ⟨xs, hxs, h⟩ := eval_call h
  obtain ⟨y, ys, hy, hys, rfl⟩ := evalAll_cons hxs
  cases hys
  exact ⟨y, hy, h⟩

theorem eval_call_two {env : Environment} {callee closing : Token} {hn : callee.kind = .identifier}
    {hc : closing.kind = .closeParen} {left right : Tree} {x : Number}
    (h : (Tree.call callee closing hn hc [left, right]).eval env = .ok x) :
    ∃ y z, left.eval env = .ok y ∧ right.eval env = .ok z ∧
      callValue callee.value ⟨callee.span.start, closing.span.stop⟩ [y, z] = .ok x := by
  obtain ⟨xs, hxs, h⟩ := eval_call h
  obtain ⟨y, ys, hy, hys, rfl⟩ := evalAll_cons hxs
  obtain ⟨z, zs, hz, hzs, rfl⟩ := evalAll_cons hys
  cases hzs
  exact ⟨y, z, hy, hz, h⟩

/-- The environment gives every name the number of its exact value. -/
def Environment.Agrees (env : Environment) (values : String → Option ℚ) : Prop :=
  ∀ name q, values name = some q → ∃ x, env.lookup name = some x ∧ x.Denotes q

theorem eval_denotes {env : Environment} {values : String → Option ℚ} (henv : env.Agrees values)
    {tree : Tree} {q : ℚ} (hexact : Exact values tree q) :
    ¬ tree.LosesDigits env → ∀ {x : Number}, tree.eval env = .ok x → x.Denotes q := by
  induction hexact with
  | @number token hk =>
    intro _ x h
    rw [Tree.eval] at h
    cases hx : Number.ofText? token.value with
    | none =>
      rw [hx] at h
      cases h
    | some y =>
      rw [hx] at h
      cases h
      exact literal_denotes hx
  | @name token q hk hq =>
    intro _ x h
    obtain ⟨y, hy, hdenotes⟩ := henv token.value q hq
    rw [Tree.eval, hy] at h
    cases h
    exact hdenotes
  | negation hs _ ih =>
    intro hkept x h
    rw [Tree.eval] at h
    obtain ⟨y, hy, h⟩ := bind_eq_ok h
    cases h
    exact neg_denotes (ih (fun hlost => hkept (.negation hlost)) hy)
  | factorial hs _ ih =>
    intro hkept x h
    rw [Tree.eval] at h
    obtain ⟨y, hy, h⟩ := bind_eq_ok h
    exact factorial_denotes (ih (fun hlost => hkept (.factorial hlost)) hy) (mapError_eq_ok h)
  | sum hs _ _ ihl ihr =>
    intro hkept x h
    exact combined_denotes .sum hkept (ihl fun hlost => hkept (.left hlost))
      (ihr fun hlost => hkept (.right hlost)) h
  | difference hs _ _ ihl ihr =>
    intro hkept x h
    exact combined_denotes .difference hkept (ihl fun hlost => hkept (.left hlost))
      (ihr fun hlost => hkept (.right hlost)) h
  | product hs _ _ ihl ihr =>
    intro hkept x h
    exact combined_denotes .product hkept (ihl fun hlost => hkept (.left hlost))
      (ihr fun hlost => hkept (.right hlost)) h
  | quotient hs _ _ _ hfinite ihl ihr =>
    intro hkept x h
    obtain ⟨y, z, hy, hz, h⟩ := eval_binary h
    exact div_denotes (ihl (fun hlost => hkept (.left hlost)) hy)
      (ihr (fun hlost => hkept (.right hlost)) hz) hfinite h
  | power hs _ _ ihl ihr =>
    intro hkept x h
    obtain ⟨y, z, hy, hz, h⟩ := eval_binary h
    exact pow_denotes (ihl (fun hlost => hkept (.left hlost)) hy)
      (ihr (fun hlost => hkept (.right hlost)) hz) h
  | unaryCall hn hc hf _ ih =>
    intro hkept x h
    obtain ⟨y, hy, h⟩ := eval_call_one h
    exact unaryCall_denotes hf (ih (fun hlost => hkept (.call (by simp) hlost)) hy) h
  | binaryCall hn hc hf _ _ ihl ihr =>
    intro hkept x h
    obtain ⟨y, z, hy, hz, h⟩ := eval_call_two h
    exact binaryCall_denotes hf (ihl (fun hlost => hkept (.call (by simp) hlost)) hy)
      (ihr (fun hlost => hkept (.call (by simp) hlost)) hz) h
  | powerCall hn hc hname _ _ ihl ihr =>
    intro hkept x h
    obtain ⟨y, z, hy, hz, h⟩ := eval_call_two h
    rw [hname] at h
    exact powerCall_denotes (ihl (fun hlost => hkept (.call (by simp) hlost)) hy)
      (ihr (fun hlost => hkept (.call (by simp) hlost)) hz) h

/-- The exact value of a variable that holds a natural or a decimal. -/
def Session.exactValue? (s : Session) (name : String) : Option ℚ :=
  match s.get? name with
  | some (.natural n) => some n
  | some (.decimal d) => some d.toRat
  | _ => none

theorem environment_agrees (s : Session) : s.environment.Agrees s.exactValue? := by
  intro name q hq
  unfold Session.exactValue? at hq
  split at hq
  next n hn =>
    cases hq
    exact ⟨.natural n, hn, natural_denotes n⟩
  next d hd =>
    cases hq
    exact ⟨.decimal d, hd, decimal_denotes rfl⟩
  next => cases hq

theorem evaluate_of_run {s s' : Session} {e : Expression} {x : Number}
    (h : s.run e = .ok (s', x)) : s.environment.evaluate e.program = .ok x := by
  unfold Session.run at h
  split at h
  next => cases h
  next value hvalue =>
    unfold Session.evaluate at hvalue
    have hx : value = x := by
      split at h
      · cases h
      · cases h
        rfl
    subst hx
    split at hvalue
    · split at hvalue <;> cases hvalue
    · exact mapError_eq_ok hvalue

theorem parse_of_sentence {lenient : Bool} {source : String} {tokens : List Token}
    {target : Option Token} {tree : Tree} (htokens : tokenize source = .ok tokens)
    (h : Sentence lenient tokens target tree) :
    Expression.parse source = .ok ⟨source, tree.postorder, target⟩ := by
  rw [Expression.parse, htokens]
  simp only [ofTokens_of_sentence h source]

/-- An expression without a target resolves to the value of its tree and changes no variable. -/
theorem resolve_of_eval {lenient : Bool} {s : Session} {source : String} {tokens : List Token}
    {tree : Tree} {y : Number} (hp : s.precision ≤ maxPrecision)
    (htokens : tokenize source = .ok tokens) (h : Sentence lenient tokens none tree)
    (heval : tree.eval s.environment = .ok y) : s.resolve source = .ok (s, y) := by
  have hvalue : s.evaluate ⟨source, tree.postorder, none⟩ = .ok y := by
    rw [Session.evaluate, if_neg (Nat.not_lt.mpr hp), evaluate_eq_eval, heval]
    rfl
  rw [Session.resolve, parse_of_sentence htokens h]
  simp only [Session.run, hvalue]
  rfl

/-- Whenever a text with an exact value resolves, it resolves to a natural or a decimal of that
value, unless it comes to a decimal that needs more digits than decimals hold. -/
theorem resolve_exact {lenient : Bool} {s s' : Session} {source : String} {tokens : List Token}
    {target : Option Token} {tree : Tree} {q : ℚ} {x : Number}
    (htokens : tokenize source = .ok tokens) (hsentence : Sentence lenient tokens target tree)
    (hexact : Exact s.exactValue? tree q) (hkept : ¬ tree.LosesDigits s.environment)
    (h : s.resolve source = .ok (s', x)) :
    (x.kind = .natural ∨ x.kind = .decimal) ∧ x.toRat = q := by
  rw [Session.resolve, parse_of_sentence htokens hsentence] at h
  have heval := evaluate_of_run h
  rw [evaluate_eq_eval] at heval
  exact eval_denotes (environment_agrees s) hexact hkept heval

/-- The tree of `round(-x^n)/8`. -/
def roundedPower : Tree :=
  .binary .over (.written .operator "/" 11) (by decide)
    (.call (.written .identifier "round" 0) (.written .closeParen ")" 10) rfl rfl
      [.negation (.written .operator "-" 6) (by decide)
        (.binary .power (.written .operator "^" 8) (by decide)
          (.name (.written .identifier "x" 7) rfl) (.name (.written .identifier "n" 9) rfl))])
    (.number (.written .number "8" 12) rfl)

def roundedPowerTokens : List Token :=
  [.written .identifier "round" 0, .written .openParen "(" 5, .written .operator "-" 6,
   .written .identifier "x" 7, .written .operator "^" 8, .written .identifier "n" 9,
   .written .closeParen ")" 10, .written .operator "/" 11, .written .number "8" 12,
   .written .endOfInput "" 13]

theorem roundedPower_sentence : Sentence false roundedPowerTokens none roundedPower := by
  have hpower : Spells false .power [.written .identifier "x" 7, .written .operator "^" 8,
      .written .identifier "n" 9] _ :=
    .binary .power (by decide) (.loosen (by decide) (.name _ rfl))
      (.loosen (by decide) (.name _ rfl))
  have hargument : Spells false .signed [.written .operator "-" 6, .written .identifier "x" 7,
      .written .operator "^" 8, .written .identifier "n" 9] _ :=
    .negation (by decide) (.loosen (by decide) hpower)
  have hcall : Spells false .primary [.written .identifier "round" 0, .written .openParen "(" 5,
      .written .operator "-" 6, .written .identifier "x" 7, .written .operator "^" 8,
      .written .identifier "n" 9, .written .closeParen ")" 10] _ :=
    .call rfl rfl rfl .nil (.loosen (by decide) hargument)
  have hquotient : Spells false .product _ roundedPower :=
    .binary .over (by decide) (.loosen (by decide) hcall) (.loosen (by decide) (.number _ rfl))
  exact .expression (.loosen (by decide) hquotient) (by rfl)

/-- A session in which `x` is 1.50 and `n` is 3. -/
def exactSession : Session :=
  ⟨28, [("x", .decimal ⟨false, 150, -2⟩), ("n", .natural 3)]⟩

theorem roundedPower_exact : Exact exactSession.exactValue? roundedPower (-3 / 8) := by
  have hx : exactSession.exactValue? (Token.written .identifier "x" 7).value = some (3 / 2) := by
    decide +kernel
  have hn : exactSession.exactValue? (Token.written .identifier "n" 9).value =
      some ((3 : ℕ) : ℚ) := by decide +kernel
  have hnearest : (nearest (-(3 / 2 : ℚ) ^ 3) : ℚ) = -3 := by decide +kernel
  have hliteral : literalValue "8" = 8 := by decide +kernel
  have hfinite : FiniteDecimal ((nearest (-(3 / 2 : ℚ) ^ 3) : ℚ) / literalValue "8") := by
    rw [hnearest, hliteral]
    exact ⟨3, -375, by norm_num⟩
  have hvalue : ((nearest (-(3 / 2 : ℚ) ^ 3) : ℚ) / literalValue "8") = -3 / 8 := by
    rw [hnearest, hliteral]
  have hround : ExactUnary (Token.written .identifier "round" 0).value fun q => (nearest q : ℤ) :=
    .round
  rw [← hvalue]
  refine .quotient _ ?_ (.number _) (by rw [hliteral]; norm_num) hfinite
  exact (Exact.unaryCall _ _ hround (.negation _ (.power _ (.name _ hx) (.name _ hn))) :)

theorem roundedPower_kept (env : Environment) : ¬ roundedPower.LosesDigits env := by
  intro hlost
  cases hlost with
  | binary h _ _ _ _ => cases h
  | left hlost =>
    cases hlost with
    | call hmem hlost =>
      obtain rfl := List.mem_singleton.mp hmem
      cases hlost with
      | negation hlost =>
        cases hlost with
        | binary h _ _ _ _ => cases h
        | left hlost => cases hlost
        | right hlost => cases hlost
  | right hlost => cases hlost

theorem roundedPower_resolved :
    ∃ s x, exactSession.resolve "round(-x^n)/8" = .ok (s, x) ∧
      (x.kind = .natural ∨ x.kind = .decimal) ∧ x.toRat = -3 / 8 := by
  have htokens : tokenize "round(-x^n)/8" = .ok roundedPowerTokens :=
    eq_ok_of_toOption (by decide +kernel)
  have hvalue : ((exactSession.resolve "round(-x^n)/8").map (·.2)).toOption =
      some (.decimal ⟨true, 375, -3⟩) := by decide +kernel
  cases hresolve : exactSession.resolve "round(-x^n)/8" with
  | error e =>
    rw [hresolve] at hvalue
    cases hvalue
  | ok result =>
    exact ⟨result.1, result.2, rfl,
      resolve_exact htokens roundedPower_sentence roundedPower_exact (roundedPower_kept _)
        hresolve⟩

/-- The tree of `x*x`. -/
def square : Tree :=
  .binary .times (.written .operator "*" 1) (by decide) (.name (.written .identifier "x" 0) rfl)
    (.name (.written .identifier "x" 2) rfl)

def squareTokens : List Token :=
  [.written .identifier "x" 0, .written .operator "*" 1, .written .identifier "x" 2,
   .written .endOfInput "" 3]

/-- A session in which `x` is so small that decimals do not hold its square. -/
def minuteSession : Session :=
  ⟨28, [("x", .decimal ⟨false, 1, -1125899906842624000⟩)]⟩

theorem minuteSquare_vanishes :
    tokenize "x*x" = .ok squareTokens ∧ Sentence false squareTokens none square ∧
      ∃ q s x, Exact minuteSession.exactValue? square q ∧ 0 < q ∧
        minuteSession.resolve "x*x" = .ok (s, x) ∧ x.toRat = 0 := by
  have htokens : tokenize "x*x" = .ok squareTokens := eq_ok_of_toOption (by decide +kernel)
  have hproduct : Spells false .product squareTokens.dropLast square :=
    .binary .times (by decide) (.loosen (by decide) (.name _ rfl)) (.loosen (by decide) (.name _ rfl))
  have hsentence : Sentence false squareTokens none square :=
    .expression (.loosen (by decide) hproduct) (by rfl)
  generalize hd : Decimal.mk false 1 (-1125899906842624000) = d
  have hx : minuteSession.exactValue? (Token.written .identifier "x" 0).value = some d.toRat := by
    subst hd
    rfl
  have hpositive : 0 < d.toRat := by
    have hsigned : d.signed = 1 := by
      subst hd
      rfl
    rw [Decimal.toRat_eq, hsigned, Int.cast_one, one_mul]
    exact zpow_pos (by norm_num) _
  have hvalue : ((minuteSession.resolve "x*x").map (·.2)).toOption =
      some (.decimal ⟨false, 0, -1999999999999999997⟩) := by decide +kernel
  cases hresolve : minuteSession.resolve "x*x" with
  | error e =>
    rw [hresolve] at hvalue
    cases hvalue
  | ok result =>
    rw [hresolve] at hvalue
    have hresult : result.2 = .decimal ⟨false, 0, -1999999999999999997⟩ := Option.some.inj hvalue
    refine ⟨htokens, hsentence, d.toRat * d.toRat, result.1, result.2,
      .product _ (.name _ hx) (.name _ hx), mul_pos hpositive hpositive, rfl, ?_⟩
    rw [hresult]
    exact Decimal.toRat_of_isZero rfl

end Reckoner
