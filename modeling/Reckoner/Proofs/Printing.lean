import Reckoner.Proofs.Exactness
import Reckoner.Proofs.Scanning
import Reckoner.Proofs.SizeOrder

namespace Reckoner

theorem isPlainDigit_of_mem_natChars {n : ℕ} {c : Char} (h : c ∈ natChars n) :
    isPlainDigit c = true := by
  rw [natChars_eq] at h
  have hdigit := Nat.isDigit_of_mem_toDigits (by decide) (by decide) h
  simp only [Char.isDigit, Bool.and_eq_true, decide_eq_true_eq] at hdigit
  simp only [isPlainDigit, Bool.and_eq_true, decide_eq_true_eq]
  exact hdigit

@[simp] theorem natChars_ne_nil (n : ℕ) : natChars n ≠ [] := by
  rw [natChars_eq]
  exact Nat.toDigits_ne_nil

@[simp] theorem ofDigitChars_natChars (n : ℕ) : Nat.ofDigitChars 10 (natChars n) 0 = n := by
  rw [natChars_eq]
  exact Nat.ofDigitChars_ten_toDigits

theorem isPlainDigit_of_mem_zeros {k : ℕ} {c : Char} (h : c ∈ List.replicate k '0') :
    isPlainDigit c = true := by
  rw [List.eq_of_mem_replicate h]
  decide

def signChars (negative : Bool) : List Char :=
  if negative then ['-'] else []

/-- Digits, with or without a point after the first of them, and the number that they are the text
of behind a minus sign or without one. -/
inductive Literal : List Char → (Bool → Number) → Prop
  | whole {digits : List Char} (hne : digits ≠ []) (h : ∀ c ∈ digits, isPlainDigit c = true) :
      Literal digits fun negative => .natural (withSign negative (Nat.ofDigitChars 10 digits 0))
  | pointed {digits decimals : List Char} (hne : digits ≠ [])
      (h : ∀ c ∈ digits, isPlainDigit c = true)
      (hdecimals : ∀ c ∈ decimals, isPlainDigit c = true) :
      Literal (digits ++ '.' :: decimals) fun negative =>
        .decimal ⟨negative, Nat.ofDigitChars 10 (digits ++ decimals) 0, -(decimals.length : ℤ)⟩

section
variable {body : List Char} {value : Bool → Number}

theorem Literal.isLiteral (h : Literal body value) : IsLiteral body := by
  cases h with
  | whole hne h =>
    obtain ⟨d, ds, rfl⟩ := List.exists_cons_of_ne_nil hne
    exact .whole h
  | pointed hne h hdecimals =>
    obtain ⟨d, ds, rfl⟩ := List.exists_cons_of_ne_nil hne
    exact .pointed h hdecimals

theorem Literal.takeSign (h : Literal body value) (negative : Bool) :
    takeSign (signChars negative ++ body) = (negative, body) := by
  cases negative with
  | true => rfl
  | false =>
    cases h with
    | whole hne h | pointed hne h _ =>
      obtain ⟨d, ds, rfl⟩ := List.exists_cons_of_ne_nil hne
      exact takeSign_of_digit _ (h d (by simp))

theorem Literal.ofChars (h : Literal body value) (negative : Bool) :
    Number.ofChars? (signChars negative ++ body) = some (value negative) := by
  have hsign := h.takeSign negative
  have hliteral := isUnsignedLiteral_of_isLiteral h.isLiteral
  cases h with
  | whole _ h => exact ofChars_of_digits hsign hliteral h
  | pointed _ h hdecimals => exact ofChars_of_point hsign hliteral h hdecimals

theorem Literal.toRat_neg (h : Literal body value) :
    (value false).neg.toRat = (value true).toRat := by
  cases h with
  | whole => rfl
  | pointed =>
    rw [Number.neg, Number.toRat, Reckoner.toRat_neg, ← toRat_flip]
    rfl

end

section
variable {s : Session} {body : List Char} {value : Bool → Number}

theorem Literal.eval_number (h : Literal body value) (p : Position) (env : Environment) :
    (Tree.number (wordToken .number body p) rfl).eval env = .ok (value false) := by
  have hvalue : (wordToken .number body p).value = String.ofList body := by
    rw [wordToken, plainSpelling_literal h.isLiteral]
    rfl
  have hread : Number.ofText? (String.ofList body) = some (value false) := by
    rw [Number.ofText?, String.toList_ofList]
    exact h.ofChars false
  simp only [Tree.eval, hvalue, hread]

theorem Literal.resolve (h : Literal body value) (hp : s.precision ≤ maxPrecision)
    (negative : Bool) :
    ∃ y, s.resolve (String.ofList (signChars negative ++ body)) = .ok (s, y) ∧
      y.toRat = (value negative).toRat := by
  have hbody : ∀ p, ∃ stop, Lexes p body [wordToken .number body p, stop] ∧
      stop.kind = .endOfInput := by
    intro p
    have hlexes := Lexes.word (.number h.isLiteral) (endsBefore_nil .number)
      (.stop (p.advance body))
    rw [List.append_nil] at hlexes
    exact ⟨_, hlexes, rfl⟩
  cases negative with
  | false =>
    obtain ⟨stop, hlexes, hstop⟩ := hbody .start
    have hsentence : Sentence false [wordToken .number body .start, stop] none _ :=
      .expression (.loosen (by decide) (.number _ rfl)) hstop
    exact ⟨value false, resolve_of_eval hp (tokenize_of_lexes (String.toList_ofList) hlexes)
      hsentence (h.eval_number _ _), rfl⟩
  | true =>
    obtain ⟨stop, hlexes, hstop⟩ := hbody (Position.start.advance ['-'])
    have hminus : (wordToken .operator ['-'] .start).IsSign "-" := by decide
    have hall : Lexes .start (['-'] ++ body) _ :=
      .word (.operator (by decide)) (fun _ _ => trivial) hlexes
    have hsentence : Sentence false (wordToken .operator ['-'] .start ::
        [wordToken .number body (Position.start.advance ['-'])] ++ [stop]) none _ :=
      .expression
        (.loosen (by decide) (.negation hminus (.loosen (by decide) (.number _ rfl)))) hstop
    refine ⟨(value false).neg, resolve_of_eval hp (tokenize_of_lexes (String.toList_ofList) hall)
      hsentence ?_, h.toRat_neg⟩
    rw [Tree.eval, h.eval_number]
    rfl

end

theorem intChars_eq (n : ℤ) : intChars n = signChars (decide (n < 0)) ++ natChars n.natAbs := by
  unfold intChars signChars
  by_cases h : n < 0 <;> simp [h]

def Decimal.unsignedChars (d : Decimal) : List Char :=
  if d.exponent ≥ 0 then
    natChars d.coefficient ++ (if d.isZero then [] else List.replicate d.exponent.toNat '0')
  else
    let places := d.exponent.natAbs
    let padded := List.replicate (places + 1 - (natChars d.coefficient).length) '0' ++
      natChars d.coefficient
    padded.take (padded.length - places) ++ '.' :: padded.drop (padded.length - places)

theorem Decimal.toChars_eq (d : Decimal) :
    d.toChars = signChars d.negative ++ d.unsignedChars := by
  unfold Decimal.toChars
  cases d.negative <;> rfl

/-- Written directly or as a decimal, an integer has the same text. -/
theorem integerText_eq (n : ℤ) : integerText n = intText n := by
  have hdecimal : (Decimal.ofInt n).toText = intText n := by
    have hzeros : (Decimal.ofInt n).unsignedChars = natChars n.natAbs := by
      unfold Decimal.unsignedChars Decimal.ofInt
      simp
    rw [Decimal.toText, Decimal.toChars_eq, hzeros, intText, intChars_eq]
    rfl
  rw [integerText, hdecimal, ite_self]

/-- A natural, or a decimal with at least one decimal. -/
def Number.KeepsForm : Number → Prop
  | .natural _ => True
  | .decimal d => d.exponent < 0
  | .float _ => False

instance (x : Number) : Decidable x.KeepsForm :=
  match x with
  | .natural _ => inferInstanceAs (Decidable True)
  | .decimal d => inferInstanceAs (Decidable (d.exponent < 0))
  | .float _ => inferInstanceAs (Decidable False)

/-- The digits that the text of a number has behind its sign. -/
structure WrittenBy (x : Number) (negative : Bool) (body : List Char) (value : Bool → Number) :
    Prop where
  text : x.toText = String.ofList (signChars negative ++ body)
  literal : Literal body value
  size : (value negative).toRat = x.toRat
  form : x.KeepsForm → value negative = x

theorem natural_written (n : ℤ) : ∃ negative body value,
    WrittenBy (.natural n) negative body value := by
  have hvalue : withSign (decide (n < 0)) (Nat.ofDigitChars 10 (natChars n.natAbs) 0) = n := by
    rw [ofDigitChars_natChars]
    unfold withSign
    by_cases h : n < 0
    · rw [decide_eq_true h, if_pos rfl]
      omega
    · rw [decide_eq_false h, if_neg (by decide)]
      omega
  refine ⟨decide (n < 0), natChars n.natAbs, _, ?_, .whole (natChars_ne_nil _)
    (fun _ => isPlainDigit_of_mem_natChars), ?_, fun _ => ?_⟩
  · rw [Number.toText, integerText_eq, intText, intChars_eq]
  · simp only [hvalue]
  · simp only [hvalue]

/-- A decimal without decimals is written with zeros after its digits, zero aside. -/
theorem whole_written {d : Decimal} (h : 0 ≤ d.exponent) : ∃ negative body value,
    WrittenBy (.decimal d) negative body value := by
  obtain ⟨k, hk⟩ : ∃ k : ℕ, d.exponent = k := ⟨d.exponent.toNat, by omega⟩
  let zeros := if d.isZero then [] else List.replicate d.exponent.toNat '0'
  have hzeros : ∀ c ∈ zeros, isPlainDigit c = true := by
    intro c hc
    simp only [zeros] at hc
    split at hc
    · cases hc
    · exact isPlainDigit_of_mem_zeros hc
  have hbody : d.unsignedChars = natChars d.coefficient ++ zeros := if_pos h
  have hvalue : Nat.ofDigitChars 10 (natChars d.coefficient ++ zeros) 0 =
      d.coefficient * 10 ^ k := by
    rw [Nat.ofDigitChars_append, ofDigitChars_natChars]
    simp only [zeros]
    split
    next hzero =>
      have hnone : d.coefficient = 0 := of_decide_eq_true hzero
      rw [Nat.ofDigitChars_nil, hnone, zero_mul]
    next =>
      rw [Nat.ofDigitChars_replicate_zero, hk, Int.toNat_natCast, mul_comm]
  refine ⟨d.negative, natChars d.coefficient ++ zeros, _, ?_, .whole (by simp)
    (List.forall_mem_append.mpr ⟨fun _ => isPlainDigit_of_mem_natChars, hzeros⟩), ?_,
    fun hform => absurd hform (not_lt.mpr h)⟩
  · rw [Number.toText, Decimal.toText, Decimal.toChars_eq, hbody]
  · have hsigned : d.signed = withSign d.negative d.coefficient := rfl
    rw [hvalue, Number.toRat, Number.toRat, Decimal.toRat_eq, hsigned, hk, zpow_natCast]
    cases d.negative with
    | true => simp [withSign]
    | false => simp [withSign]

/-- Other decimals are written with as many digits after the point as they have decimals, and with
at least one before it. -/
theorem unsignedChars_pointed {d : Decimal} {places : ℕ} (hneg : d.exponent < 0)
    (hplaces : d.exponent = -(places : ℤ)) :
    ∃ digits decimals, d.unsignedChars = digits ++ '.' :: decimals ∧ digits ≠ [] ∧
      decimals.length = places ∧ (∀ c ∈ digits ++ decimals, isPlainDigit c = true) ∧
      Nat.ofDigitChars 10 (digits ++ decimals) 0 = d.coefficient := by
  let zeros := List.replicate (places + 1 - (natChars d.coefficient).length) '0'
  let padded := zeros ++ natChars d.coefficient
  have habs : d.exponent.natAbs = places := by omega
  have hlong : places + 1 ≤ padded.length := by
    simp only [padded, zeros, List.length_append, List.length_replicate]
    omega
  refine ⟨padded.take (padded.length - places), padded.drop (padded.length - places),
    ?_, ?_, ?_, ?_, ?_⟩
  · rw [Decimal.unsignedChars, if_neg (not_le.mpr hneg), habs]
  · refine List.ne_nil_of_length_pos ?_
    rw [List.length_take]
    omega
  · rw [List.length_drop]
    omega
  · rw [List.take_append_drop]
    exact List.forall_mem_append.mpr ⟨fun _ => isPlainDigit_of_mem_zeros,
      fun _ => isPlainDigit_of_mem_natChars⟩
  · rw [List.take_append_drop, Nat.ofDigitChars_append, Nat.ofDigitChars_replicate_zero, mul_zero,
      ofDigitChars_natChars]

theorem pointed_written {d : Decimal} (h : d.exponent < 0) : ∃ negative body value,
    WrittenBy (.decimal d) negative body value := by
  obtain ⟨places, hplaces⟩ : ∃ places : ℕ, d.exponent = -(places : ℤ) :=
    ⟨d.exponent.natAbs, by omega⟩
  obtain ⟨digits, decimals, hbody, hne, hlength, hplain, hvalue⟩ :=
    unsignedChars_pointed h hplaces
  obtain ⟨hdigits, hdecimals⟩ := List.forall_mem_append.mp hplain
  have hsame : Decimal.mk d.negative (Nat.ofDigitChars 10 (digits ++ decimals) 0)
      (-(decimals.length : ℤ)) = d := by
    rw [hvalue, hlength, ← hplaces]
  refine ⟨d.negative, _, _, ?_, .pointed hne hdigits hdecimals, ?_, fun _ => ?_⟩
  · rw [Number.toText, Decimal.toText, Decimal.toChars_eq, hbody]
  · rw [hsame]
  · rw [hsame]

theorem exact_written {x : Number} (h : x.kind ≠ .float) : ∃ negative body value,
    WrittenBy x negative body value := by
  cases x with
  | natural n => exact natural_written n
  | decimal d =>
    by_cases hexponent : d.exponent < 0
    · exact pointed_written hexponent
    · exact whole_written (not_lt.mp hexponent)
  | float y => exact absurd rfl h

/-- The text of a natural or a decimal is read as a number equal to it, of the same form where it is
natural or has decimals; and it resolves in every session to a number equal to it. -/
theorem printing_faithful {x : Number} (hx : x.kind ≠ .float) :
    (∃ y, Number.ofText? x.toText = some y ∧ y.equals x = true ∧ (x.KeepsForm → y = x)) ∧
    ∀ s : Session, s.precision ≤ maxPrecision →
      ∃ y, s.resolve x.toText = .ok (s, y) ∧ y.equals x = true := by
  obtain ⟨negative, body, value, htext, hliteral, hsize, hform⟩ := exact_written hx
  constructor
  · refine ⟨value negative, ?_, Number.equals_iff.mpr hsize, hform⟩
    rw [htext, Number.ofText?, String.toList_ofList]
    exact hliteral.ofChars negative
  · intro s hp
    obtain ⟨y, hy, hvalue⟩ := hliteral.resolve hp negative
    exact ⟨y, htext ▸ hy, Number.equals_iff.mpr (hvalue.trans hsize)⟩

def smallDecimal : Number :=
  .decimal ⟨true, 5, -3⟩

theorem smallDecimal_printed :
    smallDecimal.kind ≠ .float ∧ smallDecimal.toText = "-0.005" ∧
      Number.ofText? "-0.005" = some smallDecimal ∧ exactSession.precision ≤ maxPrecision ∧
      ∃ y, exactSession.resolve "-0.005" = .ok (exactSession, y) ∧
        y.equals smallDecimal = true := by
  have hkind : smallDecimal.kind ≠ .float := by decide
  have hprecision : exactSession.precision ≤ maxPrecision := by decide
  have htext : smallDecimal.toText = "-0.005" := by decide +kernel
  have hkeeps : smallDecimal.KeepsForm := by decide
  obtain ⟨⟨y, hy, _, hform⟩, hresolve⟩ := printing_faithful hkind
  rw [htext] at hy hresolve
  rw [hform hkeeps] at hy
  exact ⟨hkind, htext, hy, hprecision, hresolve exactSession hprecision⟩

/-- A session that is created with a precision beyond the largest one, and resolves nothing. -/
theorem wideSession_refuses :
    Session.create 1000000000000000000 [] = .ok ⟨1000000000000000000, []⟩ ∧
      (Number.natural 1).toText = "1" ∧
      (⟨1000000000000000000, []⟩ : Session).resolve "1" =
        .error (.evaluation (.fault .precisionTooLarge)) := by
  have hparse : Expression.parse "1" = .ok ⟨"1", [.written .number "1" 0], none⟩ :=
    eq_ok_of_toOption (by decide +kernel)
  refine ⟨rfl, by decide +kernel, ?_⟩
  rw [Session.resolve, hparse]
  rfl

end Reckoner
