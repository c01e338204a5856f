import Mathlib
import Reckoner.Number.Reading
import Reckoner.Proofs.DecimalValue

namespace Reckoner

theorem ne_point_of_isPlainDigit {c : Char} (h : isPlainDigit c = true) : c ≠ '.' := by
  rintro rfl
  exact absurd h (by decide)

/-- A literal is digits, or digits around a point. -/
theorem unsignedLiteral_cases {body : List Char} (h : isUnsignedLiteral body = true) :
    (∀ c ∈ body, isPlainDigit c = true) ∨
      ∃ whole decimals, body = whole ++ '.' :: decimals ∧ (∀ c ∈ whole, isPlainDigit c = true) ∧
        ∀ c ∈ decimals, isPlainDigit c = true := by
  unfold isUnsignedLiteral at h
  simp only [Bool.and_eq_true, List.all_eq_true, Bool.or_eq_true, beq_iff_eq,
    decide_eq_true_eq] at h
  obtain ⟨⟨hall, _⟩, hcount⟩ := h
  have hdigit : ∀ c ∈ body, c ≠ '.' → isPlainDigit c = true :=
    fun c hc hne => (hall c hc).resolve_right hne
  by_cases hpoint : '.' ∈ body
  · obtain ⟨whole, decimals, rfl, hwhole⟩ := List.eq_append_cons_of_mem hpoint
    refine .inr ⟨whole, decimals, rfl, ?_, ?_⟩
    · intro c hc
      exact hdigit c (by simp [hc]) (fun he => hwhole (he ▸ hc))
    · intro c hc
      refine hdigit c (by simp [hc]) (fun he => ?_)
      have hone : 0 < decimals.count '.' := List.count_pos_iff.mpr (he ▸ hc)
      rw [List.count_append, List.count_cons_self] at hcount
      omega
  · exact .inl fun c hc => hdigit c hc (fun he => hpoint (he ▸ hc))

theorem takeWhile_point_append {whole : List Char} (h : ∀ c ∈ whole, isPlainDigit c = true)
    (rest : List Char) :
    (whole ++ rest).takeWhile (· ≠ '.') = whole ++ rest.takeWhile (· ≠ '.') ∧
      (whole ++ rest).dropWhile (· ≠ '.') = rest.dropWhile (· ≠ '.') := by
  have hne : ∀ c ∈ whole, decide (c ≠ '.') = true :=
    fun c hc => decide_eq_true (ne_point_of_isPlainDigit (h c hc))
  exact ⟨List.takeWhile_append_of_pos hne, List.dropWhile_append_of_pos hne⟩

section
variable {negative : Bool} {cs body whole decimals : List Char}

theorem truncate_integer (negative : Bool) (n : ℕ) :
    (Number.decimal ⟨negative, n, 0⟩).truncate = withSign negative n := by
  have hvalue : (Number.decimal ⟨negative, n, 0⟩).toRat = (withSign negative n : ℤ) := by
    rw [Number.toRat, Decimal.toRat_eq, zpow_zero, mul_one]
    rfl
  rw [Number.truncate, hvalue, Rat.num_intCast, Rat.den_intCast, Nat.cast_one, Int.tdiv_one]

theorem ofLiteral_digits (h : ∀ c ∈ body, isPlainDigit c = true) :
    Decimal.ofLiteral negative body = ⟨negative, Nat.ofDigitChars 10 body 0, 0⟩ := by
  have hdrop := (takeWhile_point_append h []).2
  rw [List.append_nil] at hdrop
  rw [Decimal.ofLiteral, hdrop, List.filter_eq_self.mpr h]
  rfl

theorem ofLiteral_point (hwhole : ∀ c ∈ whole, isPlainDigit c = true)
    (hdecimals : ∀ c ∈ decimals, isPlainDigit c = true) :
    Decimal.ofLiteral negative (whole ++ '.' :: decimals) =
      ⟨negative, Nat.ofDigitChars 10 (whole ++ decimals) 0, -(decimals.length : ℤ)⟩ := by
  have hfilter : (whole ++ '.' :: decimals).filter isPlainDigit = whole ++ decimals := by
    have hno : isPlainDigit '.' = false := by decide
    rw [List.filter_append, List.filter_cons, hno, List.filter_eq_self.mpr hwhole,
      List.filter_eq_self.mpr hdecimals]
    rfl
  rw [Decimal.ofLiteral, hfilter, (takeWhile_point_append hwhole _).2]
  rfl

/-- Read directly or as a decimal, digits are the same integer. -/
theorem integerOfChars_eq (hsign : takeSign cs = (negative, body))
    (h : ∀ c ∈ body, isPlainDigit c = true) :
    integerOfChars cs = withSign negative (Nat.ofDigitChars 10 body 0) := by
  simp only [integerOfChars, hsign, ofLiteral_digits h, truncate_integer, ite_self]

theorem isUnsignedLiteral_of_ofChars {x : Number} (h : Number.ofChars? cs = some x)
    (hsign : takeSign cs = (negative, body)) : isUnsignedLiteral body = true := by
  by_contra hno
  simp only [Number.ofChars?, hsign, if_neg hno] at h
  cases h

theorem ofChars_of_digits (hsign : takeSign cs = (negative, body))
    (hliteral : isUnsignedLiteral body = true) (h : ∀ c ∈ body, isPlainDigit c = true) :
    Number.ofChars? cs = some (.natural (withSign negative (Nat.ofDigitChars 10 body 0))) := by
  have hpoint : body.contains '.' = false := by
    simp only [List.contains_eq_mem, decide_eq_false_iff_not]
    exact fun hmem => ne_point_of_isPlainDigit (h _ hmem) rfl
  simp only [Number.ofChars?, hsign, hliteral, hpoint, integerOfChars_eq hsign h, if_true,
    Bool.false_eq_true, if_false]

theorem ofChars_of_point (hsign : takeSign cs = (negative, whole ++ '.' :: decimals))
    (hliteral : isUnsignedLiteral (whole ++ '.' :: decimals) = true)
    (hwhole : ∀ c ∈ whole, isPlainDigit c = true)
    (hdecimals : ∀ c ∈ decimals, isPlainDigit c = true) :
    Number.ofChars? cs = some (.decimal
      ⟨negative, Nat.ofDigitChars 10 (whole ++ decimals) 0, -(decimals.length : ℤ)⟩) := by
  have hpoint : (whole ++ '.' :: decimals).contains '.' = true := by simp
  simp only [Number.ofChars?, hsign, hliteral, hpoint, ofLiteral_point hwhole hdecimals, if_true]

end

end Reckoner
