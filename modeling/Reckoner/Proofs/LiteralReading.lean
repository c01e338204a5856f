import Reckoner.Proofs.Literals
import Reckoner.Proofs.Resolution
import Reckoner.Proofs.SizeOrder

namespace Reckoner

/-- What digits count for: the first one ten to the power of `place` for each unit, and each next one
a tenth of the one before. -/
def placeValue (place : ℤ) : List Char → ℚ
  | [] => 0
  | c :: cs => ((c.toNat - '0'.toNat : ℕ) : ℚ) * 10 ^ place + placeValue (place - 1) cs

/-- What may stand before a number, and whether it makes the number negative. -/
inductive SignedBy : Bool → List Char → Prop
  | unsigned : SignedBy false []
  | plus : SignedBy false ['+']
  | minus : SignedBy true ['-']

def signedSize (negative : Bool) (size : ℚ) : ℚ :=
  if negative then -size else size

/-- A text of a number: an optional sign and the spelling of a number. -/
def IsSignedLiteral (cs : List Char) : Prop :=
  ∃ negative sign word, cs = sign ++ word ∧ SignedBy negative sign ∧ IsLiteral word

/-- The number that a text signifies. The last digit of an integer counts ones, and so does the last
digit before a point. -/
inductive Signifies : List Char → Number → Prop
  | whole {negative : Bool} {sign digits : List Char} {n : ℤ} (hsign : SignedBy negative sign)
      (hliteral : IsLiteral digits) (hdigits : Digits digits)
      (hsize : (n : ℚ) = signedSize negative (placeValue (digits.length - 1) digits)) :
      Signifies (sign ++ digits) (.natural n)
  | pointed {negative : Bool} {sign digits decimals : List Char} {d : Decimal}
      (hsign : SignedBy negative sign) (hliteral : IsLiteral (digits ++ '.' :: decimals))
      (hdigits : Digits digits) (hdecimals : Digits decimals) (hnegative : d.negative = negative)
      (hplaces : d.exponent = -(decimals.length : ℤ))
      (hsize : d.toRat =
        signedSize negative (placeValue (digits.length - 1) (digits ++ decimals))) :
      Signifies (sign ++ (digits ++ '.' :: decimals)) (.decimal d)

section
variable {negative : Bool} {cs sign word : List Char}

theorem takeSign_signed (hsign : SignedBy negative sign) (h : IsLiteral word) :
    takeSign (sign ++ word) = (negative, word) := by
  cases hsign with
  | unsigned => exact takeSign_of_isLiteral h
  | plus => rfl
  | minus => rfl

theorem signed_of_takeSign (h : takeSign cs = (negative, word)) :
    ∃ sign, SignedBy negative sign ∧ cs = sign ++ word := by
  unfold takeSign at h
  split at h
  · cases h
    exact ⟨_, .minus, rfl⟩
  · cases h
    exact ⟨_, .plus, rfl⟩
  · cases h
    exact ⟨_, .unsigned, rfl⟩

end

theorem isLiteral_of_isUnsignedLiteral {body : List Char} (h : isUnsignedLiteral body = true) :
    IsLiteral body := by
  have hany : body.any isPlainDigit = true := by
    simp only [isUnsignedLiteral, Bool.and_eq_true] at h
    exact h.1.2
  obtain hdigits | ⟨digits, decimals, rfl, hdigits, hdecimals⟩ := unsignedLiteral_cases h
  · cases body with
    | nil => cases hany
    | cons d ds => exact .whole hdigits
  · cases digits with
    | cons d ds => exact .pointed hdigits hdecimals
    | nil =>
      cases decimals with
      | nil => cases hany
      | cons e es => exact .fraction hdecimals

theorem ofText_exists_iff (text : String) :
    (∃ x, Number.ofText? text = some x) ↔ IsSignedLiteral text.toList := by
  constructor
  · rintro ⟨x, hx⟩
    cases hsign : takeSign text.toList with
    | mk negative body =>
      obtain ⟨sign, hsigned, hcs⟩ := signed_of_takeSign hsign
      exact ⟨negative, sign, body, hcs, hsigned,
        isLiteral_of_isUnsignedLiteral (isUnsignedLiteral_of_ofChars hx hsign)⟩
  · rintro ⟨negative, sign, word, hcs, hsigned, hliteral⟩
    rw [Number.ofText?, hcs]
    exact ofChars_of_isLiteral (takeSign_signed hsigned hliteral) hliteral

/-- Digits read from left to right count for what their places say. -/
theorem placeValue_eq (place : ℤ) (ds : List Char) :
    placeValue place ds = Nat.ofDigitChars 10 ds 0 * (10 : ℚ) ^ (place + 1 - ds.length) := by
  induction ds generalizing place with
  | nil => simp [placeValue]
  | cons c cs ih =>
    have hplace : place - 1 + 1 - (cs.length : ℤ) = place - cs.length := by ring
    have hlength : place + 1 - ((c :: cs).length : ℤ) = place - cs.length := by
      rw [List.length_cons]
      push_cast
      ring
    have hsplit : (10 : ℚ) ^ place = 10 ^ cs.length * 10 ^ (place - cs.length) := by
      rw [← zpow_natCast, ← zpow_add₀ (by norm_num : (10 : ℚ) ≠ 0)]
      congr 1
      ring
    have hread : Nat.ofDigitChars 10 (c :: cs) 0 =
        10 ^ cs.length * (c.toNat - '0'.toNat) + Nat.ofDigitChars 10 cs 0 := by
      rw [Nat.ofDigitChars_cons, Nat.ofDigitChars_eq_ofDigitChars_zero, mul_zero, zero_add]
    rw [placeValue, ih, hread, hplace, hlength, hsplit, Nat.cast_add, Nat.cast_mul, Nat.cast_pow,
      Nat.cast_ofNat]
    ring

theorem placeValue_whole (digits : List Char) :
    placeValue (digits.length - 1) digits = Nat.ofDigitChars 10 digits 0 := by
  rw [placeValue_eq, sub_add_cancel, sub_self, zpow_zero, mul_one]

theorem placeValue_pointed (digits decimals : List Char) :
    placeValue (digits.length - 1) (digits ++ decimals) =
      Nat.ofDigitChars 10 (digits ++ decimals) 0 * (10 : ℚ) ^ (-(decimals.length : ℤ)) := by
  rw [placeValue_eq]
  congr 2
  rw [List.length_append]
  push_cast
  ring

theorem withSign_cast (negative : Bool) (n : ℕ) :
    ((withSign negative n : ℤ) : ℚ) = signedSize negative n := by
  cases negative <;> simp [withSign, signedSize]

theorem toRat_signedSize (negative : Bool) (coefficient : ℕ) (exponent : ℤ) :
    (Decimal.mk negative coefficient exponent).toRat =
      signedSize negative (coefficient * (10 : ℚ) ^ exponent) :=
  Decimal.toRat_eq_magnitude _

theorem signifies_of_ofText {text : String} {x : Number} (h : Number.ofText? text = some x) :
    Signifies text.toList x := by
  cases hsign : takeSign text.toList with
  | mk negative body =>
    obtain ⟨sign, hsigned, hcs⟩ := signed_of_takeSign hsign
    have hunsigned := isUnsignedLiteral_of_ofChars h hsign
    have hliteral := isLiteral_of_isUnsignedLiteral hunsigned
    obtain hdigits | ⟨digits, decimals, rfl, hdigits, hdecimals⟩ := unsignedLiteral_cases hunsigned
    · rw [Number.ofText?, ofChars_of_digits hsign hunsigned hdigits] at h
      cases h
      rw [hcs]
      refine .whole hsigned hliteral hdigits ?_
      rw [placeValue_whole, withSign_cast]
    · rw [Number.ofText?, ofChars_of_point hsign hunsigned hdigits hdecimals] at h
      cases h
      rw [hcs]
      refine .pointed hsigned hliteral hdigits hdecimals rfl rfl ?_
      rw [placeValue_pointed, toRat_signedSize]

theorem ofChars_of_signifies {cs : List Char} {x : Number} (h : Signifies cs x) :
    Number.ofChars? cs = some x := by
  cases h with
  | @whole negative sign digits n hsigned hliteral hdigits hsize =>
    have hvalue : n = withSign negative (Nat.ofDigitChars 10 digits 0) := by
      rw [placeValue_whole, ← withSign_cast] at hsize
      exact_mod_cast hsize
    rw [ofChars_of_digits (takeSign_signed hsigned hliteral)
      (isUnsignedLiteral_of_isLiteral hliteral) hdigits, hvalue]
  | @pointed negative sign digits decimals d hsigned hliteral hdigits hdecimals hnegative hplaces
      hsize =>
    have hvalue : d =
        ⟨negative, Nat.ofDigitChars 10 (digits ++ decimals) 0, -(decimals.length : ℤ)⟩ := by
      refine Decimal.eq_of_toRat hnegative hplaces ?_
      rw [hsize, placeValue_pointed, toRat_signedSize]
    rw [ofChars_of_point (takeSign_signed hsigned hliteral)
      (isUnsignedLiteral_of_isLiteral hliteral) hdigits hdecimals, hvalue]

theorem ofText_eq_some_iff {text : String} {x : Number} :
    Number.ofText? text = some x ↔ Signifies text.toList x :=
  ⟨signifies_of_ofText, ofChars_of_signifies⟩

theorem isLiteral_of_tokenize {source : String} {tokens : List Token} {token : Token}
    (h : tokenize source = .ok tokens) (hmem : token ∈ tokens) (hk : token.kind = .number) :
    IsLiteral token.value.toList := by
  obtain ⟨body, rfl, hbody⟩ := (scan_eq_ok_iff.mp h).body
  rcases List.mem_append.mp hmem with hmem | hmem
  · obtain ⟨kind, word, p, hword, rfl⟩ := hbody token hmem
    obtain rfl : kind = .number := hk
    cases hword with
    | number hliteral =>
      rw [wordToken, plainSpelling_literal hliteral]
      show IsLiteral (String.ofList word).toList
      rwa [String.toList_ofList]
  · rw [List.mem_singleton.mp hmem] at hk
    cases hk

theorem evaluate_not_malformed {source : String} {e : Expression}
    (h : Expression.parse source = .ok e) (env : Environment) (text : String) :
    env.evaluate e.program ≠ .error (.malformed text) := by
  intro herror
  obtain ⟨failure, node, hfailed, _⟩ | ⟨f, hfault⟩ := evaluate_accepted h env herror
  · cases hfailed
  · cases hfault

/-- A text is read as a number exactly where it is an optional sign and the spelling of a number, and
it is read as the number that it signifies. The number tokens of a text are such spellings, without a
sign, and the evaluation of a text comes to no number that cannot be read. -/
theorem numbers_read_exactly :
    (∀ text, (∃ x, Number.ofText? text = some x) ↔ IsSignedLiteral text.toList) ∧
    (∀ text x, Number.ofText? text = some x ↔ Signifies text.toList x) ∧
    (∀ source tokens, tokenize source = .ok tokens → ∀ token ∈ tokens, token.kind = .number →
      IsLiteral token.value.toList) ∧
    ∀ source e, Expression.parse source = .ok e → ∀ (env : Environment) text,
      env.evaluate e.program ≠ .error (.malformed text) :=
  ⟨ofText_exists_iff, fun _ _ => ofText_eq_some_iff,
    fun _ _ htokens _ hmem hk => isLiteral_of_tokenize htokens hmem hk,
    fun _ _ hparse env text => evaluate_not_malformed hparse env text⟩

theorem pointedNumbers_read :
    Signifies "-007.50".toList (.decimal ⟨true, 750, -2⟩) ∧
      (∃ tokens, tokenize "2.*-.25" = .ok tokens ∧ Token.written .number ".25" 4 ∈ tokens) ∧
      IsLiteral ".25".toList ∧
      ∃ e, Expression.parse "2.*-.25" = .ok e ∧ ∀ (env : Environment) text,
        env.evaluate e.program ≠ .error (.malformed text) := by
  obtain ⟨_, hread, htoken, hevaluate⟩ := numbers_read_exactly
  have htext : Number.ofText? "-007.50" = some (.decimal ⟨true, 750, -2⟩) := by decide +kernel
  have htokens : tokenize "2.*-.25" = .ok [.written .number "2." 0, .written .operator "*" 2,
      .written .operator "-" 3, .written .number ".25" 4, .written .endOfInput "" 7] :=
    eq_ok_of_toOption (by decide +kernel)
  have hmem : Token.written .number ".25" 4 ∈ [.written .number "2." 0,
      .written .operator "*" 2, .written .operator "-" 3, .written .number ".25" 4,
      .written .endOfInput "" 7] := by decide
  have hparse : Expression.parse "2.*-.25" = .ok ⟨"2.*-.25", [.written .number "2." 0,
      .written .number ".25" 4, (Token.written .operator "-" 3).toNegation,
      .written .operator "*" 2], none⟩ := eq_ok_of_toOption (by decide +kernel)
  exact ⟨(hread _ _).mp htext, ⟨_, htokens, hmem⟩, htoken _ _ htokens _ hmem rfl,
    _, hparse, hevaluate _ _ hparse⟩

end Reckoner
