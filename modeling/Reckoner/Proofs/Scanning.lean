import Reckoner.Proofs.Lexemes
import Reckoner.Session

namespace Reckoner

/-- The signs that operator tokens of a text have as values. -/
def operatorSigns : List Char :=
  ['+', '-', '*', '/', '^', '!', '=']

structure Token.Scanned (token : Token) : Prop where
  inner : token.kind ≠ .endOfInput
  sign : token.kind = .operator → ∃ c ∈ operatorSigns, token.value = String.ofList [c]
  name : token.kind = .identifier → isName token.value = true
  literal : token.kind = .number → ∃ x, Number.ofText? token.value = some x

theorem operatorSign_mem {c sign : Char} (h : operatorSign? c = some sign) :
    sign ∈ operatorSigns := by
  unfold operatorSign? at h
  split at h
  next hc =>
    cases h
    simpa [operatorSigns] using hc
  next =>
    obtain ⟨entry, hfind, rfl⟩ := Option.map_eq_some_iff.mp h
    have hmem := List.mem_of_find?_eq_some hfind
    simp only [operatorAliases, List.mem_cons, List.not_mem_nil, or_false] at hmem
    rcases hmem with rfl | rfl <;> decide

theorem findOperator_sign {c : Char} (h : c ∈ operatorSigns) :
    ∃ o, findOperator? (String.ofList [c]) = some o := by
  simp only [operatorSigns, List.mem_cons, List.not_mem_nil, or_false] at h
  rcases h with rfl | rfl | rfl | rfl | rfl | rfl | rfl <;> exact ⟨_, rfl⟩

theorem isName_of_written {c : Char} {cs : List Char} (hc : isLetter c = true)
    (hcs : ∀ d ∈ cs, isNameChar d = true) : isName (String.ofList (c :: cs)) = true := by
  have hall : cs.all isNameChar = true := List.all_eq_true.mpr hcs
  simp [isName, hc, isNameChar_of_isLetter hc, hall]

theorem takeSign_of_digit {d : Char} (tail : List Char) (h : isPlainDigit d = true) :
    takeSign (d :: tail) = (false, d :: tail) := by
  have hminus : d ≠ '-' := by
    rintro rfl
    exact absurd h (by decide)
  have hplus : d ≠ '+' := by
    rintro rfl
    exact absurd h (by decide)
  unfold takeSign
  split
  next heq => exact absurd (List.cons.inj heq).1 hminus
  next heq => exact absurd (List.cons.inj heq).1 hplus
  next => rfl

theorem digits_plain {ds : List Char} (h : Digits ds) :
    (∀ c ∈ ds, isPlainDigit c = true ∨ c = '.') ∧ ds.count '.' = 0 :=
  ⟨fun c hc => .inl (h c hc), List.count_eq_zero.mpr fun hc => absurd (h '.' hc) (by decide)⟩

theorem isUnsignedLiteral_of_isLiteral {word : List Char} (h : IsLiteral word) :
    isUnsignedLiteral word = true := by
  simp only [isUnsignedLiteral, Bool.and_eq_true, List.all_eq_true, Bool.or_eq_true, beq_iff_eq,
    decide_eq_true_eq]
  cases h with
  | @whole d ds h =>
    have hd : isPlainDigit d = true := h d (by simp)
    obtain ⟨hall, hcount⟩ := digits_plain h
    exact ⟨⟨hall, by simp [hd]⟩, by omega⟩
  | @pointed d ds es h hes =>
    have hd : isPlainDigit d = true := h d (by simp)
    obtain ⟨hall, hcount⟩ := digits_plain h
    obtain ⟨hall', hcount'⟩ := digits_plain hes
    refine ⟨⟨?_, by simp [hd]⟩, ?_⟩
    · intro c hc
      rcases List.mem_append.mp hc with hc | hc
      · exact hall c hc
      · exact (List.mem_cons.mp hc).elim .inr (hall' c)
    · rw [List.count_append, List.count_cons_self]
      omega
  | @fraction d ds h =>
    have hd : isPlainDigit d = true := h d (by simp)
    obtain ⟨hall, hcount⟩ := digits_plain h
    refine ⟨⟨fun c hc => (List.mem_cons.mp hc).elim .inr (hall c), by simp [hd]⟩, ?_⟩
    rw [List.count_cons_self]
    omega

/-- No sign is taken off the spelling of a number. -/
theorem takeSign_of_isLiteral {word : List Char} (h : IsLiteral word) :
    takeSign word = (false, word) := by
  cases h with
  | whole h | pointed h => exact takeSign_of_digit _ (h _ (by simp))
  | fraction => rfl

theorem ofChars_of_isLiteral {negative : Bool} {cs word : List Char}
    (hsign : takeSign cs = (negative, word)) (h : IsLiteral word) :
    ∃ x, Number.ofChars? cs = some x := by
  simp only [Number.ofChars?, hsign, isUnsignedLiteral_of_isLiteral h, if_true]
  split <;> exact ⟨_, rfl⟩

/-- The spelling of a number is a literal. -/
theorem literal_of_isLiteral {word : List Char} (h : IsLiteral word) :
    ∃ x, Number.ofText? (String.ofList word) = some x := by
  rw [Number.ofText?, String.toList_ofList]
  exact ofChars_of_isLiteral (takeSign_of_isLiteral h) h

theorem scanned_number {word : List Char} {x : Number}
    (h : Number.ofText? (String.ofList word) = some x) (start : Position) :
    (Token.at .number word word start).Scanned where
  inner := by simp
  sign := by simp
  name := by simp
  literal := fun _ => ⟨x, h⟩

theorem scanned_name {word : List Char} (h : isName (String.ofList word) = true)
    (start : Position) : (Token.at .identifier word word start).Scanned where
  inner := by simp
  sign := by simp
  name := fun _ => h
  literal := by simp

theorem scanned_sign {sign : Char} (h : sign ∈ operatorSigns) (raw : List Char)
    (start : Position) : (Token.at .operator [sign] raw start).Scanned where
  inner := by simp
  sign := fun _ => ⟨sign, h, rfl⟩
  name := by simp
  literal := by simp

theorem scanned_punctuation {kind : TokenKind} (value raw : List Char) (start : Position)
    (h : kind = .openParen ∨ kind = .closeParen ∨ kind = .comma) :
    (Token.at kind value raw start).Scanned := by
  rcases h with rfl | rfl | rfl <;>
    exact ⟨by simp, by simp, by simp, by simp⟩

theorem WrittenAs.scanned {kind : TokenKind} {word : List Char} (h : WrittenAs kind word)
    (p : Position) : (wordToken kind word p).Scanned := by
  unfold wordToken
  cases h with
  | number h =>
    obtain ⟨x, hx⟩ := literal_of_isLiteral h
    rw [plainSpelling_literal h]
    exact scanned_number hx p
  | identifier hc hcs =>
    rw [plainSpelling_identifier _ hc]
    exact scanned_name (isName_of_written hc hcs) p
  | operator hc =>
    obtain ⟨sign, hsign, hplain⟩ := Option.map_eq_some_iff.mp (operatorSign_plainSpelling _ hc)
    rw [← hplain]
    exact scanned_sign (operatorSign_mem hsign) _ p
  | openParen | closeParen | comma => exact scanned_punctuation _ _ p (by simp)

def ScanShape (tokens : List Token) : Prop :=
  ∃ body stop, tokens = body ++ [stop] ∧ stop.kind = .endOfInput ∧ ∀ token ∈ body, token.Scanned

theorem ScanShape.tail {token : Token} {rest : List Token} (h : ScanShape (token :: rest))
    (hk : token.kind ≠ .endOfInput) : token.Scanned ∧ ScanShape rest := by
  obtain ⟨body, stop, hbody, hstop, hscanned⟩ := h
  cases body with
  | nil =>
    cases hbody
    exact absurd hstop hk
  | cons first body =>
    cases hbody
    exact ⟨hscanned token (by simp),
      body, stop, rfl, hstop, fun t ht => hscanned t (List.mem_cons_of_mem _ ht)⟩

theorem scan_shape {p : Position} {cs : List Char} {tokens : List Token}
    (h : scan p cs = .ok tokens) : ScanShape tokens := by
  obtain ⟨body, rfl, hbody⟩ := (scan_eq_ok_iff.mp h).body
  refine ⟨body, _, rfl, rfl, fun token ht => ?_⟩
  obtain ⟨kind, word, q, hword, rfl⟩ := hbody token ht
  exact hword.scanned q

theorem tokenize_shape {source : String} {tokens : List Token}
    (h : tokenize source = .ok tokens) : ScanShape tokens :=
  scan_shape h

end Reckoner
