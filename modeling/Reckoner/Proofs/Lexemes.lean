import Mathlib.Data.Bool.AllAny
import Mathlib.Data.List.TakeWhile
import Mathlib.Tactic.ByContra
import Reckoner.Proofs.Numerals

namespace Reckoner

/-- The words of a text, by the kind of token they are. -/
inductive WrittenAs : TokenKind → List Char → Prop
  | number {word : List Char} (h : IsLiteral word) : WrittenAs .number word
  | identifier {c : Char} {cs : List Char} (hc : isLetter c = true)
      (hcs : ∀ d ∈ cs, isNameChar d = true) : WrittenAs .identifier (c :: cs)
  | operator {c : Char} (hc : c ∈ operatorCharacters) : WrittenAs .operator [c]
  | openParen : WrittenAs .openParen ['(']
  | closeParen : WrittenAs .closeParen [')']
  | comma : WrittenAs .comma [',']

/-- What a word stands for: the two other spellings of signs for these signs, and any other word for
itself. -/
def plainSpelling : List Char → List Char
  | ['×'] => ['*']
  | ['÷'] => ['/']
  | word => word

/-- A word of this kind ends where `rest` starts. -/
def EndsBefore (kind : TokenKind) (rest : List Char) : Prop :=
  ∀ d ∈ rest.head?,
    match kind with
    | .number => isDigit d = false ∧ isLetter d = false ∧ d ≠ '.'
    | .identifier => isNameChar d = false
    | _ => True

/-- The token that a word stands for. -/
def wordToken (kind : TokenKind) (word : List Char) (p : Position) : Token :=
  .at kind (plainSpelling word) word p

/-- A text that starts at a place is that of these tokens: it is made of their words, one after
another, and of blanks. -/
inductive Lexes : Position → List Char → List Token → Prop
  | stop (p : Position) : Lexes p [] [.at .endOfInput [] [] p]
  | blank {p : Position} {c : Char} {cs : List Char} {tokens : List Token}
      (hblank : isBlank c = true) (h : Lexes (p.next c) cs tokens) : Lexes p (c :: cs) tokens
  | word {p : Position} {kind : TokenKind} {word rest : List Char} {tokens : List Token}
      (hword : WrittenAs kind word) (hends : EndsBefore kind rest)
      (h : Lexes (p.advance word) rest tokens) :
      Lexes p (word ++ rest) (wordToken kind word p :: tokens)

/-- A text is refused between `word` and `rest`: at a character that starts no word, or after a
number that something follows which cannot follow a number. -/
inductive StopsAt : List Char → List Char → LexFault → Prop
  | unexpected {c : Char} {rest : List Char} (hblank : isBlank c = false)
      (hstart : startsNumber c rest = false) (hletter : isLetter c = false)
      (hsign : c ∉ operatorCharacters ++ ['(', ')', ',']) : StopsAt [] (c :: rest) (.unexpected c)
  | secondPoint {word rest : List Char} (h : IsLiteral word) (hpoint : '.' ∈ word) :
      StopsAt word ('.' :: rest) .secondPoint
  | letterAfterDigits {word rest : List Char} {c : Char} (h : IsLiteral word)
      (hletter : isLetter c = true) : StopsAt word (c :: rest) (.letterAfterDigits c)

/-- The error of a text that starts at a place and is refused: its words and blanks come before what
stops them. -/
inductive LexFails : Position → List Char → LexError → Prop
  | stop {p : Position} {word rest : List Char} {fault : LexFault} (h : StopsAt word rest fault) :
      LexFails p (word ++ rest) ⟨fault, p.advance word⟩
  | blank {p : Position} {c : Char} {cs : List Char} {e : LexError} (hblank : isBlank c = true)
      (h : LexFails (p.next c) cs e) : LexFails p (c :: cs) e
  | word {p : Position} {kind : TokenKind} {word rest : List Char} {e : LexError}
      (hword : WrittenAs kind word) (hends : EndsBefore kind rest)
      (h : LexFails (p.advance word) rest e) : LexFails p (word ++ rest) e

/-- A text whose start does not go on with a word that ends before it. -/
def Breaks (tail : List Char) : Prop :=
  ∀ c ∈ tail.head?, isNameChar c = false ∧ c ≠ '.'

theorem Breaks.digit {c : Char} {tail : List Char} (h : Breaks (c :: tail)) :
    isDigit c = false ∧ isLetter c = false ∧ c ≠ '.' := by
  obtain ⟨hname, hpoint⟩ := h c rfl
  simp only [isNameChar, Bool.or_eq_false_iff] at hname
  exact ⟨hname.1.2, hname.1.1, hpoint⟩

theorem EndsBefore.of_breaks {kind : TokenKind} {rest : List Char} (h : Breaks rest) :
    EndsBefore kind rest := by
  intro d hd
  cases rest with
  | nil => cases hd
  | cons c rest =>
    cases hd
    obtain ⟨hdigit, hletter, hpoint⟩ := h.digit
    cases kind with
    | number => exact ⟨hdigit, hletter, hpoint⟩
    | identifier => exact (h _ rfl).1
    | _ => trivial

theorem EndsBefore.append {kind : TokenKind} {rest tail : List Char} (h : EndsBefore kind rest)
    (htail : Breaks tail) : EndsBefore kind (rest ++ tail) := by
  cases rest with
  | nil => exact .of_breaks htail
  | cons c rest =>
    rintro d ⟨⟩
    exact h _ rfl

theorem EndsBefore.shorter {kind : TokenKind} {rest after : List Char}
    (h : EndsBefore kind (rest ++ after)) : EndsBefore kind rest := by
  intro d hd
  refine h d ?_
  rw [List.head?_append, Option.mem_def.mp hd]
  rfl

theorem endsBefore_nil (kind : TokenKind) : EndsBefore kind [] :=
  fun _ hd => nomatch hd

@[simp] theorem advance_append (p : Position) (cs ds : List Char) :
    p.advance (cs ++ ds) = (p.advance cs).advance ds :=
  List.foldl_append

theorem of_codes {P : Char → Prop} {codes : List Nat} (h : ∀ n ∈ codes, P (Char.ofNat n)) {c : Char}
    (hc : c.toNat ∈ codes) : P c := by
  have hp := h c.toNat hc
  rwa [Char.ofNat_toNat] at hp

theorem isLetter_of_isDigit {c : Char} (h : isDigit c = true) : isLetter c = false := by
  have hcodes : ∀ n ∈ List.range' 48 10, isLetter (Char.ofNat n) = false := by decide
  simp only [isDigit, Bool.and_eq_true, decide_eq_true_eq] at h
  have hhigh : c.toNat ≤ 57 := h.2
  have hcode : c.toNat ∈ List.range' 48 10 :=
    List.mem_range'_1.mpr ⟨h.1, Nat.lt_succ_of_le hhigh⟩
  exact of_codes (P := fun d => isLetter d = false) hcodes hcode

theorem isDigit_of_isLetter {c : Char} (h : isLetter c = true) : isDigit c = false := by
  by_contra hdigit
  rw [isLetter_of_isDigit (by simpa using hdigit)] at h
  cases h

theorem ne_point_of_isLetter {c : Char} (h : isLetter c = true) : c ≠ '.' := by
  rintro rfl
  exact absurd h (by decide)

theorem operatorCharacters_eq :
    operatorCharacters = ['!', '*', '+', '-', '/', '=', '^', '×', '÷'] :=
  rfl

/-- Signs, parentheses and commas start no other word and are no blanks. -/
theorem sign_alone : ∀ c ∈ operatorCharacters ++ ['(', ')', ','],
    isBlank c = false ∧ isNameChar c = false ∧ c ≠ '.' :=
  List.all_iff_forall_prop.mp (by decide +kernel)

def blankCodes : List Nat :=
  List.range' 0x09 5 ++ List.range' 0x1c 5 ++ List.range' 0x2000 11 ++
    [0x85, 0xa0, 0x1680, 0x2028, 0x2029, 0x202f, 0x205f, 0x3000]

theorem mem_blankCodes {c : Char} (h : isBlank c = true) : c.toNat ∈ blankCodes := by
  simp only [isBlank, Bool.or_eq_true, Bool.and_eq_true, decide_eq_true_eq, beq_iff_eq] at h
  simp only [blankCodes, List.mem_append, List.mem_range'_1, List.mem_cons, List.not_mem_nil,
    or_false]
  omega

/-- A blank is in no word. -/
theorem blank_apart {c : Char} (h : isBlank c = true) : isNameChar c = false ∧ c ≠ '.' := by
  have hcodes : ∀ n ∈ blankCodes, isNameChar (Char.ofNat n) = false ∧ Char.ofNat n ≠ '.' := by
    decide +kernel
  exact of_codes (P := fun d => isNameChar d = false ∧ d ≠ '.') hcodes (mem_blankCodes h)

theorem not_blank_of_isNameChar {c : Char} (h : isNameChar c = true ∨ c = '.') :
    isBlank c = false := by
  by_contra hblank
  obtain ⟨hname, hpoint⟩ := blank_apart (by simpa using hblank)
  rcases h with h | h
  · rw [hname] at h
    cases h
  · exact hpoint h

theorem isNameChar_of_isDigit {c : Char} (h : isDigit c = true) : isNameChar c = true := by
  simp [isNameChar, h]

theorem isNameChar_of_isLetter {c : Char} (h : isLetter c = true) : isNameChar c = true := by
  simp [isNameChar, h]

theorem WrittenAs.ne_nil {kind : TokenKind} {word : List Char} (h : WrittenAs kind word) :
    word ≠ [] := by
  cases h with
  | number h => exact h.ne_nil
  | _ => simp

/-- No word starts with a blank. -/
theorem WrittenAs.not_blank {kind : TokenKind} {c : Char} {cs : List Char}
    (h : WrittenAs kind (c :: cs)) : ¬ isBlank c = true := by
  have hblank : isBlank c = false := by
    cases h with
    | number h => exact not_blank_of_isNameChar (h.head.imp isNameChar_of_isDigit id)
    | identifier hc => exact not_blank_of_isNameChar (.inl (isNameChar_of_isLetter hc))
    | operator hc => exact (sign_alone c (by simp [hc])).1
    | _ => decide
  simp [hblank]

/-- A word that starts with neither of the two other spellings stands for itself. -/
theorem plainSpelling_cons {c : Char} (cs : List Char) (htimes : c ≠ '×') (hover : c ≠ '÷') :
    plainSpelling (c :: cs) = c :: cs := by
  unfold plainSpelling
  split
  next heq => exact absurd (List.cons.inj heq).1 htimes
  next heq => exact absurd (List.cons.inj heq).1 hover
  next => rfl

theorem plainSpelling_literal {word : List Char} (h : IsLiteral word) :
    plainSpelling word = word := by
  obtain ⟨c, cs, rfl⟩ := List.exists_cons_of_ne_nil h.ne_nil
  refine plainSpelling_cons cs ?_ ?_ <;>
  · rintro rfl
    exact absurd h.head (by decide)

theorem plainSpelling_identifier {c : Char} (cs : List Char) (h : isLetter c = true) :
    plainSpelling (c :: cs) = c :: cs := by
  have hname : isNameChar c = true := isNameChar_of_isLetter h
  refine plainSpelling_cons cs ?_ ?_ <;>
  · rintro rfl
    rw [(sign_alone _ (by simp [operatorCharacters_eq])).2.1] at hname
    cases hname

theorem operatorSign_plainSpelling : ∀ c ∈ operatorCharacters,
    (operatorSign? c).map (fun sign => [sign]) = some (plainSpelling [c]) := by
  rw [operatorCharacters_eq]
  exact List.all_iff_forall_prop.mp (by decide)

theorem mem_operatorCharacters {c sign : Char} (h : operatorSign? c = some sign) :
    c ∈ operatorCharacters := by
  unfold operatorSign? at h
  split at h
  next hsigns =>
    have hperm : ∀ d ∈ "+-*/^!=".toList, d ∈ operatorCharacters := by
      simp [operatorCharacters_eq]
    exact hperm c (by simpa using hsigns)
  next =>
    obtain ⟨entry, hfind, -⟩ := Option.map_eq_some_iff.mp h
    have hmem := List.mem_of_find?_eq_some hfind
    have hc := List.find?_some hfind
    simp only [beq_iff_eq] at hc
    subst hc
    exact List.mem_append_right _ (List.mem_map_of_mem hmem)

theorem nextToken_punctuation {c : Char} {kind : TokenKind} (hc : c ∈ ['(', ')', ','])
    (h : punctuation? c = some kind) (p : Position) (cs : List Char) :
    nextToken p c cs = .ok (.at kind [c] [c] p, cs) := by
  have hsigns : ∀ d ∈ ['(', ')', ','], operatorSign? d = none :=
    List.all_iff_forall_prop.mp (by decide)
  obtain ⟨-, hname, hpoint⟩ := sign_alone c (List.mem_append_right _ hc)
  simp only [isNameChar, Bool.or_eq_false_iff] at hname
  simp [nextToken, hname, hpoint, hsigns c hc, h]

/-- A word that ends before what follows it is the next token. -/
theorem nextToken_written {kind : TokenKind} {c : Char} {cs word rest : List Char}
    (hcs : c :: cs = word ++ rest) (h : WrittenAs kind word) (hends : EndsBefore kind rest)
    (p : Position) : nextToken p c cs = .ok (wordToken kind word p, rest) := by
  obtain ⟨d, ds, rfl⟩ := List.exists_cons_of_ne_nil h.ne_nil
  rw [List.cons_append] at hcs
  obtain ⟨rfl, rfl⟩ := List.cons.inj hcs
  unfold wordToken
  cases h with
  | number h =>
    have hstart : (isDigit c || (c == '.' && startsWithDigit (ds ++ rest))) = true :=
      h.startsNumber rest
    have htake : takeNumber false p (c :: (ds ++ rest)) = .ok (c :: ds, rest) :=
      takeNumber_numberTail h.numberTail (fun d hd => ⟨(hends d hd).1, (hends d hd).2.2⟩) p
    rw [nextToken, if_pos hstart, htake, plainSpelling_literal h]
    cases rest with
    | nil => rfl
    | cons d rest => simp [(hends d rfl).2.1]
  | identifier hc hcs =>
    have hstart : ¬ (isDigit c || (c == '.' && startsWithDigit (ds ++ rest))) = true := by
      simp [isDigit_of_isLetter hc, ne_point_of_isLetter hc]
    have hbreak : rest.takeWhile isNameChar = [] ∧ rest.dropWhile isNameChar = rest := by
      cases rest with
      | nil => exact ⟨rfl, rfl⟩
      | cons d rest =>
        have hd : isNameChar d = false := hends d rfl
        simp [hd]
    rw [nextToken, if_neg hstart, if_pos hc, plainSpelling_identifier ds hc,
      List.takeWhile_append_of_pos hcs, List.dropWhile_append_of_pos hcs, hbreak.1, hbreak.2,
      List.append_nil]
  | operator hc =>
    obtain ⟨-, hname, hpoint⟩ := sign_alone c (by simp [hc])
    simp only [isNameChar, Bool.or_eq_false_iff] at hname
    obtain ⟨⟨hletter, hdigit⟩, -⟩ := hname
    obtain ⟨sign, hsign, hplain⟩ := Option.map_eq_some_iff.mp (operatorSign_plainSpelling c hc)
    simp [nextToken, hdigit, hpoint, hletter, hsign, ← hplain]
  | openParen => exact nextToken_punctuation (by simp) rfl p rest
  | closeParen => exact nextToken_punctuation (by simp) rfl p rest
  | comma => exact nextToken_punctuation (by simp) rfl p rest

theorem StopsAt.ne_nil {word rest : List Char} {fault : LexFault} (h : StopsAt word rest fault) :
    rest ≠ [] := by
  cases h <;> simp

theorem StopsAt.word_cases {word rest : List Char} {fault : LexFault}
    (h : StopsAt word rest fault) : word = [] ∨ IsLiteral word := by
  cases h with
  | unexpected => exact .inl rfl
  | secondPoint h | letterAfterDigits h => exact .inr h

theorem StopsAt.not_blank {word rest : List Char} {fault : LexFault} {c : Char} {cs : List Char}
    (h : StopsAt word rest fault) (hcs : c :: cs = word ++ rest) : ¬ isBlank c = true := by
  have hliteral : IsLiteral word → ¬ isBlank c = true := by
    intro hword
    obtain ⟨d, ds, rfl⟩ := List.exists_cons_of_ne_nil hword.ne_nil
    cases hcs
    exact (WrittenAs.number hword).not_blank
  cases h with
  | unexpected hblank =>
    cases hcs
    simp [hblank]
  | secondPoint h | letterAfterDigits h => exact hliteral h

theorem mem_punctuation {c : Char} {kind : TokenKind} (h : punctuation? c = some kind) :
    c ∈ ['(', ')', ','] := by
  by_contra hc
  simp only [List.mem_cons, List.not_mem_nil, or_false, not_or] at hc
  simp [punctuation?, hc] at h

/-- At what stops a text there is no next token. -/
theorem nextToken_stopsAt {c : Char} {cs word rest : List Char} {fault : LexFault}
    (hcs : c :: cs = word ++ rest) (h : StopsAt word rest fault) (p : Position) :
    nextToken p c cs = .error ⟨fault, p.advance word⟩ := by
  have hliteral : IsLiteral word → (isDigit c || (c == '.' && startsWithDigit cs)) = true := by
    intro hword
    obtain ⟨d, ds, rfl⟩ := List.exists_cons_of_ne_nil hword.ne_nil
    rw [List.cons_append] at hcs
    obtain ⟨rfl, rfl⟩ := List.cons.inj hcs
    exact hword.startsNumber rest
  cases h with
  | unexpected _ hstart hletter hsign =>
    cases hcs
    rw [List.mem_append, not_or] at hsign
    have hnone : operatorSign? c = none :=
      Option.eq_none_iff_forall_ne_some.mpr fun _ h => hsign.1 (mem_operatorCharacters h)
    have hkind : punctuation? c = none :=
      Option.eq_none_iff_forall_ne_some.mpr fun _ h => hsign.2 (mem_punctuation h)
    have hnumber : (isDigit c || (c == '.' && startsWithDigit cs)) = false := hstart
    rw [nextToken, if_neg (by simp [hnumber]), if_neg (by simp [hletter]), hnone, hkind]
    rfl
  | secondPoint h hpoint =>
    rw [nextToken, if_pos (hliteral h), hcs, takeNumber_secondPoint h.numberTail (.inr hpoint)]
  | @letterAfterDigits word rest d h hletter =>
    have hends : ∀ e ∈ (d :: rest).head?, isDigit e = false ∧ e ≠ '.' := by
      rintro _ ⟨⟩
      exact ⟨isDigit_of_isLetter hletter, ne_point_of_isLetter hletter⟩
    rw [nextToken, if_pos (hliteral h), hcs, takeNumber_numberTail h.numberTail hends]
    simp [hletter]

/-- A text that does not start with a blank starts with a word, or is refused at once. -/
theorem word_or_stop {c : Char} (cs : List Char) (hblank : isBlank c = false) :
    ∃ word rest, c :: cs = word ++ rest ∧
      ((∃ kind, WrittenAs kind word ∧ EndsBefore kind rest) ∨
        ∃ fault, StopsAt word rest fault) := by
  by_cases hstart : startsNumber c cs = true
  · obtain ⟨word, rest, hcs, hliteral, hends⟩ := literal_extent hstart
    refine ⟨word, rest, hcs, ?_⟩
    cases rest with
    | nil => exact .inl ⟨.number, .number hliteral, endsBefore_nil _⟩
    | cons d rest =>
      rcases hends with hends | ⟨hpoint, hmem⟩
      · by_cases hletter : isLetter d = true
        · exact .inr ⟨_, .letterAfterDigits hliteral hletter⟩
        · refine .inl ⟨.number, .number hliteral, ?_⟩
          rintro _ ⟨⟩
          exact ⟨(hends d rfl).1, by simpa using hletter, (hends d rfl).2⟩
      · cases hpoint
        exact .inr ⟨_, .secondPoint hliteral hmem⟩
  · by_cases hletter : isLetter c = true
    · refine ⟨c :: cs.takeWhile isNameChar, cs.dropWhile isNameChar, ?_, .inl ⟨.identifier, ?_, ?_⟩⟩
      · rw [List.cons_append, List.takeWhile_append_dropWhile]
      · exact .identifier hletter fun d hd => List.mem_takeWhile_imp hd
      · intro d hd
        have hstop := List.head?_dropWhile_not isNameChar cs
        rw [Option.mem_def.mp hd] at hstop
        simpa using hstop
    · by_cases hsign : c ∈ operatorCharacters ++ ['(', ')', ',']
      · refine ⟨[c], cs, rfl, .inl ?_⟩
        rcases List.mem_append.mp hsign with hsign | hsign
        · exact ⟨.operator, .operator hsign, fun _ _ => trivial⟩
        · simp only [List.mem_cons, List.not_mem_nil, or_false] at hsign
          rcases hsign with rfl | rfl | rfl
          · exact ⟨.openParen, .openParen, fun _ _ => trivial⟩
          · exact ⟨.closeParen, .closeParen, fun _ _ => trivial⟩
          · exact ⟨.comma, .comma, fun _ _ => trivial⟩
      · exact ⟨[], c :: cs, rfl, .inr ⟨_, .unexpected hblank (by simpa using hstart)
          (by simpa using hletter) hsign⟩⟩

/-- Every text is made of words and blanks, or is refused. -/
theorem lexes_or_fails (p : Position) (cs : List Char) :
    (∃ tokens, Lexes p cs tokens) ∨ ∃ e, LexFails p cs e := by
  induction hn : cs.length using Nat.strong_induction_on generalizing p cs with
  | _ n ih =>
    cases cs with
    | nil => exact .inl ⟨_, .stop p⟩
    | cons c cs =>
      by_cases hblank : isBlank c = true
      · have hlength : cs.length < n := by
          rw [← hn, List.length_cons]
          omega
        rcases ih cs.length hlength (p.next c) cs rfl with ⟨tokens, h⟩ | ⟨e, h⟩
        · exact .inl ⟨tokens, .blank hblank h⟩
        · exact .inr ⟨e, .blank hblank h⟩
      · obtain ⟨word, rest, hcs, ⟨kind, hword, hends⟩ | ⟨fault, hstop⟩⟩ :=
          word_or_stop cs (by simpa using hblank)
        · have hlength : rest.length < n := by
            have hpositive := List.length_pos_iff.mpr hword.ne_nil
            rw [← hn, hcs, List.length_append]
            omega
          rw [hcs]
          rcases ih rest.length hlength (p.advance word) rest rfl with ⟨tokens, h⟩ | ⟨e, h⟩
          · exact .inl ⟨_, .word hword hends h⟩
          · exact .inr ⟨e, .word hword hends h⟩
        · rw [hcs]
          exact .inr ⟨_, .stop hstop⟩

@[simp] theorem scan_nil (p : Position) : scan p [] = .ok [.at .endOfInput [] [] p] := by
  rw [scan]

/-- A scan passes over a blank; anything else starts a token. -/
theorem scan_cons (p : Position) (c : Char) (cs : List Char) :
    scan p (c :: cs) =
      if isBlank c then scan (p.next c) cs
      else nextToken p c cs >>= fun (token, rest) =>
        (scan token.span.stop rest).map (token :: ·) := by
  rw [scan]
  split
  next => rfl
  next =>
    split
    next e he =>
      rw [he]
      rfl
    next token rest he =>
      show (scan token.span.stop rest).map (token :: ·) = _
      rw [he]
      rfl

theorem scan_blank {p : Position} {c : Char} {cs : List Char} (hblank : isBlank c = true) :
    scan p (c :: cs) = scan (p.next c) cs := by
  rw [scan_cons, if_pos hblank]

theorem scan_token {p : Position} {c : Char} {cs rest : List Char} {token : Token}
    (hblank : ¬ isBlank c = true) (h : nextToken p c cs = .ok (token, rest)) :
    scan p (c :: cs) = (scan token.span.stop rest).map (token :: ·) := by
  rw [scan_cons, if_neg hblank, h]
  rfl

theorem scan_refused {p : Position} {c : Char} {cs : List Char} {e : LexError}
    (hblank : ¬ isBlank c = true) (h : nextToken p c cs = .error e) :
    scan p (c :: cs) = .error e := by
  rw [scan_cons, if_neg hblank, h]
  rfl

theorem scan_word {p : Position} {kind : TokenKind} {word rest : List Char}
    (h : WrittenAs kind word) (hends : EndsBefore kind rest) :
    scan p (word ++ rest) = (scan (p.advance word) rest).map (wordToken kind word p :: ·) := by
  obtain ⟨c, cs, rfl⟩ := List.exists_cons_of_ne_nil h.ne_nil
  exact scan_token h.not_blank (nextToken_written rfl h hends p)

theorem scan_of_lexes {p : Position} {cs : List Char} {tokens : List Token}
    (h : Lexes p cs tokens) : scan p cs = .ok tokens := by
  induction h with
  | stop p => exact scan_nil p
  | blank hblank _ ih => rw [scan_blank hblank, ih]
  | word hword hends _ ih =>
    rw [scan_word hword hends, ih]
    rfl

theorem scan_of_lexFails {p : Position} {cs : List Char} {e : LexError} (h : LexFails p cs e) :
    scan p cs = .error e := by
  induction h with
  | @stop p word rest fault h =>
    have hne : word ++ rest ≠ [] := List.append_ne_nil_of_right_ne_nil word h.ne_nil
    obtain ⟨c, cs, hcs⟩ := List.exists_cons_of_ne_nil hne
    rw [hcs]
    exact scan_refused (h.not_blank hcs.symm) (nextToken_stopsAt hcs.symm h p)
  | blank hblank _ ih => rw [scan_blank hblank, ih]
  | word hword hends _ ih =>
    rw [scan_word hword hends, ih]
    rfl

/-- A scan accepts the texts that are made of words and blanks. -/
theorem scan_eq_ok_iff {p : Position} {cs : List Char} {tokens : List Token} :
    scan p cs = .ok tokens ↔ Lexes p cs tokens := by
  refine ⟨fun h => ?_, scan_of_lexes⟩
  rcases lexes_or_fails p cs with ⟨others, hlexes⟩ | ⟨e, hfails⟩
  · rw [scan_of_lexes hlexes] at h
    cases h
    exact hlexes
  · rw [scan_of_lexFails hfails] at h
    cases h

/-- It fails where a text is refused. -/
theorem scan_eq_error_iff {p : Position} {cs : List Char} {e : LexError} :
    scan p cs = .error e ↔ LexFails p cs e := by
  refine ⟨fun h => ?_, scan_of_lexFails⟩
  rcases lexes_or_fails p cs with ⟨tokens, hlexes⟩ | ⟨e', hfails⟩
  · rw [scan_of_lexes hlexes] at h
    cases h
  · rw [scan_of_lexFails hfails] at h
    cases h
    exact hfails

theorem tokenize_of_lexes {source : String} {cs : List Char} {tokens : List Token}
    (hchars : source.toList = cs) (h : Lexes .start cs tokens) : tokenize source = .ok tokens := by
  rw [tokenize, hchars]
  exact scan_of_lexes h

/-- The end of the input comes last, and the tokens before it are words. -/
theorem Lexes.body {p : Position} {cs : List Char} {tokens : List Token} (h : Lexes p cs tokens) :
    ∃ body, tokens = body ++ [.at .endOfInput [] [] (p.advance cs)] ∧
      ∀ token ∈ body, ∃ kind word q, WrittenAs kind word ∧ token = wordToken kind word q := by
  induction h with
  | stop p => exact ⟨[], rfl, fun _ ht => nomatch ht⟩
  | blank _ _ ih => exact ih
  | @word p kind word rest tokens hword _ _ ih =>
    obtain ⟨body, rfl, hbody⟩ := ih
    exact ⟨wordToken kind word p :: body, by rw [advance_append]; rfl,
      List.forall_mem_cons.mpr ⟨⟨kind, word, p, hword, rfl⟩, hbody⟩⟩

theorem Lexes.ne_nil {p : Position} {cs : List Char} {tokens : List Token} (h : Lexes p cs tokens) :
    tokens ≠ [] := by
  obtain ⟨body, rfl, -⟩ := h.body
  simp

theorem Lexes.blanks {gap cs : List Char} {tokens : List Token} {p : Position}
    (hblank : ∀ c ∈ gap, isBlank c = true) (h : Lexes (p.advance gap) cs tokens) :
    Lexes p (gap ++ cs) tokens := by
  induction gap generalizing p with
  | nil => exact h
  | cons c gap ih =>
    exact .blank (hblank c (by simp)) (ih (fun d hd => hblank d (List.mem_cons_of_mem _ hd)) h)

/-- A text keeps its tokens before anything that breaks it off, whose tokens come after them. -/
theorem Lexes.join {p : Position} {cs tail : List Char} {tokens others : List Token}
    (h : Lexes p cs tokens) (htail : Breaks tail) (hothers : Lexes (p.advance cs) tail others) :
    Lexes p (cs ++ tail) (tokens.dropLast ++ others) := by
  induction h with
  | stop p => exact hothers
  | blank hblank _ ih => exact .blank hblank (ih hothers)
  | @word p kind word rest tokens hword hends h ih =>
    rw [advance_append] at hothers
    rw [List.append_assoc, List.dropLast_cons_of_ne_nil h.ne_nil]
    exact .word hword (hends.append htail) (ih hothers)

theorem startsNumber_append {tail : List Char} (htail : Breaks tail) (c : Char) (cs : List Char) :
    startsNumber c (cs ++ tail) = startsNumber c cs := by
  have hdigit : startsWithDigit (cs ++ tail) = startsWithDigit cs := by
    match cs, tail with
    | _ :: _, _ => rfl
    | [], [] => rfl
    | [], _ :: _ => exact htail.digit.1
  rw [startsNumber, startsNumber, hdigit]

theorem StopsAt.append {word rest tail : List Char} {fault : LexFault} (h : StopsAt word rest fault)
    (htail : Breaks tail) : StopsAt word (rest ++ tail) fault := by
  cases h with
  | unexpected hblank hstart hletter hsign =>
    exact .unexpected hblank ((startsNumber_append htail _ _).trans hstart) hletter hsign
  | secondPoint h hpoint => exact .secondPoint h hpoint
  | letterAfterDigits h hletter => exact .letterAfterDigits h hletter

/-- A refused text stays refused before anything that breaks it off. -/
theorem LexFails.append {p : Position} {cs tail : List Char} {e : LexError} (h : LexFails p cs e)
    (htail : Breaks tail) : LexFails p (cs ++ tail) e := by
  induction h with
  | stop h =>
    rw [List.append_assoc]
    exact .stop (h.append htail)
  | blank hblank _ ih => exact .blank hblank ih
  | word hword hends _ ih =>
    rw [List.append_assoc]
    exact .word hword (hends.append htail) ih

/-- A refused text is read before the error, up to a number that was started. -/
theorem LexFails.read {p : Position} {cs : List Char} {e : LexError} (h : LexFails p cs e) :
    ∃ before word after tokens, cs = before ++ word ++ after ∧ after ≠ [] ∧
      Lexes p before tokens ∧ (word = [] ∨ IsLiteral word) ∧
      e.position = p.advance (before ++ word) := by
  induction h with
  | @stop p word rest fault h =>
    exact ⟨[], word, rest, _, rfl, h.ne_nil, .stop p, h.word_cases, rfl⟩
  | @blank p c cs e hblank _ ih =>
    obtain ⟨before, word, after, tokens, rfl, hafter, hbefore, hword, he⟩ := ih
    exact ⟨c :: before, word, after, tokens, rfl, hafter, .blank hblank hbefore, hword, he⟩
  | @word p kind first rest e hfirst hends _ ih =>
    obtain ⟨before, word, after, tokens, rfl, hafter, hbefore, hword, he⟩ := ih
    rw [List.append_assoc] at hends
    refine ⟨first ++ before, word, after, _, by simp, hafter, .word hfirst hends.shorter hbefore,
      hword, ?_⟩
    rw [he, List.append_assoc, advance_append p first]

end Reckoner
