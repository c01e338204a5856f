import Mathlib.Data.List.Chain
import Reckoner.Proofs.Layout
import Reckoner.Proofs.Margins

namespace Reckoner

def Token.content (token : Token) : TokenKind × String × String :=
  (token.kind, token.value, token.raw)

structure Lexeme where
  kind : TokenKind
  word : List Char
  written : WrittenAs kind word

def Lexeme.content (lexeme : Lexeme) : TokenKind × String × String :=
  (lexeme.kind, String.ofList (plainSpelling lexeme.word), String.ofList lexeme.word)

/-- Numbers and identifiers: two of them without a blank between them may be read as one word, or be
refused. -/
def Lexeme.RunsOn (lexeme : Lexeme) : Prop :=
  lexeme.kind = .number ∨ lexeme.kind = .identifier

structure Spaced where
  lexeme : Lexeme
  gap : List Char
  blank : ∀ c ∈ gap, isBlank c = true

/-- The text in which lexemes are written with their blanks. -/
def spelled (items : List Spaced) : List Char :=
  items.flatMap fun item => item.lexeme.word ++ item.gap

/-- Between two numbers or identifiers there is a blank. -/
def Separated (items : List Spaced) : Prop :=
  items.IsChain fun a b => a.lexeme.RunsOn → b.lexeme.RunsOn → a.gap ≠ []

/-- No token is cut by an offset. -/
def Boundary (tokens : List Token) (n : ℕ) : Prop :=
  ∀ token ∈ tokens, ¬ (token.span.start.offset < n ∧ n < token.span.stop.offset)

instance (tokens : List Token) (n : ℕ) : Decidable (Boundary tokens n) :=
  inferInstanceAs (Decidable (∀ token ∈ tokens, _))

theorem breaks_of_gap {gap : List Char} (hgap : gap ≠ []) (hblank : ∀ c ∈ gap, isBlank c = true)
    (rest : List Char) : Breaks (gap ++ rest) := by
  obtain ⟨c, gap, rfl⟩ := List.exists_cons_of_ne_nil hgap
  rintro d ⟨⟩
  exact breaks_of_blank hblank c rfl

theorem Lexeme.breaks {lexeme : Lexeme} (h : ¬ lexeme.RunsOn) (rest : List Char) :
    Breaks (lexeme.word ++ rest) := by
  obtain ⟨kind, word, hword⟩ := lexeme
  cases hword with
  | number | identifier => exact absurd (by simp [Lexeme.RunsOn]) h
  | operator hc =>
    rintro d ⟨⟩
    exact (sign_alone _ (by simp [hc])).2
  | _ =>
    rintro d ⟨⟩
    exact (sign_alone _ (by simp)).2

theorem Lexeme.endsBefore {lexeme : Lexeme} (h : ¬ lexeme.RunsOn) (rest : List Char) :
    EndsBefore lexeme.kind rest := by
  intro d _
  split
  next hk => exact absurd (.inl hk) h
  next hk => exact absurd (.inr hk) h
  next => trivial

theorem endsBefore_spelled {item : Spaced} {items : List Spaced} (h : Separated (item :: items)) :
    EndsBefore item.lexeme.kind (item.gap ++ spelled items) := by
  by_cases hname : item.lexeme.RunsOn
  · by_cases hgap : item.gap = []
    · cases items with
      | nil =>
        rw [hgap]
        exact endsBefore_nil _
      | cons next items =>
        have hnext : ¬ next.lexeme.RunsOn := fun hnext =>
          (List.isChain_cons_cons.mp h).1 hname hnext hgap
        rw [hgap, List.nil_append, spelled, List.flatMap_cons, List.append_assoc]
        exact .of_breaks (Lexeme.breaks hnext _)
    · exact .of_breaks (breaks_of_gap hgap item.blank _)
  · exact Lexeme.endsBefore hname _

theorem lexes_spelled {items : List Spaced} (h : Separated items) (p : Position) :
    ∃ tokens, Lexes p (spelled items) tokens ∧
      tokens.map Token.content = items.map (·.lexeme.content) ++ [(.endOfInput, "", "")] := by
  induction items generalizing p with
  | nil => exact ⟨_, .stop p, rfl⟩
  | cons item items ih =>
    obtain ⟨tokens, hlexes, hcontent⟩ :=
      ih h.tail ((p.advance item.lexeme.word).advance item.gap)
    refine ⟨wordToken item.lexeme.kind item.lexeme.word p :: tokens, ?_, ?_⟩
    · rw [spelled, List.flatMap_cons, List.append_assoc]
      exact .word item.lexeme.written (endsBefore_spelled h) (.blanks item.blank hlexes)
    · rw [List.map_cons, hcontent]
      rfl

/-- A text is read in two parts where it is cut at a boundary. -/
theorem Lexes.split {p : Position} {cs before after : List Char} {tokens : List Token}
    (h : Lexes p cs tokens) (hcs : cs = before ++ after)
    (hboundary : Boundary tokens (p.offset + before.length)) :
    ∃ front back, Lexes p before front ∧ Lexes (p.advance before) after back ∧
      tokens = front.dropLast ++ back := by
  induction h generalizing before with
  | stop p =>
    obtain ⟨rfl, rfl⟩ := List.append_eq_nil_iff.mp hcs.symm
    exact ⟨_, _, .stop p, .stop p, rfl⟩
  | @blank p c cs tokens hblank h ih =>
    cases before with
    | nil =>
      obtain rfl : c :: cs = after := hcs
      exact ⟨_, _, .stop p, .blank hblank h, rfl⟩
    | cons d before =>
      cases hcs
      have hoffset : (p.next c).offset + before.length = p.offset + (c :: before).length := by
        have hnext : (p.next c).offset = p.offset + 1 := offset_advance_from p [c]
        rw [hnext, List.length_cons]
        omega
      obtain ⟨front, back, hfront, hback, htokens⟩ := ih rfl (by rwa [hoffset])
      exact ⟨front, back, .blank hblank hfront, hback, htokens⟩
  | @word p kind word rest tokens hword hends h ih =>
    rcases List.eq_nil_or_concat before with rfl | ⟨_, _, hne⟩
    · obtain rfl : word ++ rest = after := hcs
      exact ⟨_, _, .stop p, .word hword hends h, rfl⟩
    · have hpositive : 0 < before.length := by simp [hne]
      have hstop : (p.advance word).offset = p.offset + word.length := offset_advance_from p word
      obtain ⟨hnot, hothers⟩ := List.forall_mem_cons.mp hboundary
      have hlength : word.length ≤ before.length := by
        by_contra hlt
        refine hnot ⟨Nat.lt_add_of_pos_right hpositive, ?_⟩
        show p.offset + before.length < (p.advance word).offset
        omega
      obtain ⟨middle, rfl⟩ : word <+: before :=
        List.prefix_of_prefix_length_le ⟨rest, rfl⟩ ⟨after, hcs.symm⟩ hlength
      obtain rfl : rest = middle ++ after := by
        rwa [List.append_assoc, List.append_cancel_left_eq] at hcs
      have hoffset : (p.advance word).offset + middle.length =
          p.offset + (word ++ middle).length := by
        rw [hstop, List.length_append, Nat.add_assoc]
      obtain ⟨front, back, hfront, hback, rfl⟩ := ih rfl (by rwa [hoffset])
      rw [advance_append]
      refine ⟨_, back, .word hword hends.shorter hfront, hback, ?_⟩
      rw [List.dropLast_cons_of_ne_nil hfront.ne_nil, List.cons_append]

/-- Blanks put into a text at a boundary change nothing but the places of its tokens. -/
theorem Lexes.insert {before after blanks : List Char} {tokens : List Token}
    (h : Lexes .start (before ++ after) tokens) (hboundary : Boundary tokens before.length)
    (hblank : ∀ c ∈ blanks, isBlank c = true) :
    ∃ moved, Lexes .start (before ++ (blanks ++ after)) moved ∧
      moved.map (Token.moved .forget) = tokens.map (Token.moved .forget) := by
  by_cases hblanks : blanks = []
  · exact ⟨tokens, by rwa [hblanks], rfl⟩
  · have hcut : Boundary tokens (Position.start.offset + before.length) := by
      rwa [show Position.start.offset = 0 from rfl, Nat.zero_add]
    obtain ⟨front, back, hfront, hback, rfl⟩ := h.split rfl hcut
    obtain ⟨others, hothers, hsame⟩ :=
      hback.elsewhere ((Position.start.advance before).advance blanks)
    refine ⟨_, hfront.join (breaks_of_gap hblanks hblank after) (.blanks hblank hothers), ?_⟩
    rw [List.map_append, List.map_append, hsame]

/-- Where a token starts or stops, no token is cut. -/
theorem Covers.boundary {first : ℕ} {text : List Char} {tokens : List Token} {token : Token}
    (h : Covers first text tokens) (ht : token ∈ tokens) :
    Boundary tokens token.span.start.offset ∧ Boundary tokens token.span.stop.offset := by
  have hapart : ∀ ⦃a⦄, a ∈ tokens → ∀ ⦃b⦄, b ∈ tokens → a = b ∨
      a.span.stop.offset ≤ b.span.start.offset ∨ b.span.stop.offset ≤ a.span.start.offset := by
    exact List.Pairwise.forall_of_forall_of_flip (fun a _ => Or.inl rfl)
      (h.ordered.imp fun hab => Or.inr (Or.inl hab)) (h.ordered.imp fun hab => Or.inr (Or.inr hab))
  have hforward := (h.stands token ht).forward
  constructor <;>
  · intro other hother
    have hother' := (h.stands other hother).forward
    rcases hapart ht hother with rfl | hbefore | hafter <;> omega

theorem map_content_of_forget {tokens moved : List Token}
    (h : moved.map (Token.moved .forget) = tokens.map (Token.moved .forget)) :
    moved.map Token.content = tokens.map Token.content := by
  have hcontent : ∀ ts : List Token,
      (ts.map (Token.moved .forget)).map Token.content = ts.map Token.content := by
    intro ts
    rw [List.map_map]
    rfl
  rw [← hcontent, h, hcontent]

/-- A text written from lexemes with blanks around them, so that numbers and identifiers are kept
apart, is read as these lexemes and the end of the input. Blanks put into any text that is read, at
a place where they cut no token, and so before any token and after it, change neither what its
tokens say nor, but for the place of an error, what it resolves to. -/
theorem reading_undoes_spelling :
    (∀ {lead : List Char} {items : List Spaced}, (∀ c ∈ lead, isBlank c = true) →
      Separated items →
      (tokenize (String.ofList (lead ++ spelled items))).map (List.map Token.content) =
        .ok (items.map (·.lexeme.content) ++ [(.endOfInput, "", "")])) ∧
    ∀ {before after : String} {tokens : List Token}, tokenize (before ++ after) = .ok tokens →
      (∀ token ∈ tokens, Boundary tokens token.span.start.offset ∧
        Boundary tokens token.span.stop.offset) ∧
      ∀ {blanks : String}, (∀ c ∈ blanks.toList, isBlank c = true) →
        Boundary tokens before.length →
        (tokenize (before ++ blanks ++ after)).map (List.map Token.content) =
          .ok (tokens.map Token.content) ∧
        ∀ s : Session,
          (s.resolve (before ++ blanks ++ after)).mapError (ResolveError.moved .forget) =
            (s.resolve (before ++ after)).mapError (ResolveError.moved .forget) := by
  constructor
  · intro lead items hlead hseparated
    obtain ⟨tokens, hlexes, hcontent⟩ := lexes_spelled hseparated (Position.start.advance lead)
    have hscan : tokenize (String.ofList (lead ++ spelled items)) = .ok tokens :=
      tokenize_of_lexes String.toList_ofList (.blanks hlead hlexes)
    rw [hscan, ← hcontent]
    rfl
  · intro before after tokens h
    have hlexes : Lexes .start (before.toList ++ after.toList) tokens := by
      rw [← String.toList_append]
      exact scan_eq_ok_iff.mp h
    refine ⟨fun token ht => (hlexes.covers [] rfl).boundary ht, fun {blanks} hblank hboundary => ?_⟩
    rw [← String.length_toList] at hboundary
    obtain ⟨moved, hmoved, hsame⟩ := hlexes.insert hboundary hblank
    have hscan : tokenize (before ++ blanks ++ after) = .ok moved :=
      tokenize_of_lexes (by simp [String.toList_append]) hmoved
    have halike : Alike (before ++ blanks ++ after) (before ++ after) := by
      rw [Alike, hscan, h]
      simp [unplaced, hsame]
    refine ⟨?_, resolve_alike halike⟩
    rw [hscan, ← map_content_of_forget hsame]
    rfl

theorem product_spelled :
    ∃ items : List Spaced, Separated items ∧
      String.ofList (['\t'] ++ spelled items) = "\t1.5× (x\n2)" ∧
      items.map (·.lexeme.content) =
        [(.number, "1.5", "1.5"), (.operator, "*", "×"), (.openParen, "(", "("),
          (.identifier, "x", "x"), (.number, "2", "2"), (.closeParen, ")", ")")] := by
  have hone : Digits ['1'] := by simp [Digits, isDigit]
  have htwo : Digits ['2'] := by simp [Digits, isDigit]
  have hfive : Digits ['5'] := by simp [Digits, isDigit]
  have htimes : '×' ∈ operatorCharacters := by decide
  have hname : isLetter 'x' = true := by decide +kernel
  have hspace : ∀ c ∈ [' '], isBlank c = true := by simp [isBlank]
  have hline : ∀ c ∈ ['\n'], isBlank c = true := by simp [isBlank]
  refine ⟨[⟨⟨.number, ['1', '.', '5'], .number (.pointed hone hfive)⟩, [], by simp⟩,
    ⟨⟨.operator, ['×'], .operator htimes⟩, [' '], hspace⟩,
    ⟨⟨.openParen, ['('], .openParen⟩, [], by simp⟩,
    ⟨⟨.identifier, ['x'], .identifier hname (by simp)⟩, ['\n'], hline⟩,
    ⟨⟨.number, ['2'], .number (.whole htwo)⟩, [], by simp⟩,
    ⟨⟨.closeParen, [')'], .closeParen⟩, [], by simp⟩], ?_, rfl, rfl⟩
  simp [Separated, Lexeme.RunsOn]

def sumOfTwelve : List Token :=
  [.written .number "12" 0, .written .operator "+" 2, .written .identifier "x" 3,
    .written .endOfInput "" 4]

theorem product_read :
    (tokenize "\t1.5× (x\n2)").map (List.map Token.content) =
        .ok [(.number, "1.5", "1.5"), (.operator, "*", "×"), (.openParen, "(", "("),
          (.identifier, "x", "x"), (.number, "2", "2"), (.closeParen, ")", ")"),
          (.endOfInput, "", "")] ∧
      (tokenize "12 \t+x").map (List.map Token.content) =
        .ok [(.number, "12", "12"), (.operator, "+", "+"), (.identifier, "x", "x"),
          (.endOfInput, "", "")] ∧
      ∀ s : Session, (s.resolve "12 \t+x").mapError (ResolveError.moved .forget) =
        (s.resolve "12+x").mapError (ResolveError.moved .forget) := by
  obtain ⟨items, hseparated, htext, hcontent⟩ := product_spelled
  have hlead : ∀ c ∈ ['\t'], isBlank c = true := List.all_iff_forall_prop.mp (by decide)
  have hproduct := reading_undoes_spelling.1 hlead hseparated
  rw [htext, hcontent] at hproduct
  have hsum : tokenize ("12" ++ "+x") = .ok sumOfTwelve := eq_ok_of_toOption (by decide +kernel)
  have hblank : ∀ c ∈ " \t".toList, isBlank c = true := List.all_iff_forall_prop.mp (by decide)
  have hcut : Boundary sumOfTwelve "12".length := by decide +kernel
  have hspaced : "12" ++ " \t" ++ "+x" = "12 \t+x" := by decide +kernel
  have hplain : "12" ++ "+x" = "12+x" := by decide +kernel
  have hinserted := (reading_undoes_spelling.2 hsum).2 hblank hcut
  rw [hspaced, hplain] at hinserted
  exact ⟨hproduct, hinserted.1, hinserted.2⟩

end Reckoner
