import Mathlib.Data.List.Chain
import Reckoner.Proofs.Acceptance
import Reckoner.Proofs.Conversion
import Reckoner.Proofs.OpenParentheses

namespace Reckoner

/-- The first of two neighbours is not a plus sign that the second, closing a parenthesis, leaves
without an operand. -/
def Attached (token next : Token) : Prop :=
  ¬ (token.IsSign "+" ∧ next.kind = .closeParen)

instance (token next : Token) : Decidable (Attached token next) :=
  inferInstanceAs (Decidable (¬ _))

def PlusAttached (ts : List Token) : Prop :=
  ts.IsChain Attached

instance (ts : List Token) : Decidable (PlusAttached ts) :=
  inferInstanceAs (Decidable (ts.IsChain Attached))

/-- Tokens without a loose plus sign, which may have others before and after them. -/
structure Tidy (ts : List Token) : Prop where
  attached : PlusAttached ts
  first : ∀ token ∈ ts.head?, token.kind ≠ .closeParen
  last : ∀ token ∈ ts.getLast?, ¬ token.IsSign "+"

theorem tidy_nil : Tidy [] :=
  ⟨.nil, by simp, by simp⟩

theorem not_plus_of_kind {token : Token} {text : String} {kind : TokenKind}
    (hk : token.kind = kind) (hne : kind ≠ .operator) : ¬ token.IsSign text :=
  fun h => hne (hk.symm.trans h.1)

section
variable {ts us : List Token} {token : Token}

theorem tidy_singleton (hclose : token.kind ≠ .closeParen) (hplus : ¬ token.IsSign "+") :
    Tidy [token] where
  attached := .singleton token
  first := by
    intro t ht
    cases ht
    exact hclose
  last := by
    intro t ht
    cases ht
    exact hplus

theorem tidy_of_kind {kind : TokenKind} (hk : token.kind = kind) (hclose : kind ≠ .closeParen)
    (hsign : kind ≠ .operator) : Tidy [token] :=
  tidy_singleton (by rw [hk]; exact hclose) (not_plus_of_kind hk hsign)

theorem PlusAttached.append (h : PlusAttached ts) (h' : PlusAttached us)
    (hlast : ∀ token ∈ ts.getLast?, ¬ token.IsSign "+") : PlusAttached (ts ++ us) :=
  List.isChain_append.mpr ⟨h, h', fun token ht _ _ hpair => hlast token ht hpair.1⟩

theorem Tidy.append (h : Tidy ts) (h' : Tidy us) : Tidy (ts ++ us) := by
  refine ⟨h.attached.append h'.attached h.last, ?_, ?_⟩
  · cases ts with
    | nil => exact h'.first
    | cons token ts => exact h.first
  · rcases List.eq_nil_or_concat us with rfl | ⟨init, last, rfl⟩
    · rw [List.append_nil]
      exact h.last
    · have hlast := h'.last
      simp only [List.concat_eq_append, List.getLast?_concat] at hlast
      simpa [← List.append_assoc] using hlast

/-- A parenthesis closes after a token that is no plus sign. -/
theorem Tidy.close {closing : Token} (h : Tidy ts) (hne : ts ≠ [])
    (hc : closing.kind = .closeParen) : Tidy (ts ++ [closing]) := by
  refine ⟨h.attached.append (.singleton closing) h.last, ?_, ?_⟩
  · cases ts with
    | nil => exact absurd rfl hne
    | cons token ts => exact h.first
  · intro token ht
    rw [List.getLast?_concat] at ht
    cases ht
    exact not_plus_of_kind hc (by decide)

/-- A sign, a plus sign too, stands before an operand. -/
theorem Tidy.operand {sign : Token} {text : String} (hs : sign.IsSign text) (h : Tidy us)
    (hne : us ≠ []) : Tidy (sign :: us) := by
  refine ⟨List.isChain_cons.mpr ⟨?_, h.attached⟩, ?_, ?_⟩
  · intro next hnext hpair
    exact h.first next hnext hpair.2
  · intro token ht
    cases ht
    rw [hs.1]
    decide
  · cases us with
    | nil => exact absurd rfl hne
    | cons next us => simpa using h.last

end

mutual

theorem Spells.tidy {level : Level} {ts : List Token} {tree : Tree} :
    Spells false level ts tree → Tidy ts
  | .number _ hk => tidy_of_kind hk (by decide) (by decide)
  | .name _ hk => tidy_of_kind hk (by decide) (by decide)
  | .group ho hc hs =>
    have hopen : Tidy [_] := tidy_of_kind ho (by decide) (by decide)
    (hopen.append hs.tidy).close (by simp) hc
  | .emptyCall hn hc ho hsigns => by
    have hnone := List.eq_nil_iff_forall_not_mem.mpr
      fun sign hsign => absurd (hsigns sign hsign).1 (by decide)
    have hname : Tidy [_] := tidy_of_kind hn (by decide) (by decide)
    have hopen : Tidy [_] := tidy_of_kind ho (by decide) (by decide)
    rw [hnone]
    exact (hname.append hopen).close (by simp) hc
  | .call hn hc ho ha hs =>
    have hname : Tidy [_] := tidy_of_kind hn (by decide) (by decide)
    have hopen : Tidy [_] := tidy_of_kind ho (by decide) (by decide)
    ((((hname.append hopen).append ha.tidy).append hs.tidy)).close (by simp) hc
  | .factorial hsign hs =>
    hs.tidy.append (tidy_singleton (by rw [hsign.1]; decide) (by rw [Token.IsSign, hsign.2]; simp))
  | .binary _ hsign hl hr => hl.tidy.append (hr.tidy.operand hsign hr.ne_nil)
  | .negation hsign hs => hs.tidy.operand hsign hs.ne_nil
  | .plus hsign hs => hs.tidy.operand hsign hs.ne_nil
  | .loosen _ hs => hs.tidy

theorem SpellsArguments.tidy {ts : List Token} {args : List Tree} :
    SpellsArguments false ts args → Tidy ts
  | .nil => tidy_nil
  | .concat ha hs hc =>
    have hcomma : Tidy [_] := tidy_of_kind hc (by decide) (by decide)
    (ha.tidy.append hs.tidy).append hcomma

end

section
variable {ts us : List Token} {token : Token}

theorem PlusAttached.left (h : PlusAttached (ts ++ us)) : PlusAttached ts :=
  (List.isChain_append.mp h).1

theorem PlusAttached.right (h : PlusAttached (ts ++ us)) : PlusAttached us :=
  (List.isChain_append.mp h).2.1

theorem PlusAttached.tail (h : PlusAttached (token :: us)) : PlusAttached us :=
  (List.isChain_cons.mp h).2

/-- Plus signs before a closing parenthesis are loose, the last of them at least. -/
theorem PlusAttached.no_pluses {signs : List Token} {closing : Token}
    (h : PlusAttached (signs ++ [closing])) (hsigns : ∀ sign ∈ signs, sign.IsSign "+")
    (hc : closing.kind = .closeParen) : signs = [] := by
  rcases List.eq_nil_or_concat signs with rfl | ⟨init, last, rfl⟩
  · rfl
  · rw [List.concat_eq_append] at h hsigns
    have hpair := (List.isChain_append.mp h).2.2 last (by simp) closing rfl
    exact absurd ⟨hsigns last (by simp), hc⟩ hpair

end

mutual

/-- Where every plus sign before a parenthesis has its operand, the lenient grammar says no more
than the strict one. -/
theorem Spells.strict {level : Level} {ts : List Token} {tree : Tree} :
    Spells true level ts tree → PlusAttached ts → Spells false level ts tree
  | .number token hk, _ => .number token hk
  | .name token hk, _ => .name token hk
  | .group ho hc hs, h => .group ho hc (hs.strict h.left.tail)
  | .emptyCall hn hc ho hsigns, h => by
    have hnone := h.tail.tail.no_pluses (fun sign hs => (hsigns sign hs).2) hc
    exact .emptyCall hn hc ho (by simp [hnone])
  | .call hn hc ho ha hs, h =>
    .call hn hc ho (ha.strict h.left.left.tail.tail) (hs.strict h.left.right)
  | .factorial hsign hs, h => .factorial hsign (hs.strict h.left)
  | .binary op hsign hl hr, h => .binary op hsign (hl.strict h.left) (hr.strict h.right.tail)
  | .negation hsign hs, h => .negation hsign (hs.strict h.tail)
  | .plus hsign hs, h => .plus hsign (hs.strict h.tail)
  | .loosen hle hs, h => .loosen hle (hs.strict h)

theorem SpellsArguments.strict {ts : List Token} {args : List Tree} :
    SpellsArguments true ts args → PlusAttached ts → SpellsArguments false ts args
  | .nil, _ => .nil
  | .concat ha hs hc, h => .concat (ha.strict h.left.left) (hs.strict h.left.right) hc

end

section
variable {tokens : List Token} {target : Option Token} {tree : Tree}

theorem Sentence.strict (h : Sentence true tokens target tree) (hplus : PlusAttached tokens) :
    Sentence false tokens target tree := by
  cases h with
  | expression hs hstop => exact .expression (hs.strict hplus.left) hstop
  | assignment hname hsign hs hstop =>
    exact .assignment hname hsign (hs.strict hplus.left.tail.tail) hstop

theorem Sentence.plusAttached (h : Sentence false tokens target tree) : PlusAttached tokens := by
  cases h with
  | expression hs hstop => exact hs.tidy.attached.append (.singleton _) hs.tidy.last
  | @assignment name sign stop ts tree hname hsign hs hstop =>
    have hnot : Tidy [name] := tidy_of_kind hname (by decide) (by decide)
    have htarget := hnot.append (hs.tidy.operand hsign hs.ne_nil)
    exact htarget.attached.append (.singleton stop) htarget.last

end

theorem ofTokens_not_fault {source : String} {tokens : List Token} (f : Fault)
    (hshape : ScanShape tokens) : Expression.ofTokens source tokens ≠ .error (.fault f) := by
  have hbody := hshape.body
  unfold Expression.ofTokens
  split
  next target body hsplit =>
    rw [hsplit] at hbody
    split
    · obtain ⟨_, _, hnil, _⟩ := hbody
      simp at hnil
    next first rest =>
      split
      · split <;> simp [reject]
      · cases hrun : Conversion.start.run (first :: rest) with
        | ok program => simp
        | error e =>
          intro heq
          cases heq
          exact run_not_fault f hbody .nil hrun

/-- The tokens of a text are accepted as a sentence of the lenient grammar or rejected with an
error, and what is rejected is a sentence of neither grammar. An accepted text is a sentence of the
strict grammar exactly when none of its plus signs stands before a closing parenthesis. -/
theorem accepted_or_rejected {source : String} {tokens : List Token}
    (h : tokenize source = .ok tokens) :
    (∃ e tree, Expression.ofTokens source tokens = .ok e ∧
      Sentence true tokens e.target tree ∧ e.program = tree.postorder ∧
      (Sentence false tokens e.target tree ↔ PlusAttached tokens)) ∨
    ∃ p, Expression.ofTokens source tokens = .error (.rejected p) ∧
      ∀ lenient target tree, ¬ Sentence lenient tokens target tree := by
  have hshape := tokenize_shape h
  cases hresult : Expression.ofTokens source tokens with
  | ok e =>
    obtain ⟨tree, hsentence, hprogram⟩ := sentence_of_ofTokens hshape hresult
    exact .inl ⟨e, tree, rfl, hsentence, hprogram, Sentence.plusAttached, hsentence.strict⟩
  | error error =>
    match error with
    | .fault f => exact absurd hresult (ofTokens_not_fault f hshape)
    | .rejected p =>
      refine .inr ⟨p, rfl, ?_⟩
      intro lenient target tree hsentence
      rw [ofTokens_of_sentence hsentence source] at hresult
      cases hresult

/-- The tokens of `sin(+2)`. -/
def signedSineTokens : List Token :=
  [.written .identifier "sin" 0, .written .openParen "(" 3, .written .operator "+" 4,
   .written .number "2" 5, .written .closeParen ")" 6, .written .endOfInput "" 7]

theorem signedSine_accepted :
    tokenize "sin(+2)" = .ok signedSineTokens ∧
      ∃ e tree, Expression.ofTokens "sin(+2)" signedSineTokens = .ok e ∧
        Sentence false signedSineTokens e.target tree := by
  have htokens : tokenize "sin(+2)" = .ok signedSineTokens :=
    eq_ok_of_toOption (by decide +kernel)
  obtain ⟨e, tree, haccepted, _, _, hstrict⟩ | ⟨p, hrejected, _⟩ := accepted_or_rejected htokens
  · exact ⟨htokens, e, tree, haccepted, hstrict.mpr (by decide)⟩
  · have haccepted : (Expression.ofTokens "sin(+2)" signedSineTokens).toOption.isSome = true := by
      decide +kernel
    rw [hrejected] at haccepted
    cases haccepted

/-- The tokens of `sin(+)`. -/
def loosePlusTokens : List Token :=
  [.written .identifier "sin" 0, .written .openParen "(" 3, .written .operator "+" 4,
   .written .closeParen ")" 5, .written .endOfInput "" 6]

/-- The plus sign of `sin(+)` leaves no trace on the stack, so the call passes for an empty one. -/
theorem loosePlus_accepted :
    tokenize "sin(+)" = .ok loosePlusTokens ∧
      Expression.ofTokens "sin(+)" loosePlusTokens =
        .ok ⟨"sin(+)", [⟨.call, "sin", "sin", ⟨⟨1, 1, 0⟩, ⟨1, 7, 6⟩⟩, 0⟩], none⟩ ∧
      ∀ target tree, ¬ Sentence false loosePlusTokens target tree := by
  refine ⟨eq_ok_of_toOption (by decide +kernel), eq_ok_of_toOption (by decide +kernel), ?_⟩
  intro target tree h
  exact absurd h.plusAttached (by decide)

end Reckoner
