import Reckoner.Proofs.EarliestFault
import Reckoner.Proofs.Layout
import Reckoner.Proofs.Resolution

namespace Reckoner

/-- Characters that start and end with one that is no blank. -/
def Solid (part : List Char) : Prop :=
  (∃ c ∈ part.head?, isBlank c = false) ∧ ∃ c ∈ part.getLast?, isBlank c = false

/-- A span of a text that cuts it into three: the part that it marks is solid, or the end of the
text. -/
structure Span.Marks (span : Span) (before part after : List Char) : Prop where
  start : span.start = Position.start.advance before
  stop : span.stop = Position.start.advance (before ++ part)
  solid : Solid part ∨ part = [] ∧ after = []

section
variable {text : List Char} {span : Span}

theorem Position.In.eq_advance {p : Position} (h : p.In text) :
    p = Position.start.advance (text.take p.offset) := by
  obtain ⟨hinside, hline, hcolumn⟩ := h
  rw [advance_start, ← hline, ← hcolumn, List.length_take_of_le hinside]

theorem parts_of_span (text : List Char) (h : span.start.offset ≤ span.stop.offset) :
    text = text.take span.start.offset ++ span.slice text ++ text.drop span.stop.offset ∧
      text.take span.start.offset ++ span.slice text = text.take span.stop.offset := by
  have hstart : text.take span.start.offset =
      (text.take span.stop.offset).take span.start.offset := by
    rw [List.take_take, Nat.min_eq_left h]
  have hjoined : text.take span.start.offset ++ span.slice text = text.take span.stop.offset := by
    rw [Span.slice, hstart, List.take_append_drop]
  exact ⟨by rw [hjoined, List.take_append_drop], hjoined⟩

/-- A span between two places in a text marks what stands between them, if that is solid. -/
theorem marks_of_solid (hstart : span.start.In text) (hstop : span.stop.In text)
    (h : span.start.offset ≤ span.stop.offset) (hsolid : Solid (span.slice text)) :
    ∃ before after, text = before ++ span.slice text ++ after ∧
      span.Marks before (span.slice text) after := by
  obtain ⟨htext, hjoined⟩ := parts_of_span text h
  exact ⟨_, _, htext, hstart.eq_advance, by rw [hjoined]; exact hstop.eq_advance, .inl hsolid⟩

theorem head_slice (h : span.start.offset < span.stop.offset) :
    (span.slice text).head? = text[span.start.offset]? := by
  rw [Span.slice, List.head?_drop, List.getElem?_take_of_lt h]

theorem last_slice (h : span.start.offset < span.stop.offset)
    (hinside : span.stop.offset ≤ text.length) :
    (span.slice text).getLast? = text[span.stop.offset - 1]? := by
  have hlength : (span.slice text).length = span.stop.offset - span.start.offset := by
    rw [Span.slice, List.length_drop, List.length_take_of_le hinside]
  have hlast : span.start.offset + (span.stop.offset - span.start.offset - 1) =
      span.stop.offset - 1 := by omega
  rw [List.getLast?_eq_getElem?, hlength, Span.slice, List.getElem?_drop, hlast,
    List.getElem?_take_of_lt (by omega)]

theorem lt_of_solid (h : Solid (span.slice text)) : span.start.offset < span.stop.offset := by
  by_contra hle
  have hempty : span.slice text = [] := by
    rw [Span.slice, List.drop_eq_nil_iff, List.length_take]
    omega
  obtain ⟨⟨c, hc, _⟩, _⟩ := h
  rw [hempty] at hc
  cases hc

/-- What goes from one solid part of a text to another one behind it is solid. -/
theorem solid_between {first last : Span} (hfirst : Solid (first.slice text))
    (hlast : Solid (last.slice text)) (horder : first.stop.offset ≤ last.start.offset)
    (hinside : last.stop.offset ≤ text.length) :
    Solid ((⟨first.start, last.stop⟩ : Span).slice text) := by
  have hstart := lt_of_solid hfirst
  have hstop := lt_of_solid hlast
  have hlong : first.start.offset < last.stop.offset := by omega
  have hhead : ((⟨first.start, last.stop⟩ : Span).slice text).head? = (first.slice text).head? := by
    rw [head_slice hlong, head_slice hstart]
  have hend : ((⟨first.start, last.stop⟩ : Span).slice text).getLast? =
      text[last.stop.offset - 1]? := last_slice hlong hinside
  rw [Solid, hhead, hend, ← last_slice hstop hinside]
  exact ⟨hfirst.1, hlast.2⟩

end

theorem IsLiteral.not_blank {word : List Char} (h : IsLiteral word) :
    ∀ c ∈ word, isBlank c = false := by
  have hplain := isUnsignedLiteral_of_isLiteral h
  simp only [isUnsignedLiteral, Bool.and_eq_true, List.all_eq_true, Bool.or_eq_true,
    beq_iff_eq] at hplain
  intro c hc
  refine not_blank_of_isNameChar ((hplain.1.1 c hc).imp (fun hdigit => ?_) id)
  exact isNameChar_of_isDigit hdigit

theorem WrittenAs.no_blank {kind : TokenKind} {word : List Char} (h : WrittenAs kind word) :
    ∀ c ∈ word, isBlank c = false := by
  cases h with
  | number h => exact h.not_blank
  | identifier hc hcs =>
    refine List.forall_mem_cons.mpr ⟨not_blank_of_isNameChar (.inl ?_), fun d hd => ?_⟩
    · exact isNameChar_of_isLetter hc
    · exact not_blank_of_isNameChar (.inl (hcs d hd))
  | operator hc =>
    refine List.forall_mem_singleton.mpr (sign_alone _ ?_).1
    exact List.mem_append_left _ hc
  | openParen | closeParen | comma => exact List.forall_mem_singleton.mpr rfl

theorem WrittenAs.solid {kind : TokenKind} {word : List Char} (h : WrittenAs kind word) :
    Solid word := by
  have hfirst := List.head?_eq_some_head h.ne_nil
  have hlast := List.getLast?_eq_some_getLast h.ne_nil
  exact ⟨⟨_, hfirst, h.no_blank _ (List.head_mem _)⟩, _, hlast, h.no_blank _ (List.getLast_mem _)⟩

section
variable {text : List Char} {tokens : List Token} {token : Token}

theorem Lexes.stands (h : Lexes .start text tokens) (ht : token ∈ tokens) : token.Stands text :=
  (h.covers [] rfl).stands token ht

theorem Lexes.solid (h : Lexes .start text tokens) (ht : token ∈ tokens)
    (hk : token.kind ≠ .endOfInput) : Solid (token.span.slice text) := by
  obtain ⟨body, last, rfl, hbody, hlast, _⟩ := h.endsOnce
  rw [(h.stands ht).slice]
  rcases List.mem_append.mp ht with ht | ht
  · exact (hbody token ht).2.solid
  · rw [List.mem_singleton.mp ht] at hk
    exact absurd hlast hk

/-- A token of a text marks what it is written as, and the end of the input the end of the text. -/
theorem Lexes.marks (h : Lexes .start text tokens) (ht : token ∈ tokens) :
    ∃ before after, text = before ++ token.raw.toList ++ after ∧
      token.span.Marks before token.raw.toList after := by
  have hstands := h.stands ht
  by_cases hk : token.kind = .endOfInput
  · obtain ⟨body, last, rfl, hbody, _, hraw, hempty, hend⟩ := h.endsOnce
    have hlast : token = last := by
      rcases List.mem_append.mp ht with ht | ht
      · exact absurd hk (hbody token ht).1
      · exact List.mem_singleton.mp ht
    subst hlast
    have hstop := hstands.stop.eq_advance
    rw [hend, List.take_length] at hstop
    have hnone : token.raw.toList = [] := by rw [hraw]; rfl
    refine ⟨text, [], by simp [hnone], ?_⟩
    exact ⟨hempty.trans hstop, by rw [hnone, List.append_nil]; exact hstop, .inr ⟨hnone, rfl⟩⟩
  · rw [← hstands.slice]
    exact marks_of_solid hstands.start hstands.stop hstands.forward (h.solid ht hk)

end

/-- The nodes of a program over tokens: a token itself, a minus sign that became a negation, or a
call whose tokens stand together. -/
inductive NodeOf (tokens : List Token) : Token → Prop
  | token {node : Token} (h : node ∈ tokens) : NodeOf tokens node
  | negation {sign : Token} (h : sign ∈ tokens) (hsign : sign.IsSign "-") :
      NodeOf tokens sign.toNegation
  | call {before inside after : List Token} {callee opening closing : Token} {args : List Tree}
      (h : tokens = before ++ (callee :: opening :: inside ++ [closing]) ++ after)
      (hn : callee.kind = .identifier) (hc : closing.kind = .closeParen)
      (hspells : Spells true .primary (callee :: opening :: inside ++ [closing])
        (.call callee closing hn hc args)) :
      NodeOf tokens (callee.toCall closing args.length)

section
variable {ts us vs : List Token} {node : Token}

theorem NodeOf.between (h : NodeOf us node) (ts vs : List Token) :
    NodeOf (ts ++ us ++ vs) node := by
  cases h with
  | token h => exact .token (by simp [h])
  | negation h hsign => exact .negation (by simp [h]) hsign
  | @call before inside after callee opening closing args h hn hc hspells =>
    subst h
    have hall : ts ++ (before ++ (callee :: opening :: inside ++ [closing]) ++ after) ++ vs =
        (ts ++ before) ++ (callee :: opening :: inside ++ [closing]) ++ (after ++ vs) := by
      simp only [List.append_assoc]
    exact .call hall hn hc hspells

theorem NodeOf.whole {callee opening closing : Token} {inside : List Token} {args : List Tree}
    (hn : callee.kind = .identifier) (hc : closing.kind = .closeParen)
    (hspells : Spells true .primary (callee :: opening :: inside ++ [closing])
      (.call callee closing hn hc args)) :
    NodeOf (callee :: opening :: inside ++ [closing]) (callee.toCall closing args.length) := by
  have hall : callee :: opening :: inside ++ [closing] =
      [] ++ (callee :: opening :: inside ++ [closing]) ++ [] := by simp
  exact .call hall hn hc hspells

theorem NodeOf.left (h : NodeOf ts node) (us : List Token) : NodeOf (ts ++ us) node :=
  h.between [] us

theorem NodeOf.right (h : NodeOf us node) (ts : List Token) : NodeOf (ts ++ us) node := by
  simpa using h.between ts []

end

mutual

theorem Spells.nodes {level : Level} {ts : List Token} {tree : Tree} :
    Spells true level ts tree → ∀ node ∈ tree.postorder, NodeOf ts node
  | .number _ _ => by
    intro node hnode
    exact .token hnode
  | .name _ _ => by
    intro node hnode
    exact .token hnode
  | .group _ _ hs => fun node hnode => ((hs.nodes node hnode).right [_]).left [_]
  | .emptyCall hn hc ho hsigns => by
    intro node hnode
    rw [List.mem_singleton.mp hnode]
    exact .whole hn hc (.emptyCall hn hc ho hsigns)
  | @Spells.call _ callee opening closing ts us args last hn hc ho ha hs => by
    intro node hnode
    rw [Tree.postorder, postorders_concat] at hnode
    rcases List.mem_append.mp hnode with hnode | hnode
    · rcases List.mem_append.mp hnode with hnode | hnode
      · exact ((((ha.nodes node hnode).right [callee, opening]).left us).left [closing])
      · exact ((hs.nodes node hnode).right (callee :: opening :: ts)).left [closing]
    · rw [List.mem_singleton.mp hnode]
      exact .whole hn hc (.call hn hc ho ha hs)
  | .factorial hsign hs => by
    intro node hnode
    rcases List.mem_append.mp hnode with hnode | hnode
    · exact (hs.nodes node hnode).left _
    · exact .token (List.mem_append_right _ hnode)
  | .binary op hsign hl hr => by
    intro node hnode
    rcases List.mem_append.mp hnode with hnode | hnode
    · rcases List.mem_append.mp hnode with hnode | hnode
      · exact (hl.nodes node hnode).left _
      · exact ((hr.nodes node hnode).right [_]).right _
    · rw [List.mem_singleton.mp hnode]
      exact .token (by simp)
  | .negation hsign hs => by
    intro node hnode
    rcases List.mem_append.mp hnode with hnode | hnode
    · exact (hs.nodes node hnode).right [_]
    · rw [List.mem_singleton.mp hnode]
      exact .negation List.mem_cons_self hsign
  | .plus _ hs => fun node hnode => (hs.nodes node hnode).right [_]
  | .loosen _ hs => hs.nodes

theorem SpellsArguments.nodes {ts : List Token} {args : List Tree} :
    SpellsArguments true ts args → ∀ node ∈ postorders args, NodeOf ts node
  | .nil => by simp
  | .concat ha hs _ => by
    intro node hnode
    rw [postorders_concat] at hnode
    rcases List.mem_append.mp hnode with hnode | hnode
    · exact ((ha.nodes node hnode).left _).left [_]
    · exact ((hs.nodes node hnode).right _).left [_]

end

theorem Sentence.nodes {tokens : List Token} {target : Option Token} {tree : Tree}
    (h : Sentence true tokens target tree) : ∀ node ∈ tree.postorder, NodeOf tokens node := by
  intro node hnode
  cases h with
  | expression hs _ => exact (hs.nodes node hnode).left _
  | assignment _ _ hs _ => exact ((hs.nodes node hnode).right [_, _]).left [_]

section
variable {text : List Char} {tokens : List Token} {node : Token}

/-- A node marks the token that it is, or a call from its name to its closing parenthesis. -/
theorem NodeOf.marks (h : NodeOf tokens node) (hlexes : Lexes .start text tokens) :
    ∃ before after, text = before ++ node.span.slice text ++ after ∧
      node.span.Marks before (node.span.slice text) after := by
  cases h with
  | token h =>
    rw [(hlexes.stands h).slice]
    exact hlexes.marks h
  | @negation sign h hsign =>
    have hslice : sign.toNegation.span.slice text = sign.raw.toList := (hlexes.stands h).slice
    rw [hslice]
    exact hlexes.marks h
  | @call before inside after callee opening closing args h hn hc hspells =>
    have hcallee : callee ∈ tokens := by simp [h]
    have hclosing : closing ∈ tokens := by simp [h]
    have horder : callee.span.stop.offset ≤ closing.span.start.offset := by
      have hordered := (hlexes.covers [] rfl).ordered
      rw [h, List.append_assoc, List.cons_append, List.cons_append, List.pairwise_append,
        List.pairwise_cons] at hordered
      exact hordered.2.1.1 closing (by simp)
    have hstart := hlexes.stands hcallee
    have hstop := hlexes.stands hclosing
    have hforward : callee.span.start.offset ≤ closing.span.stop.offset :=
      hstart.forward.trans (horder.trans hstop.forward)
    exact marks_of_solid hstart.start hstop.stop hforward
      (solid_between (hlexes.solid hcallee (by simp [hn])) (hlexes.solid hclosing (by simp [hc]))
        horder hstop.stop.inside)

end

def LexFault.character : LexFault → Char
  | .unexpected c => c
  | .secondPoint => '.'
  | .letterAfterDigits c => c

theorem StopsAt.character {word rest : List Char} {fault : LexFault} (h : StopsAt word rest fault) :
    isBlank fault.character = false ∧ ∃ after, rest = fault.character :: after := by
  cases h with
  | unexpected hblank => exact ⟨hblank, _, rfl⟩
  | secondPoint => exact ⟨rfl, _, rfl⟩
  | letterAfterDigits _ hletter =>
    exact ⟨not_blank_of_isNameChar (.inl (isNameChar_of_isLetter hletter)), _, rfl⟩

/-- A lexical error stands at the character at which the text is refused. -/
theorem LexFails.character {p : Position} {cs : List Char} {e : LexError} (h : LexFails p cs e) :
    isBlank e.fault.character = false ∧
      ∃ before after, cs = before ++ e.fault.character :: after ∧
        e.position = p.advance before := by
  induction h with
  | @stop p word rest fault h =>
    obtain ⟨hblank, after, rfl⟩ := h.character
    exact ⟨hblank, word, after, rfl, rfl⟩
  | @blank p c cs e _ _ ih =>
    obtain ⟨hcharacter, before, after, rfl, hposition⟩ := ih
    exact ⟨hcharacter, c :: before, after, rfl, hposition⟩
  | @word p kind word rest e _ _ _ ih =>
    obtain ⟨hcharacter, before, after, rfl, hposition⟩ := ih
    exact ⟨hcharacter, word ++ before, after, by rw [List.append_assoc],
      by rw [hposition, advance_append]⟩

theorem LexFails.marks {text : List Char} {e : LexError} (h : LexFails .start text e) :
    ∃ before after, text = before ++ [e.fault.character] ++ after ∧
      e.span.Marks before [e.fault.character] after := by
  obtain ⟨hblank, before, after, htext, hposition⟩ := h.character
  refine ⟨before, after, by rw [htext]; simp, hposition, ?_,
    .inl ⟨⟨_, rfl, hblank⟩, _, rfl, hblank⟩⟩
  have hline : e.fault.character ≠ '\n' := by
    intro hfeed
    rw [hfeed] at hblank
    cases hblank
  rw [advance_append, ← hposition, LexError.span]
  exact (if_neg hline).symm

/-- The token that a rejected text is blamed on: the first one with which no accepted text goes on,
or, where all tokens can be read, the innermost open parenthesis or the end of the input. -/
inductive Culprit (tokens : List Token) : Token → Prop
  | refused {before after : List Token} {token : Token} (h : tokens = before ++ token :: after)
      (hviable : Viable before) (hbarred : Barred (before ++ [token])) : Culprit tokens token
  | unclosed {body : List Token} {stop token : Token} (h : tokens = body ++ [stop])
      (hviable : Viable body) (hopen : (openParens body).head? = some token) :
      Culprit tokens token
  | missing {body : List Token} {stop : Token} (h : tokens = body ++ [stop])
      (hviable : Viable body) : Culprit tokens stop

theorem mem_of_mem_openStep {opens : List Token} {token paren : Token}
    (h : paren ∈ openStep opens token) : paren ∈ opens ∨ paren = token := by
  unfold openStep at h
  split at h
  · exact (List.mem_cons.mp h).symm
  · exact .inl (List.mem_of_mem_tail h)
  · exact .inl h

theorem mem_of_mem_openParens {ts : List Token} {paren : Token} (h : paren ∈ openParens ts) :
    paren ∈ ts := by
  have hfold : ∀ opens, paren ∈ ts.foldl openStep opens → paren ∈ opens ∨ paren ∈ ts := by
    clear h
    induction ts with
    | nil => exact fun _ h => .inl h
    | cons token ts ih =>
      intro opens h
      rcases ih _ h with h | h
      · exact (mem_of_mem_openStep h).imp id fun heq => by simp [heq]
      · exact .inr (List.mem_cons_of_mem _ h)
  exact (hfold [] h).resolve_left List.not_mem_nil

section
variable {source : String} {tokens : List Token} {token : Token}

theorem Culprit.mem (h : Culprit tokens token) : token ∈ tokens := by
  cases h with
  | refused h => simp [h]
  | @unclosed body stop token h _ hopen =>
    have hmem : token ∈ body := mem_of_mem_openParens (List.mem_of_mem_head? hopen)
    simp [h, hmem]
  | missing h => simp [h]

theorem rejected_culprit {e : ParseError} (htokens : tokenize source = .ok tokens)
    (hrejected : Expression.ofTokens source tokens = .error (.rejected e)) :
    ∃ token, Culprit tokens token ∧ e.span = token.span := by
  obtain ⟨body, stop, rfl, hstop, hscanned⟩ := tokenize_shape htokens
  obtain ⟨lead, target, inner, rfl, hlead⟩ := exists_leads body
  have hinner : ∀ token ∈ inner, token.Scanned :=
    fun token ht => hscanned token (List.mem_append_right _ ht)
  obtain ⟨s, hsteps⟩ | ⟨before, token, after, s, e', rfl, hsteps, hspan, hrun⟩ :=
    read_or_refused (s := .start) .nil hinner
  · have hviable := viable_of_steps htokens (by simp) hlead hsteps
    obtain ⟨_, ⟨⟩, hfault⟩ := faultAtEnd_of_steps htokens hlead hsteps
      (fun token ht => (hinner token ht).inner) hstop hrejected
    cases hfault with
    | unclosed _ _ hopen => exact ⟨_, .unclosed rfl hviable hopen, rfl⟩
    | missing _ => exact ⟨_, .missing rfl hviable, rfl⟩
  · rw [List.append_assoc] at hrejected
    cases ofTokens_of_refused hlead (fun t ht => (hinner t ht).inner) hstop hrun hrejected
    have hall : lead ++ (before ++ token :: after) ++ [stop] =
        (lead ++ before) ++ token :: (after ++ [stop]) := by simp
    have hviable : Viable (lead ++ before) :=
      viable_of_steps (hall ▸ htokens) (by simp) hlead.shorter hsteps
    exact ⟨token, .refused hall hviable (barred_of_refused hlead hrun), hspan⟩

end

def ResolveError.span? : ResolveError → Option Span
  | .lexical e => some e.span
  | .grammatical (.rejected e) => some e.span
  | .evaluation (.failed e) => some e.span
  | _ => none

section
variable {s : Session} {source : String} {e : ResolveError}

/-- A text that is not resolved is refused by the scan, rejected by the grammar or not evaluated. -/
theorem resolve_error (h : s.resolve source = .error e) :
    (∃ fault, e = .lexical fault ∧ LexFails .start source.toList fault) ∨
    (∃ tokens fault, e = .grammatical fault ∧ tokenize source = .ok tokens ∧
      Expression.ofTokens source tokens = .error fault) ∨
    ∃ expression, Expression.parse source = .ok expression ∧ s.run expression = .error e := by
  unfold Session.resolve at h
  cases hparse : Expression.parse source with
  | ok expression =>
    rw [hparse] at h
    exact .inr (.inr ⟨expression, rfl, h⟩)
  | error fault =>
    rw [hparse] at h
    cases h
    unfold Expression.parse at hparse
    split at hparse
    next lexical htokens =>
      cases hparse
      exact .inl ⟨lexical, rfl, scan_eq_error_iff.mp htokens⟩
    next tokens htokens =>
      split at hparse
      next conversion hrejected =>
        cases hparse
        exact .inr (.inl ⟨tokens, conversion, rfl, htokens, hrejected⟩)
      next => cases hparse

theorem run_error {expression : Expression} (h : s.run expression = .error e) :
    s.evaluate expression = .error e ∨ ∃ fault, e = .session fault := by
  unfold Session.run at h
  cases hevaluate : s.evaluate expression with
  | error e' =>
    rw [hevaluate] at h
    cases h
    exact .inl rfl
  | ok x =>
    simp only [hevaluate] at h
    refine .inr ?_
    unfold Session.assign at h
    split at h
    next hassign =>
      split at hassign
      · cases hassign
      · split at hassign
        · cases hassign
        · cases hassign
          cases h
          exact ⟨_, rfl⟩
    · cases h

theorem evaluate_error_cases {expression : Expression} (h : s.evaluate expression = .error e) :
    (∃ f, e = .evaluation (.fault f)) ∨
      ∃ error, e = .evaluation error ∧
        s.environment.evaluate expression.program = .error error := by
  unfold Session.evaluate at h
  split at h
  · split at h <;>
    · cases h
      exact .inl ⟨_, rfl⟩
  · cases hrun : s.environment.evaluate expression.program with
    | ok x =>
      rw [hrun] at h
      cases h
    | error error =>
      rw [hrun] at h
      cases h
      exact .inr ⟨error, rfl, rfl⟩

theorem run_failed {expression : Expression} {span : Span} (h : s.run expression = .error e)
    (hspan : e.span? = some span) :
    ∃ failure, e = .evaluation (.failed failure) ∧ failure.span = span ∧
      s.environment.evaluate expression.program = .error (.failed failure) := by
  obtain hevaluate | ⟨fault, rfl⟩ := run_error h
  · obtain ⟨f, rfl⟩ | ⟨error, rfl, herror⟩ := evaluate_error_cases hevaluate
    · cases hspan
    · match error, hspan with
      | .failed failure, hspan =>
        cases hspan
        exact ⟨failure, rfl, rfl, herror⟩
  · cases hspan

/-- An expression that is evaluated in vain fails at a node over the tokens of its text. -/
theorem failed_node {expression : Expression} {failure : EvalError}
    (hparse : Expression.parse source = .ok expression)
    (h : s.environment.evaluate expression.program = .error (.failed failure)) :
    ∃ tokens done node rest held, tokenize source = .ok tokens ∧ NodeOf tokens node ∧
      expression.program = done ++ node :: rest ∧ s.environment.execute done [] = .ok held ∧
      s.environment.step node held = .error (.failed failure) ∧ failure.span = node.span := by
  obtain ⟨tokens, tree, htokens, hsentence, hprogram⟩ := sentence_of_parse hparse
  obtain hrun | ⟨f, hf⟩ := evaluate_error h
  · obtain ⟨done, node, rest, held, hsplit, hdone, hstep⟩ := execute_error hrun
    have hmem : node ∈ tree.postorder := by rw [← hprogram, hsplit]; simp
    exact ⟨tokens, done, node, rest, held, htokens, hsentence.nodes node hmem, hsplit, hdone, hstep,
      step_span hstep⟩
  · cases hf

/-- What an error is shown at is a part of the text. -/
theorem resolve_marks {span : Span} (h : s.resolve source = .error e)
    (hspan : e.span? = some span) :
    ∃ before part after, source.toList = before ++ part ++ after ∧
      span.Marks before part after := by
  obtain ⟨fault, rfl, hfails⟩ | ⟨tokens, fault, rfl, htokens, hrejected⟩ |
    ⟨expression, hparse, hrun⟩ := resolve_error h
  · cases hspan
    obtain ⟨before, after, hmarks⟩ := hfails.marks
    exact ⟨before, _, after, hmarks⟩
  · match fault with
    | .fault f => cases hspan
    | .rejected e =>
      cases hspan
      obtain ⟨token, hculprit, hspan⟩ := rejected_culprit htokens hrejected
      obtain ⟨before, after, hmarks⟩ := (scan_eq_ok_iff.mp htokens).marks hculprit.mem
      rw [hspan]
      exact ⟨before, _, after, hmarks⟩
  · obtain ⟨failure, rfl, rfl, hfailed⟩ := run_failed hrun hspan
    obtain ⟨tokens, _, node, _, _, htokens, hnode, _, _, _, hspan⟩ := failed_node hparse hfailed
    obtain ⟨before, after, hmarks⟩ := hnode.marks (scan_eq_ok_iff.mp htokens)
    rw [hspan]
    exact ⟨before, _, after, hmarks⟩

end

end Reckoner
