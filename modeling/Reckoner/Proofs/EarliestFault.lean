import Reckoner.Proofs.RefusedTokens
import Reckoner.Proofs.Sentences

namespace Reckoner

def openStep (opens : List Token) (token : Token) : List Token :=
  match token.kind with
  | .openParen => token :: opens
  | .closeParen => opens.tail
  | _ => opens

/-- The parentheses that tokens open and do not close, the innermost first. -/
def openParens (ts : List Token) : List Token :=
  ts.foldl openStep []

section
variable {token : Token} {opens output out stack rest : List Token}

@[simp]
theorem openStep_open (h : token.kind = .openParen) : openStep opens token = token :: opens := by
  simp [openStep, h]

@[simp]
theorem openStep_close (h : token.kind = .closeParen) : openStep opens token = opens.tail := by
  simp [openStep, h]

@[simp]
theorem openStep_other (hopen : token.kind ≠ .openParen) (hclose : token.kind ≠ .closeParen) :
    openStep opens token = opens := by
  unfold openStep
  split
  · contradiction
  · contradiction
  · rfl

/-- The operators that another one releases are no parentheses. -/
theorem openOn_releaseBefore {current : Operator}
    (h : releaseBefore current output stack = .ok (out, rest)) : openOn rest = openOn stack := by
  induction stack generalizing output with
  | nil => cases h; rfl
  | cons top stack ih =>
    rw [releaseBefore] at h
    split at h
    next hkind =>
      split at h
      · cases h
      · split at h
        · rw [ih h]
          rcases hkind with hk | hk <;> simp [hk]
        · cases h
          rfl
    · cases h
      rfl

theorem openOn_releaseToParen (h : releaseToParen output stack = .ok (out, rest)) :
    ∃ opening below, rest = opening :: below ∧ opening.kind = .openParen ∧
      openOn stack = opening :: openOn below := by
  induction stack generalizing output with
  | nil => cases h
  | cons top stack ih =>
    rw [releaseToParen] at h
    split at h
    next hopen =>
      cases h
      exact ⟨top, stack, rfl, hopen, openOn_cons_open hopen⟩
    next hother =>
      obtain ⟨opening, below, rfl, ho, hstack⟩ := ih h
      exact ⟨opening, below, rfl, ho, by rw [openOn_cons_other hother, hstack]⟩

theorem releaseAll_openOn {opening : Token} (h : openOn stack = opening :: rest) :
    releaseAll output stack = reject .unclosedParen opening.span := by
  induction stack generalizing output with
  | nil => cases h
  | cons top stack ih =>
    by_cases hopen : top.kind = .openParen
    · rw [openOn_cons_open hopen] at h
      cases h
      rw [releaseAll, if_pos hopen]
    · rw [openOn_cons_other hopen] at h
      rw [releaseAll, if_neg hopen, ih h]

end

section
variable {s next : Conversion} {taken : List Token}

theorem operator_openOn {token : Token} (hn : s.operator token = .ok next)
    (hk : token.kind = .operator) : openOn next.stack = openOn s.stack := by
  unfold Conversion.operator at hn
  split at hn
  · cases hn
  split at hn
  · split at hn
    · cases hn
    · cases hn
      rfl
  split at hn
  · split at hn
    · cases hn
      simp [Token.toNegation]
    split at hn
    · cases hn
      rfl
    · cases hn
  · split at hn
    · cases hn
    · obtain ⟨⟨out, rest⟩, hrelease, hn⟩ := bind_eq_ok hn
      cases hn
      have hother : openOn (token :: rest) = openOn rest := by simp [hk]
      rw [hother, openOn_releaseBefore hrelease]

theorem closeParen_openOn {token : Token} (h : Stacked s.frames s.stack)
    (hn : s.closeParen token = .ok next) : openOn next.stack = (openOn s.stack).tail := by
  unfold Conversion.closeParen at hn
  cases hframes : s.frames with
  | nil =>
    rw [hframes] at hn
    cases hn
  | cons frame frames =>
    simp only [hframes] at h hn
    obtain ⟨count, hcount, hn⟩ := bind_eq_ok hn
    obtain ⟨⟨out, rest⟩, hrelease, hn⟩ := bind_eq_ok hn
    obtain ⟨opening, below, rfl, ho, hstack⟩ := openOn_releaseToParen hrelease
    obtain ⟨out', opening', below', hrelease', _, hfits⟩ := h.releaseToParen s.output
    rw [hrelease] at hrelease'
    cases hrelease'
    rw [hstack, List.tail_cons]
    simp only [List.drop_one, List.tail_cons] at hn
    obtain ⟨hnone, _⟩ | ⟨callee, under, hsome, hc, rfl, _⟩ := hfits.under ho
    · rw [hnone] at hn
      cases hn
      rfl
    · rw [hsome] at hn
      cases hn
      exact (openOn_cons_other (by rw [hc]; decide)).symm

theorem comma_openOn {token : Token} (hn : s.comma token = .ok next) :
    openOn next.stack = openOn s.stack := by
  unfold Conversion.comma at hn
  split at hn
  · split at hn
    · cases hn
    · obtain ⟨⟨out, rest⟩, hrelease, hn⟩ := bind_eq_ok hn
      obtain ⟨opening, below, rfl, ho, hstack⟩ := openOn_releaseToParen hrelease
      cases hn
      rw [hstack, openOn_cons_open ho]
  · cases hn

theorem Step.openOn (hstep : Step s taken next) (h : Stacked s.frames s.stack) :
    openOn next.stack = taken.foldl openStep (openOn s.stack) := by
  cases hstep with
  | @operand token next hk hn =>
    have hother : openStep (Reckoner.openOn s.stack) token = Reckoner.openOn s.stack := by
      rcases hk with hk | hk <;> simp [hk]
    unfold Conversion.operand at hn
    split at hn <;> cases hn
    exact hother.symm
  | @openCall callee opening next hk ho hn =>
    unfold Conversion.openCall at hn
    split at hn <;> cases hn
    simp [ho, hk]
  | @operator token next hk hn =>
    rw [operator_openOn hn hk]
    simp [hk]
  | @openParen token next hk hn =>
    unfold Conversion.openParen at hn
    split at hn <;> cases hn
    simp [hk]
  | @closeParen token next hk hn =>
    rw [closeParen_openOn h hn]
    simp [hk]
  | @comma token next hk hn =>
    rw [comma_openOn hn]
    simp [hk]

theorem Steps.openOn {last : Conversion} {ts : List Token} (hsteps : Steps s ts last)
    (h : Stacked s.frames s.stack) :
    openOn last.stack = ts.foldl openStep (openOn s.stack) := by
  induction hsteps with
  | refl => rfl
  | cons hstep _ ih => rw [ih (hstep.stacked h), hstep.openOn h, List.foldl_append]

theorem plus_awaits {token : Token} (hsign : token.IsSign "+") (hn : s.operator token = .ok next) :
    next.expectsOperand = true := by
  obtain ⟨output, stack, frames, expectsOperand⟩ := s
  cases expectsOperand with
  | true =>
    rw [operator_plus hsign] at hn
    cases hn
    rfl
  | false =>
    have hfind : findOperator? "+" = some BinarySign.plus.operator := findOperator_text .plus
    simp only [Conversion.operator, hsign.2, hfind] at hn
    obtain ⟨_, _, hn⟩ := bind_eq_ok hn
    cases hn
    rfl

def Token.Awaits (token : Token) : Prop :=
  token.kind = .openParen ∨ token.IsSign "+"

theorem Token.Awaits.not_kind {token : Token} {kind : TokenKind} (h : token.Awaits)
    (hopen : kind ≠ .openParen) (hsign : kind ≠ .operator) : token.kind ≠ kind := by
  rintro rfl
  exact h.elim hopen fun hplus => hsign hplus.1

/-- After an opening parenthesis or a plus sign an operand is wanted. -/
theorem Step.awaits (hstep : Step s taken next) :
    ∀ token ∈ taken.getLast?, token.Awaits → next.expectsOperand = true := by
  intro token htoken h
  cases hstep with
  | operand hk _ =>
    cases htoken
    rcases hk with hk | hk <;> exact absurd hk (h.not_kind (by decide) (by decide))
  | openCall _ _ hn =>
    unfold Conversion.openCall at hn
    split at hn <;> cases hn
    assumption
  | operator hk hn =>
    cases htoken
    exact plus_awaits (h.resolve_left (by simp [hk])) hn
  | openParen _ hn =>
    unfold Conversion.openParen at hn
    split at hn <;> cases hn
    assumption
  | closeParen hk _ =>
    cases htoken
    exact absurd hk (h.not_kind (by decide) (by decide))
  | comma hk _ =>
    cases htoken
    exact absurd hk (h.not_kind (by decide) (by decide))

theorem Steps.eq_of_nil {last : Conversion} (hsteps : Steps s [] last) : last = s := by
  generalize hnil : ([] : List Token) = ts at hsteps
  cases hsteps with
  | refl => rfl
  | cons hfirst _ => rcases hfirst.taken with ⟨_, rfl⟩ | ⟨_, _, rfl, _⟩ <;> cases hnil

theorem Steps.awaits {last : Conversion} {ts : List Token} (hsteps : Steps s ts last) :
    ∀ token ∈ ts.getLast?, token.Awaits → last.expectsOperand = true := by
  induction hsteps with
  | refl => intro token ht; cases ht
  | @cons s next last taken ts hstep hsteps ih =>
    intro token ht h
    cases ts with
    | nil =>
      rw [List.append_nil] at ht
      rw [hsteps.eq_of_nil]
      exact hstep.awaits token ht h
    | cons first ts =>
      rw [List.getLast?_append_of_ne_nil _ (by simp)] at ht
      exact ih token ht h

end

def LacksClosing (ts : List Token) : Prop :=
  ∃ source closings stop e, (∀ token ∈ closings, token.kind = .closeParen) ∧
    tokenize source = .ok (ts ++ closings ++ [stop]) ∧
    Expression.ofTokens source (ts ++ closings ++ [stop]) = .ok e

/-- At the end of the tokens a call is open in which there is nothing but plus signs. -/
def EndsInOpenedCall (ts : List Token) : Prop :=
  ∃ before callee opening signs, ts = before ++ callee :: opening :: signs ∧
    callee.kind = .identifier ∧ opening.kind = .openParen ∧ ∀ sign ∈ signs, sign.IsSign "+"

def missingBody : Option Token → ParseFault
  | none => .emptyExpression
  | some name => .missingExpression name.value

/-- What is missing at the end of tokens after which an operand is wanted. -/
def missingAtEnd (ts : List Token) : ParseFault :=
  match splitTarget ts with
  | (target, []) => missingBody target
  | (_, _ :: _) => .missingLastOperand

/-- The error of a text all of whose tokens can be read: an unclosed parenthesis, if nothing but
closing parentheses is missing and no call was opened last, and else what is missing at the end of
the input. -/
inductive FaultAtEnd (ts : List Token) (stop : Token) : ParseError → Prop
  | unclosed {opening : Token} (hlacks : LacksClosing ts) (hcall : ¬ EndsInOpenedCall ts)
      (hopen : (openParens ts).head? = some opening) :
      FaultAtEnd ts stop ⟨.unclosedParen, opening.span⟩
  | missing (h : LacksClosing ts → EndsInOpenedCall ts) :
      FaultAtEnd ts stop ⟨missingAtEnd ts, stop.span⟩

theorem EndsInOpenedCall.last {ts : List Token} (h : EndsInOpenedCall ts) :
    ∃ token ∈ ts.getLast?, token.Awaits := by
  obtain ⟨before, callee, opening, signs, rfl, _, ho, hsigns⟩ := h
  rcases List.eq_nil_or_concat signs with rfl | ⟨init, sign, rfl⟩
  · refine ⟨opening, ?_, .inl ho⟩
    rw [List.append_cons]
    exact List.getLast?_concat
  · refine ⟨sign, ?_, .inr (hsigns sign (by simp))⟩
    rw [List.concat_eq_append, ← List.cons_append, ← List.cons_append, ← List.append_assoc]
    exact List.getLast?_concat

theorem EndsInOpenedCall.behind {ts : List Token} (h : EndsInOpenedCall ts) (lead : List Token) :
    EndsInOpenedCall (lead ++ ts) := by
  obtain ⟨before, callee, opening, signs, rfl, hcall⟩ := h
  exact ⟨lead ++ before, callee, opening, signs, (List.append_assoc ..).symm, hcall⟩

theorem Leads.openParens {lead ts : List Token} {target : Option Token}
    (h : Leads lead target ts) : openParens (lead ++ ts) = openParens ts := by
  cases h with
  | nothing => rfl
  | target _ hname hsign =>
    simp [Reckoner.openParens, hname, hsign.1]

theorem HasRead.opened_of_close {ts : List Token} {s next : Conversion} {token : Token}
    (h : HasRead ts s) (hs : s.expectsOperand = true) (hn : s.closeParen token = .ok next) :
    EndsInOpenedCall ts := by
  cases h with
  | awaiting h =>
    obtain ⟨callee, top, below, others, rfl, rfl, htop⟩ := closeParen_wanted hn
    obtain ⟨before, opening, signs, _, _, hts, hc, ho, hsigns, _, _⟩ := h.emptyCall htop
    exact ⟨before, callee, opening, signs, hts, hc, ho, hsigns⟩
  | complete => cases hs

theorem scanned_of_tokenize {source : String} {ts : List Token} {stop : Token}
    (h : tokenize source = .ok (ts ++ [stop])) :
    (∀ token ∈ ts, token.Scanned) ∧ stop.kind = .endOfInput := by
  obtain ⟨body, last, hall, hlast, hbody⟩ := tokenize_shape h
  obtain ⟨rfl, hstop⟩ := List.append_inj' hall rfl
  cases hstop
  exact ⟨hbody, hlast⟩

section
variable {s : Conversion} {stop : Token} {lead inner : List Token} {target : Option Token}

/-- Where an operand is wanted, closing parentheses can complete an opened call only. -/
theorem opened_of_lacksClosing (hlead : Leads lead target inner) (hsteps : Steps .start inner s)
    (hs : s.expectsOperand = true) (h : LacksClosing (lead ++ inner)) :
    EndsInOpenedCall (lead ++ inner) := by
  obtain ⟨source, closings, stop, e, hk, htokens, haccepted⟩ := h
  have hkey : NoKey inner :=
    fun token ht => (tokenize_shape htokens).noKey token (by simp [ht])
  obtain ⟨_, hstop⟩ := scanned_of_tokenize htokens
  have hends := ends_of_closings hk hstop
  have hrun := (run_of_ofTokens haccepted).2
  rw [List.append_assoc, List.append_assoc, (hlead.ending hends).split,
    run_of_steps hsteps (follows_of_ends hends)] at hrun
  cases closings with
  | nil =>
    rw [List.nil_append, run_endOfInput hstop] at hrun
    rw [(finish_eq_ok_iff.mp hrun).1] at hs
    cases hs
  | cons token closings =>
    rw [List.cons_append, Conversion.run.eq_def] at hrun
    simp only [hk token (by simp)] at hrun
    obtain ⟨next, hnext, _⟩ := bind_eq_ok hrun
    have hread : HasRead inner s := HasRead.steps hsteps hkey (.awaiting .start)
    exact (hread.opened_of_close hs hnext).behind lead

/-- After an operand only closing parentheses can be missing. -/
theorem lacksClosing_of_complete {source : String} {after : List Token}
    (htokens : tokenize source = .ok (lead ++ inner ++ after)) (hafter : after ≠ [])
    (hlead : Leads lead target inner) (hsteps : Steps .start inner s)
    (hs : s.expectsOperand = false) : LacksClosing (lead ++ inner) := by
  have hclosings : ∀ p, ∃ tail ending, Lexes p tail ending ∧ Breaks tail ∧
      ∃ closings stop program, ending = closings ++ [stop] ∧
        (∀ token ∈ closings, token.kind = .closeParen) ∧ stop.kind = .endOfInput ∧
        s.run ending = .ok program := by
    intro p
    obtain ⟨closings, stop, program, hlexes, hk, hstop, hrun⟩ :=
      exists_closings (hsteps.stacked .nil) hs p
    exact ⟨_, _, hlexes, breaks_closings _, closings, stop, program, rfl, hk, hstop, hrun⟩
  obtain ⟨longer, _, hlonger, closings, stop, program, rfl, hk, hstop, hrun⟩ :=
    tokenize_extend htokens hafter hclosings
  have hends := ends_of_closings hk hstop
  have hall : Conversion.start.run (inner ++ (closings ++ [stop])) = .ok program := by
    rw [run_of_steps hsteps (follows_of_ends hends), hrun]
  rw [← List.append_assoc] at hlonger
  refine ⟨longer, closings, stop, ⟨longer, program, target⟩, hk, hlonger, ?_⟩
  rw [List.append_assoc, List.append_assoc]
  exact ofTokens_of_leads (hlead.ending hends) hall longer

theorem finish_cases {error : ConversionError} (h : s.finish stop = .error error) :
    (s.expectsOperand = true ∧ error = .rejected ⟨.missingLastOperand, stop.span⟩) ∨
    s.expectsOperand = false ∧ ∃ opening, (openOn s.stack).head? = some opening ∧
      error = .rejected ⟨.unclosedParen, opening.span⟩ := by
  unfold Conversion.finish at h
  cases hs : s.expectsOperand with
  | true =>
    rw [if_pos hs] at h
    cases h
    exact .inl ⟨rfl, rfl⟩
  | false =>
    refine .inr ⟨rfl, ?_⟩
    rw [if_neg (by simp [hs])] at h
    cases hopen : openOn s.stack with
    | nil =>
      rw [releaseAll_eq_ok_iff.mpr ⟨openOn_eq_nil_iff.mp hopen, rfl⟩] at h
      cases h
    | cons opening rest =>
      rw [releaseAll_openOn hopen] at h
      cases h
      exact ⟨opening, rfl, rfl⟩

theorem ofTokens_of_stop {source : String} {tokens : List Token}
    (hsplit : splitTarget tokens = (target, [stop])) (hstop : stop.kind = .endOfInput) :
    Expression.ofTokens source tokens = reject (missingBody target) stop.span := by
  rw [Expression.ofTokens, hsplit]
  refine (if_pos hstop).trans ?_
  cases target <;> rfl

theorem ofTokens_end {source : String} {error : ConversionError}
    (hlead : Leads lead target inner) (hsteps : Steps .start inner s)
    (hinner : ∀ token ∈ inner, token.kind ≠ .endOfInput) (hstop : stop.kind = .endOfInput)
    (h : Expression.ofTokens source (lead ++ (inner ++ [stop])) = .error error) :
    (s.expectsOperand = true ∧
      error = .rejected ⟨missingAtEnd (lead ++ inner), stop.span⟩) ∨
    s.expectsOperand = false ∧ ∃ opening, (openOn s.stack).head? = some opening ∧
      error = .rejected ⟨.unclosedParen, opening.span⟩ := by
  have hends := ends_of_stop hstop
  have hall := (hlead.ending hends).split
  cases inner with
  | nil =>
    refine .inl ⟨by rw [hsteps.eq_of_nil]; rfl, ?_⟩
    rw [ofTokens_of_stop hall hstop] at h
    cases h
    rw [missingAtEnd, hlead.split]
  | cons first inner =>
    have hfault : missingAtEnd (lead ++ first :: inner) = .missingLastOperand := by
      rw [missingAtEnd, hlead.split]
    rw [List.cons_append] at hall
    rw [List.cons_append, ofTokens_of_body hall (hinner first (by simp))] at h
    have hrun := map_eq_error h
    rw [← List.cons_append, run_of_steps hsteps (follows_of_ends hends),
      run_endOfInput hstop] at hrun
    rw [hfault]
    exact finish_cases hrun

theorem ofTokens_of_refused {source : String} {before after : List Token} {token : Token}
    {e : ParseError} {error : ConversionError}
    (hlead : Leads lead target (before ++ token :: after))
    (hinner : ∀ t ∈ before ++ token :: after, t.kind ≠ .endOfInput)
    (hstop : stop.kind = .endOfInput)
    (hrun : ∀ others, Conversion.start.run (before ++ token :: others) = .error (.rejected e))
    (h : Expression.ofTokens source (lead ++ (before ++ token :: after ++ [stop])) = .error error) :
    error = .rejected e := by
  obtain ⟨first, body, hbody⟩ : ∃ first body, before ++ token :: after ++ [stop] = first :: body :=
    List.exists_cons_of_ne_nil (by simp)
  have hfirst : first.kind ≠ .endOfInput := by
    refine hinner first ?_
    cases before <;> cases hbody <;> simp
  have hall := (hlead.ending (ends_of_stop hstop)).split
  rw [hbody] at hall h
  rw [ofTokens_of_body hall hfirst, ← hbody, List.append_assoc, List.cons_append, hrun] at h
  cases h
  rfl

theorem faultAtEnd_of_steps {source : String} {error : ConversionError}
    (htokens : tokenize source = .ok (lead ++ inner ++ [stop]))
    (hlead : Leads lead target inner) (hsteps : Steps .start inner s)
    (hinner : ∀ token ∈ inner, token.kind ≠ .endOfInput) (hstop : stop.kind = .endOfInput)
    (hrejected : Expression.ofTokens source (lead ++ inner ++ [stop]) = .error error) :
    ∃ e, error = .rejected e ∧ FaultAtEnd (lead ++ inner) stop e := by
  rw [List.append_assoc] at hrejected
  obtain ⟨hs, rfl⟩ | ⟨hs, opening, hopening, rfl⟩ :=
    ofTokens_end hlead hsteps hinner hstop hrejected
  · exact ⟨_, rfl, .missing (opened_of_lacksClosing hlead hsteps hs)⟩
  · refine ⟨_, rfl, .unclosed (lacksClosing_of_complete htokens (by simp) hlead hsteps hs) ?_ ?_⟩
    · intro hopened
      obtain ⟨token, hlast, hawaits⟩ := hopened.last
      have hne : inner ≠ [] := by
        rintro rfl
        rw [hsteps.eq_of_nil] at hs
        cases hs
      rw [List.getLast?_append_of_ne_nil _ hne] at hlast
      rw [hsteps.awaits token hlast hawaits] at hs
      cases hs
    · rw [hlead.openParens, ← hopening, hsteps.openOn .nil]
      rfl

end

/-- A text that is rejected is rejected at its first token that no accepted text has there, after
the tokens before it. Where there is no such token, the error is an unclosed parenthesis, the
innermost one, if closing parentheses are all that is missing and no call was just opened, and
otherwise what is missing at the end of the input. -/
theorem rejected_earliest {source : String} {ts : List Token} {stop : Token}
    {error : ConversionError} (htokens : tokenize source = .ok (ts ++ [stop]))
    (hrejected : Expression.ofTokens source (ts ++ [stop]) = .error error) :
    ∃ e, error = .rejected e ∧
      ((∃ before token after, ts = before ++ token :: after ∧ Viable before ∧
          Barred (before ++ [token]) ∧ e.span = token.span) ∨
        Viable ts ∧ FaultAtEnd ts stop e) := by
  obtain ⟨hscanned, hstop⟩ := scanned_of_tokenize htokens
  obtain ⟨lead, target, inner, rfl, hlead⟩ := exists_leads ts
  have hinner : ∀ token ∈ inner, token.Scanned :=
    fun token ht => hscanned token (List.mem_append_right _ ht)
  obtain ⟨s, hsteps⟩ | ⟨before, token, after, s, e, rfl, hsteps, hspan, hrun⟩ :=
    read_or_refused (s := .start) .nil hinner
  · obtain ⟨e, rfl, hfault⟩ := faultAtEnd_of_steps htokens hlead hsteps
      (fun token ht => (hinner token ht).inner) hstop hrejected
    exact ⟨e, rfl, .inr ⟨viable_of_steps htokens (by simp) hlead hsteps, hfault⟩⟩
  · refine ⟨e, ?_, .inl ⟨lead ++ before, token, after, (List.append_assoc ..).symm, ?_, ?_, hspan⟩⟩
    · rw [List.append_assoc] at hrejected
      exact ofTokens_of_refused hlead (fun t ht => (hinner t ht).inner) hstop hrun hrejected
    · have hread : tokenize source = .ok (lead ++ before ++ (token :: after ++ [stop])) := by
        simpa using htokens
      exact viable_of_steps hread (by simp) hlead.shorter hsteps
    · exact barred_of_refused hlead hrun

def doubledComma : List Token :=
  [.written .identifier "max" 0, .written .openParen "(" 3, .written .number "1" 4,
    .written .comma "," 5, .written .comma "," 6, .written .number "2" 7,
    .written .closeParen ")" 8]

theorem doubledComma_earliest :
    tokenize "max(1,,2)" = .ok (doubledComma ++ [.written .endOfInput "" 9]) ∧
      Expression.ofTokens "max(1,,2)" (doubledComma ++ [.written .endOfInput "" 9]) =
        .error (.rejected ⟨.missingArgument, ⟨⟨1, 7, 6⟩, ⟨1, 8, 7⟩⟩⟩) ∧
      ∃ before token after, doubledComma = before ++ token :: after ∧ Viable before ∧
        Barred (before ++ [token]) ∧ token.span = ⟨⟨1, 7, 6⟩, ⟨1, 8, 7⟩⟩ := by
  have htokens : tokenize "max(1,,2)" = .ok (doubledComma ++ [.written .endOfInput "" 9]) :=
    eq_ok_of_toOption (by decide +kernel)
  have hrejected : Expression.ofTokens "max(1,,2)" (doubledComma ++ [.written .endOfInput "" 9]) =
      .error (.rejected ⟨.missingArgument, ⟨⟨1, 7, 6⟩, ⟨1, 8, 7⟩⟩⟩) := by
    rfl
  refine ⟨htokens, hrejected, ?_⟩
  obtain ⟨_, ⟨⟩, ⟨before, token, after, hsplit, hviable, hbarred, hspan⟩ | ⟨_, hfault⟩⟩ :=
    rejected_earliest htokens hrejected
  · exact ⟨before, token, after, hsplit, hviable, hbarred, hspan.symm⟩
  · nomatch hfault

/-- A call that has just been opened lacks nothing but its closing parenthesis, and yet it is an
operand that is reported missing. -/
theorem openedCall_misses_operand :
    ∃ ts stop, tokenize "sin(" = .ok (ts ++ [stop]) ∧ LacksClosing ts ∧
      Expression.ofTokens "sin(" (ts ++ [stop]) =
        .error (.rejected ⟨.missingLastOperand, stop.span⟩) := by
  refine ⟨[.written .identifier "sin" 0, .written .openParen "(" 3], .written .endOfInput "" 4,
    eq_ok_of_toOption (by decide +kernel), ?_, rfl⟩
  refine ⟨"sin()", [.written .closeParen ")" 4], .written .endOfInput "" 5,
    ⟨"sin()", [⟨.call, "sin", "sin", ⟨⟨1, 1, 0⟩, ⟨1, 6, 5⟩⟩, 0⟩], none⟩, by decide,
    eq_ok_of_toOption (by decide +kernel), eq_ok_of_toOption (by decide +kernel)⟩

end Reckoner
