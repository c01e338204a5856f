import Reckoner.Proofs.Blame
import Reckoner.Proofs.Diagnosis

namespace Reckoner

section
variable {s : Session} {number : ℕ} {lines : List String} {found : List Diagnostic}

theorem checkLine_precision {next : Session} {text : String} {here : Option Diagnostic}
    (h : checkLine s number text = .ok (next, here)) : next.precision = s.precision := by
  unfold checkLine at h
  split at h
  · cases h
    rfl
  · split at h
    next s' x hresolve =>
      cases h
      exact resolve_precision hresolve
    next =>
      split at h
      · cases h
        rfl
      · cases h

@[simp] theorem checkedSession_precision (s : Session) (number : ℕ) (lines : List String) :
    (checkedSession s number lines).precision = s.precision := by
  induction lines generalizing s number with
  | nil => rfl
  | cons text lines ih =>
    rw [checkedSession]
    cases hline : checkLine s number text with
    | error e => rfl
    | ok r => exact (ih r.1 _).trans (checkLine_precision hline)

end

/-- A range of a line is that of a part of the line, or of the one place behind the line. -/
structure LineRange.Selects (range : LineRange) (text : List Char) (offset : ℕ)
    (part : List Char) : Prop where
  start : range.start = offset
  stop : range.stop = offset + max 1 part.length
  selected : (text.drop offset).take part.length = part
  behind : part = [] → offset = text.length

section
variable {span : Span} {before part after : List Char}

theorem Span.Marks.selects (h : span.Marks before part after) (hline : '\n' ∉ before ++ part)
    (number : ℕ) :
    (span.onLine number).Selects (before ++ part ++ after) span.start.offset part := by
  have hunbroken : ∀ cs : List Char, '\n' ∉ cs →
      (cs.rtakeWhile (· != '\n')).length = cs.length := by
    intro cs hcs
    have hall : ∀ c ∈ cs, (c != '\n') = true := by
      intro c hc
      refine bne_iff_ne.mpr ?_
      rintro rfl
      exact hcs hc
    rw [List.rtakeWhile_eq_self_iff.mpr hall]
  have hstart : span.start = ⟨1 + before.count '\n', 1 + before.length, before.length⟩ := by
    rw [h.start, advance_start, hunbroken before fun hmem => hline (List.mem_append_left _ hmem)]
  have hstop : span.stop.column = 1 + (before.length + part.length) := by
    rw [h.stop, advance_start, hunbroken _ hline, List.length_append]
  refine ⟨?_, ?_, ?_, fun hnone => ?_⟩
  · rw [Span.onLine, hstart]
    exact Nat.add_sub_cancel_left 1 before.length
  · rw [Span.onLine, hstop, hstart]
    simp only
    omega
  · rw [hstart, List.append_assoc, List.drop_left, List.take_left]
  · obtain ⟨⟨c, hc, _⟩, _⟩ | ⟨rfl, rfl⟩ := h.solid
    · rw [hnone] at hc
      cases hc
    · rw [hstart]
      simp

theorem selects_of_marks {text : List Char} (hline : '\n' ∉ text)
    (h : ∃ before after, text = before ++ part ++ after ∧ span.Marks before part after)
    (number : ℕ) : (span.onLine number).Selects text span.start.offset part := by
  obtain ⟨before, after, rfl, hmarks⟩ := h
  exact hmarks.selects (fun hmem => hline (List.mem_append_left _ hmem)) number

end

/-- The evaluation of an expression goes on up to a node, which fails. -/
def Session.FailsAt (s : Session) (expression : Expression) (node : Token) (e : EvalError) : Prop :=
  ∃ done rest held, expression.program = done ++ node :: rest ∧
    s.environment.execute done [] = .ok held ∧ s.environment.step node held = .error (.failed e)

/-- What is at fault in a line that a session does not resolve, from which character of the line on,
and how severe it is: an error where the line is no expression, and a warning where an operation of
the expression fails. -/
inductive Offends (s : Session) (text : String) :
    ResolveError → Severity → ℕ → List Char → Prop
  | character {e : LexError} {before after : List Char} (hfails : LexFails .start text.toList e)
      (htext : text.toList = before ++ e.fault.character :: after) :
      Offends s text (.lexical e) .error before.length [e.fault.character]
  | token {tokens : List Token} {token : Token} {e : ParseError}
      (htokens : tokenize text = .ok tokens)
      (hrejected : Expression.ofTokens text tokens = .error (.rejected e))
      (hculprit : Culprit tokens token) :
      Offends s text (.grammatical (.rejected e)) .error token.span.start.offset token.raw.toList
  | operation {expression : Expression} {tokens : List Token} {token : Token} {e : EvalError}
      (hparse : Expression.parse text = .ok expression) (htokens : tokenize text = .ok tokens)
      (hmem : token ∈ tokens) (hfails : s.FailsAt expression token e) :
      Offends s text (.evaluation (.failed e)) .warning token.span.start.offset token.raw.toList
  | call {expression : Expression} {tokens before inside after : List Token}
      {callee opening closing : Token} {args : List Tree} {e : EvalError}
      (hparse : Expression.parse text = .ok expression) (htokens : tokenize text = .ok tokens)
      (hsplit : tokens = before ++ (callee :: opening :: inside ++ [closing]) ++ after)
      (hn : callee.kind = .identifier) (hc : closing.kind = .closeParen)
      (hspells : Spells true .primary (callee :: opening :: inside ++ [closing])
        (.call callee closing hn hc args))
      (hfails : s.FailsAt expression (callee.toCall closing args.length) e) :
      Offends s text (.evaluation (.failed e)) .warning callee.span.start.offset
        ((⟨callee.span.start, closing.span.stop⟩ : Span).slice text.toList)

section
variable {s : Session} {text : String} {e : ResolveError} {severity : Severity} {offset : ℕ}
  {part : List Char}

@[simp] theorem negation_never_fails {sign : Token} {stack : List Number} {env : Environment}
    {failure : EvalError} : env.step sign.toNegation stack ≠ .error (.failed failure) := by
  intro h
  have happly : applyUnary sign.toNegation (fun x => .ok x.neg) stack =
      .error (.failed failure) := h
  obtain ⟨_, _, hx, _⟩ | ⟨f, hf⟩ := applyUnary_error happly
  · cases hx
  · cases hf

theorem character_selects {number : ℕ} {d : Diagnostic} {fault : LexError}
    (hline : '\n' ∉ text.toList) (hfails : LexFails .start text.toList fault)
    (hd : Diagnostic.ofError? number text (.lexical fault) = some d) :
    ∃ offset part, Offends s text (.lexical fault) d.severity offset part ∧
      d.range.Selects text.toList offset part := by
  obtain ⟨_, before, after, htext, hposition⟩ := hfails.character
  have hselects := selects_of_marks hline hfails.marks number
  have hrange : fault.span.onLine number =
      ⟨number, fault.position.column - 1, fault.position.column⟩ := by
    simp [Span.onLine, LexError.span]
  have hoffset : fault.span.start.offset = before.length := by
    rw [LexError.span, hposition, offset_advance]
  rw [hrange, hoffset] at hselects
  cases hd
  exact ⟨before.length, [fault.fault.character], .character hfails htext, hselects⟩

theorem token_selects {number : ℕ} {d : Diagnostic} {tokens : List Token} {fault : ParseError}
    (hline : '\n' ∉ text.toList) (htokens : tokenize text = .ok tokens)
    (hrejected : Expression.ofTokens text tokens = .error (.rejected fault))
    (hd : Diagnostic.ofError? number text (.grammatical (.rejected fault)) = some d) :
    ∃ offset part, Offends s text (.grammatical (.rejected fault)) d.severity offset part ∧
      d.range.Selects text.toList offset part := by
  obtain ⟨token, hculprit, hspan⟩ := rejected_culprit htokens hrejected
  have hmarks := (scan_eq_ok_iff.mp htokens).marks hculprit.mem
  have hselects := selects_of_marks hline hmarks number
  rw [← hspan] at hselects
  cases hd
  exact ⟨_, _, .token htokens hrejected hculprit, by rw [← hspan]; exact hselects⟩

theorem node_selects {number : ℕ} {d : Diagnostic} {expression : Expression} {failure : EvalError}
    (hline : '\n' ∉ text.toList) (hparse : Expression.parse text = .ok expression)
    (hfailed : s.environment.evaluate expression.program = .error (.failed failure))
    (hd : Diagnostic.ofError? number text (.evaluation (.failed failure)) = some d) :
    ∃ offset part, Offends s text (.evaluation (.failed failure)) d.severity offset part ∧
      d.range.Selects text.toList offset part := by
  obtain ⟨tokens, done, node, rest, held, htokens, hnode, hsplit, hdone, hstep, hspan⟩ :=
    failed_node hparse hfailed
  have hlexes : Lexes .start text.toList tokens := scan_eq_ok_iff.mp htokens
  have hfails : s.FailsAt expression node failure := ⟨done, rest, held, hsplit, hdone, hstep⟩
  have hselects := selects_of_marks hline (hnode.marks hlexes) number
  rw [← hspan] at hselects
  cases hd
  cases hnode with
  | token hmem =>
    refine ⟨_, _, .operation hparse htokens hmem hfails, ?_⟩
    rw [hspan, (hlexes.stands hmem).slice] at hselects
    rw [hspan]
    exact hselects
  | negation => exact absurd hstep negation_never_fails
  | call hall hn hc hspells =>
    rw [hspan] at hselects
    refine ⟨_, _, .call hparse htokens hall hn hc hspells hfails, ?_⟩
    rw [hspan]
    exact hselects

/-- An error that has a diagnostic on a line without line feeds has it at what is at fault there. -/
theorem diagnostic_selects {number : ℕ} {d : Diagnostic} (hp : s.precision ≤ maxPrecision)
    (hline : '\n' ∉ text.toList) (h : s.resolve text = .error e)
    (hd : Diagnostic.ofError? number text e = some d) :
    ∃ offset part, Offends s text e d.severity offset part ∧
      d.range.Selects text.toList offset part := by
  have hreported : Reported text (.error e) := by
    obtain hreported | ⟨_, _, _, _, hfault⟩ := resolve_cases hp text
    · rwa [h] at hreported
    · rw [h] at hfault
      cases hfault
      cases hd
  obtain ⟨fault, rfl, hfails⟩ | ⟨tokens, fault, rfl, htokens, hrejected⟩ |
    ⟨expression, hparse, hrun⟩ := resolve_error h
  · exact character_selects hline hfails hd
  · match fault, hreported with
    | .rejected fault, _ => exact token_selects hline htokens hrejected hd
  · match e, hreported with
    | .evaluation (.failed failure), _ =>
      obtain ⟨_, ⟨⟩, _, hfailed⟩ := run_failed hrun rfl
      exact node_selects hline hparse hfailed hd
    | .lexical fault, _ =>
      obtain ⟨_, ⟨⟩, _⟩ := run_failed hrun rfl
    | .grammatical (.rejected fault), _ =>
      obtain ⟨_, ⟨⟩, _⟩ := run_failed hrun rfl

end

end Reckoner
