import Reckoner.Proofs.Substitution
import Reckoner.Proofs.TreeEvaluation
import Reckoner.Session

namespace Reckoner

def EvalError.moved (g : Position → Position) (e : EvalError) : EvalError :=
  { e with span := e.span.moved g }

def EvaluationError.moved (g : Position → Position) : EvaluationError → EvaluationError
  | .failed e => .failed (e.moved g)
  | e => e

/-- The error of a text that stands elsewhere. -/
def ResolveError.moved (g : Position → Position) : ResolveError → ResolveError
  | .lexical e => .lexical { e with position := g e.position }
  | .grammatical (.rejected e) => .grammatical (.rejected { e with span := e.span.moved g })
  | .evaluation e => .evaluation (e.moved g)
  | e => e

section
variable {g : Position → Position}

theorem mapError_at_moved {α : Type} (span : Span) (x : Except NumericError α) :
    x.mapError (NumericError.at (span.moved g)) =
      (x.mapError (NumericError.at span)).mapError (EvaluationError.moved g) := by
  match x with
  | .ok a => rfl
  | .error (.domain e) => rfl
  | .error (.range e) => rfl
  | .error (.fault f) => rfl

theorem applyUnary_moved (token : Token) (f : Number → Except NumericError Number)
    (stack : List Number) :
    applyUnary (token.moved g) f stack =
      (applyUnary token f stack).mapError (EvaluationError.moved g) := by
  match stack with
  | [] => rfl
  | x :: stack => exact mapError_at_moved token.span _

theorem applyBinary_moved (token : Token) (f : Number → Number → Except NumericError Number)
    (stack : List Number) :
    applyBinary (token.moved g) f stack =
      (applyBinary token f stack).mapError (EvaluationError.moved g) := by
  match stack with
  | [] => rfl
  | [x] => rfl
  | y :: x :: stack => exact mapError_at_moved token.span _

@[simp] theorem applyCall_moved (token : Token) (stack : List Number) :
    applyCall (token.moved g) stack =
      (applyCall token stack).mapError (EvaluationError.moved g) := by
  have hvalue : (token.moved g).value = token.value := rfl
  have hargc : (token.moved g).argc = token.argc := rfl
  unfold applyCall
  rw [hvalue, hargc]
  cases findBuiltin? token.value with
  | none => rfl
  | some builtin =>
    simp only
    split
    · rfl
    · cases builtin.rule with
      | unary f => exact applyUnary_moved token f stack
      | binary f => exact applyBinary_moved token f stack

@[simp] theorem step_moved (env : Environment) (token : Token) (stack : List Number) :
    env.step (token.moved g) stack =
      (env.step token stack).mapError (EvaluationError.moved g) := by
  have hkind : (token.moved g).kind = token.kind := rfl
  have hvalue : (token.moved g).value = token.value := rfl
  unfold Environment.step
  rw [hkind, hvalue]
  cases token.kind with
  | number => cases Number.ofText? token.value <;> rfl
  | identifier => cases env.value? token.value <;> rfl
  | negation => exact applyUnary_moved token _ stack
  | operator =>
    simp only
    split
    · exact applyUnary_moved token _ stack
    · cases binaryOperation? env.precision token.value with
      | none => rfl
      | some f => exact applyBinary_moved token f stack
  | call => exact applyCall_moved token stack
  | _ => rfl

theorem execute_moved (env : Environment) (program : List Token) (stack : List Number) :
    env.execute (program.map (Token.moved g)) stack =
      (env.execute program stack).mapError (EvaluationError.moved g) := by
  induction program generalizing stack with
  | nil => rfl
  | cons token program ih =>
    rw [List.map_cons, execute_cons, execute_cons, step_moved]
    cases env.step token stack with
    | error e => rfl
    | ok next => exact ih next

@[simp] theorem evaluate_moved (env : Environment) (program : List Token) :
    env.evaluate (program.map (Token.moved g)) =
      (env.evaluate program).mapError (EvaluationError.moved g) := by
  unfold Environment.evaluate
  rw [execute_moved]
  cases env.execute program [] with
  | error e => rfl
  | ok stack =>
    match stack with
    | [] => rfl
    | [x] => rfl
    | _ :: _ :: _ => rfl

/-- A processed expression resolves the same wherever its text stands. -/
theorem run_relocated {s : Session} {e moved : Expression}
    (htarget : moved.target = e.target.map (Token.moved g))
    (hprogram : moved.program = e.program.map (Token.moved g)) :
    s.run moved = (s.run e).mapError (ResolveError.moved g) := by
  have hvalue : s.evaluate moved = (s.evaluate e).mapError (ResolveError.moved g) := by
    unfold Session.evaluate
    split
    · split <;> rfl
    · rw [hprogram, evaluate_moved]
      cases s.environment.evaluate e.program <;> rfl
  have hassign : ∀ x, s.assign moved x = (s.assign e x).mapError (ResolveError.moved g) := by
    intro x
    rw [Session.assign, Session.assign, htarget]
    cases e.target with
    | none => rfl
    | some target =>
      simp
      cases s.set target.value (.number x) <;> rfl
  unfold Session.run
  rw [hvalue]
  cases s.evaluate e with
  | error error => rfl
  | ok x =>
    simp only [mapError_ok, hassign]
    cases s.assign e x <;> rfl

theorem run_expression_moved {s : Session} {e moved : Expression} (h : e.target = none)
    (hmoved : moved.target = none) (hprogram : moved.program = e.program.map (Token.moved g)) :
    s.run moved = (s.run e).mapError (ResolveError.moved g) :=
  run_relocated (by rw [h, hmoved]; rfl) hprogram

end

section
variable {g : Position → Position}

theorem advance_moved (hg : ∀ p c, g (p.next c) = (g p).next c) (p : Position) (cs : List Char) :
    (g p).advance cs = g (p.advance cs) := by
  induction cs generalizing p with
  | nil => rfl
  | cons c cs ih =>
    rw [Position.advance, List.foldl_cons, ← hg]
    exact ih (p.next c)

theorem at_moved (hg : ∀ p c, g (p.next c) = (g p).next c) (kind : TokenKind)
    (value raw : List Char) (p : Position) :
    Token.at kind value raw (g p) = (Token.at kind value raw p).moved g := by
  rw [Token.at, advance_moved hg]
  rfl

/-- The words of a text do not depend on its position. -/
theorem Lexes.moved (hg : ∀ p c, g (p.next c) = (g p).next c) {p : Position} {cs : List Char}
    {tokens : List Token} (h : Lexes p cs tokens) :
    Lexes (g p) cs (tokens.map (Token.moved g)) := by
  induction h with
  | stop p =>
    rw [List.map_singleton, ← at_moved hg]
    exact .stop (g p)
  | blank hblank _ ih =>
    rw [hg] at ih
    exact .blank hblank ih
  | word hword hends _ ih =>
    rw [← advance_moved hg] at ih
    rw [List.map_cons, wordToken, ← at_moved hg]
    exact .word hword hends ih

end

def LexError.moved (g : Position → Position) (e : LexError) : LexError :=
  { e with position := g e.position }

/-- A place in a text, where it comes to when an opening parenthesis is put before the text. -/
def Position.inParens (p : Position) : Position :=
  ⟨p.line, if p.column = p.offset + 1 then p.column + 1 else p.column, p.offset + 1⟩

@[simp]
theorem inParens_next (p : Position) (c : Char) : (p.next c).inParens = p.inParens.next c := by
  obtain ⟨line, column, offset⟩ := p
  simp only [Position.next, Position.inParens]
  split
  · simp
  · split <;> simp_all

theorem tokenize_parens {source : String} {tokens : List Token} (h : tokenize source = .ok tokens) :
    ∃ ts stop opening closing last, tokens = ts ++ [stop] ∧ stop.kind = .endOfInput ∧
      opening.kind = .openParen ∧ closing.kind = .closeParen ∧ last.kind = .endOfInput ∧
      tokenize ("(" ++ source ++ ")") =
        .ok (opening :: ts.map (Token.moved Position.inParens) ++ [closing, last]) := by
  have hbreaks : Breaks [')'] := by
    rintro c ⟨⟩
    exact (sign_alone _ (by simp)).2
  have hchars : ("(" ++ source ++ ")").toList = ['('] ++ (source.toList ++ [')']) := by
    simp [String.toList_append]
  have hlexes : Lexes .start source.toList tokens := scan_eq_ok_iff.mp h
  have hmoved : Lexes (Position.start.advance ['(']) source.toList
      (tokens.map (Token.moved Position.inParens)) := hlexes.moved inParens_next
  have hclose (q : Position) : Lexes q [')'] [wordToken .closeParen [')'] q,
      .at .endOfInput [] [] (q.advance [')'])] :=
    .word .closeParen (endsBefore_nil _) (.stop _)
  have hjoined := hmoved.join hbreaks (hclose _)
  obtain ⟨ts, rfl, -⟩ := hlexes.body
  rw [List.map_append, List.map_singleton, List.dropLast_concat] at hjoined
  refine ⟨ts, _, _, _, _, rfl, rfl, ?_, ?_, ?_,
    tokenize_of_lexes hchars (.word .openParen (fun _ _ => trivial) hjoined)⟩ <;> rfl

theorem parse_parens {source : String} {e : Expression} (h : Expression.parse source = .ok e)
    (hnone : e.target = none) :
    Expression.parse ("(" ++ source ++ ")") =
      .ok ⟨"(" ++ source ++ ")", e.program.map (Token.moved Position.inParens), none⟩ := by
  obtain ⟨tokens, htokenize, hconvert⟩ := ofTokens_of_parse h
  obtain ⟨ts, stop, opening, closing, last, rfl, hstop, ho, hc, hlast, hparens⟩ :=
    tokenize_parens htokenize
  obtain ⟨body, end_, hbody, _, hscanned⟩ := tokenize_shape htokenize
  obtain rfl : ts = body := (List.append_inj' hbody rfl).1
  have hts : ∀ token ∈ ts, token.kind ≠ .endOfInput := fun token ht => (hscanned token ht).inner
  have hgroup : Steps .start (opening :: ts.map (Token.moved Position.inParens) ++ [closing])
      ⟨(e.program.map (Token.moved Position.inParens)).reverse ++ [], [], [], false⟩ :=
    steps_group Position.inParens hts hstop ho hc (run_of_untargeted hconvert hnone)
  have hrun : Conversion.start.run
      (opening :: ts.map (Token.moved Position.inParens) ++ [closing] ++ [last]) =
      .ok (e.program.map (Token.moved Position.inParens)) := by
    rw [run_of_steps hgroup (follows_cons (by rw [hlast]; decide)), run_endOfInput hlast,
      finish_eq_ok_iff]
    exact ⟨rfl, by simp, by simp⟩
  rw [List.append_assoc] at hrun
  have hwhole : Expression.ofTokens ("(" ++ source ++ ")")
      (opening :: ts.map (Token.moved Position.inParens) ++ [closing, last]) =
      .ok ⟨"(" ++ source ++ ")", e.program.map (Token.moved Position.inParens), none⟩ :=
    ofTokens_of_split (splitTarget_openParen ho _) (by rw [ho]; decide) hrun
  simp only [Expression.parse, hparens, hwhole]

/-- A name that is an operand of an accepted token list may be replaced by any accepted token list
without a target in parentheses; the result is accepted, keeps the target, and its program has the
program of that list in the place of the name. A text without a target resolves in parentheses to
the same number, or fails with the same error, whose place has moved with the text. -/
theorem conversion_compositional :
    (∀ {source : String} {before after : List Token} {x : Token} {e : Expression},
      OperandAt before x after →
      Expression.ofTokens source (before ++ x :: after) = .ok e →
      ∃ pre post, e.program = pre ++ x :: post ∧
        ∀ {whole other : String} {ts rest : List Token} {stop opening closing : Token}
          {t : Expression}, (∀ token ∈ ts, token.kind ≠ .endOfInput) → stop.kind = .endOfInput →
          Expression.ofTokens other (ts ++ stop :: rest) = .ok t → t.target = none →
          opening.kind = .openParen → closing.kind = .closeParen →
          Expression.ofTokens whole (before ++ opening :: ts ++ closing :: after) =
            .ok ⟨whole, pre ++ t.program ++ post, e.target⟩) ∧
    ∀ {source : String} {e : Expression}, Expression.parse source = .ok e → e.target = none →
      Expression.parse ("(" ++ source ++ ")") =
        .ok ⟨"(" ++ source ++ ")", e.program.map (Token.moved Position.inParens), none⟩ ∧
      ∀ s : Session, s.resolve ("(" ++ source ++ ")") =
        (s.resolve source).mapError (ResolveError.moved Position.inParens) := by
  refine ⟨ofTokens_substitute, fun h hnone => ⟨parse_parens h hnone, fun s => ?_⟩⟩
  rw [Session.resolve, Session.resolve, parse_parens h hnone, h]
  exact run_expression_moved hnone rfl rfl

/-- The tokens of `y = 2^x!` before the name `x`. -/
def powerStart : List Token :=
  [.written .identifier "y" 0, .written .operator "=" 2, .written .number "2" 4,
   .written .operator "^" 5]

/-- The tokens of `y = 2^x!` after the name `x`. -/
def powerEnd : List Token :=
  [.written .operator "!" 7, .written .endOfInput "" 8]

def sumTokens : List Token :=
  [.written .identifier "a" 0, .written .operator "+" 1, .written .number "3" 2]

theorem sum_substituted :
    (∃ pre post, [.written .number "2" 4, .written .identifier "x" 6, .written .operator "!" 7,
        .written .operator "^" 5] = pre ++ .written .identifier "x" 6 :: post ∧
      Expression.ofTokens "y = 2^(a+3)!" (powerStart ++ .written .openParen "(" 6 :: sumTokens ++
          .written .closeParen ")" 6 :: powerEnd) =
        .ok ⟨"y = 2^(a+3)!", pre ++ [.written .identifier "a" 0, .written .number "3" 2,
          .written .operator "+" 1] ++ post, some (.written .identifier "y" 0)⟩) ∧
      ∀ s : Session, s.resolve "(x/0)" =
        (s.resolve "x/0").mapError (ResolveError.moved Position.inParens) := by
  have hx : OperandAt powerStart (.written .identifier "x" 6) powerEnd :=
    ⟨by decide, rfl, follows_cons (by decide), by simp [powerStart]⟩
  have hpower : Expression.ofTokens "y = 2^x!"
      (powerStart ++ .written .identifier "x" 6 :: powerEnd) =
      .ok ⟨"y = 2^x!", [.written .number "2" 4, .written .identifier "x" 6,
        .written .operator "!" 7, .written .operator "^" 5],
        some (.written .identifier "y" 0)⟩ :=
    eq_ok_of_toOption (by decide +kernel)
  have hsum : Expression.ofTokens "a+3" (sumTokens ++ .written .endOfInput "" 3 :: []) =
      .ok ⟨"a+3", [.written .identifier "a" 0, .written .number "3" 2, .written .operator "+" 1],
        none⟩ :=
    eq_ok_of_toOption (by decide +kernel)
  have hquotient : Expression.parse "x/0" = .ok ⟨"x/0", [.written .identifier "x" 0,
      .written .number "0" 2, .written .operator "/" 1], none⟩ :=
    eq_ok_of_toOption (by decide +kernel)
  obtain ⟨pre, post, hprogram, hsubstitute⟩ := conversion_compositional.1 hx hpower
  exact ⟨⟨pre, post, hprogram, hsubstitute (by decide) rfl hsum rfl rfl rfl⟩,
    (conversion_compositional.2 hquotient rfl).2⟩

end Reckoner
