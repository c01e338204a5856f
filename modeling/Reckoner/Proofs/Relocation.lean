import Reckoner.Proofs.Placement
import Reckoner.Shell

namespace Reckoner

def ConversionError.moved (g : Position → Position) : ConversionError → ConversionError
  | .rejected e => .rejected { e with span := e.span.moved g }
  | .fault f => .fault f

def Conversion.moved (s : Conversion) (g : Position → Position) : Conversion :=
  ⟨s.output.map (Token.moved g), s.stack.map (Token.moved g), s.frames.map (Frame.moved g),
    s.expectsOperand⟩

/-- What becomes of a result when `f` moves its value, and its error moves as well. -/
def relocated (g : Position → Position) {α β : Type} (f : α → β) (x : Except ConversionError α) :
    Except ConversionError β :=
  (x.map f).mapError (ConversionError.moved g)

section
variable {g : Position → Position} {α β γ δ : Type}

theorem relocated_bind {f : α → β} {f' : γ → δ} {k : α → Except ConversionError γ}
    {k' : β → Except ConversionError δ} (x : Except ConversionError α)
    (h : ∀ a, k' (f a) = relocated g f' (k a)) :
    (relocated g f x >>= k') = relocated g f' (x >>= k) := by
  cases x with
  | error e => rfl
  | ok a => exact h a

/-- Output and stack at other places. -/
def moveBoth (g : Position → Position) (both : List Token × List Token) :
    List Token × List Token :=
  (both.1.map (Token.moved g), both.2.map (Token.moved g))

theorem releaseBefore_moved (current : Operator) (output stack : List Token) :
    releaseBefore current (output.map (Token.moved g)) (stack.map (Token.moved g)) =
      relocated g (moveBoth g) (releaseBefore current output stack) := by
  induction stack generalizing output with
  | nil => rfl
  | cons top stack ih =>
    rw [List.map_cons, releaseBefore, releaseBefore, moved_kind, moved_operatorKey]
    split
    · cases findOperator? top.operatorKey with
      | none => rfl
      | some operator =>
        simp only
        split
        · exact ih (top :: output)
        · rfl
    · rfl

theorem releaseToParen_moved (output stack : List Token) :
    releaseToParen (output.map (Token.moved g)) (stack.map (Token.moved g)) =
      relocated g (moveBoth g) (releaseToParen output stack) := by
  induction stack generalizing output with
  | nil => rfl
  | cons top stack ih =>
    rw [List.map_cons, releaseToParen, releaseToParen, moved_kind]
    split
    · rfl
    · exact ih (top :: output)

theorem releaseAll_moved (output stack : List Token) :
    releaseAll (output.map (Token.moved g)) (stack.map (Token.moved g)) =
      relocated g (List.map (Token.moved g)) (releaseAll output stack) := by
  induction stack generalizing output with
  | nil => rfl
  | cons top stack ih =>
    rw [List.map_cons, releaseAll, releaseAll, moved_kind]
    split
    · rfl
    · exact ih (top :: output)

end

section
variable {g : Position → Position} (s : Conversion) (token : Token)

@[simp] theorem operand_moved :
    (s.moved g).operand (token.moved g) = relocated g (Conversion.moved · g) (s.operand token) := by
  unfold Conversion.operand
  cases s with
  | mk output stack frames expectsOperand => cases expectsOperand <;> rfl

@[simp] theorem openCall_moved (paren : Token) :
    (s.moved g).openCall (token.moved g) (paren.moved g) =
      relocated g (Conversion.moved · g) (s.openCall token paren) := by
  unfold Conversion.openCall
  cases s with
  | mk output stack frames expectsOperand => cases expectsOperand <;> rfl

@[simp] theorem openParen_moved :
    (s.moved g).openParen (token.moved g) =
      relocated g (Conversion.moved · g) (s.openParen token) := by
  unfold Conversion.openParen
  cases s with
  | mk output stack frames expectsOperand => cases expectsOperand <;> rfl

@[simp] theorem operator_moved :
    (s.moved g).operator (token.moved g) =
      relocated g (Conversion.moved · g) (s.operator token) := by
  obtain ⟨output, stack, frames, expectsOperand⟩ := s
  rw [Conversion.operator, Conversion.operator, moved_value]
  by_cases hassign : token.value = "="
  · simp only [if_pos hassign]
    rfl
  · by_cases hmark : token.value = "!"
    · simp only [if_neg hassign, if_pos hmark]
      cases expectsOperand <;> rfl
    · simp only [if_neg hassign, if_neg hmark]
      cases expectsOperand with
      | true =>
        by_cases hminus : token.value = "-"
        · simp only [if_true, if_pos hminus]
          rfl
        · by_cases hplus : token.value = "+"
          · simp only [if_true, if_neg hminus, if_pos hplus]
            rfl
          · simp only [if_true, if_neg hminus, if_neg hplus]
            rfl
      | false =>
        cases findOperator? token.value with
        | none => rfl
        | some current =>
          simp only [Conversion.moved, Bool.false_eq_true, if_false, releaseBefore_moved]
          exact relocated_bind _ fun _ => rfl

@[simp] theorem closingCount_moved (frame : Frame) :
    (s.moved g).closingCount (frame.moved g) (token.moved g) =
      relocated g id (s.closingCount frame token) := by
  obtain ⟨output, stack, frames, expectsOperand⟩ := s
  have hcallee : (frame.moved g).callee.isSome = frame.callee.isSome := Option.isSome_map
  have hcommas : (frame.moved g).commas = frame.commas := rfl
  cases expectsOperand with
  | false => rfl
  | true =>
    simp only [Conversion.closingCount, Conversion.moved, hcallee, hcommas, if_true]
    split
    · cases stack with
      | nil => rfl
      | cons top stack =>
        rw [List.map_cons]
        simp only
        rw [moved_kind]
        split <;> rfl
    · rfl

@[simp] theorem closeParen_moved :
    (s.moved g).closeParen (token.moved g) =
      relocated g (Conversion.moved · g) (s.closeParen token) := by
  cases hframes : s.frames with
  | nil =>
    have hmoved : (s.moved g).frames = [] := by rw [Conversion.moved, hframes]; rfl
    simp only [Conversion.closeParen, hframes, hmoved]
    rfl
  | cons frame frames =>
    have hmoved : (s.moved g).frames = frame.moved g :: frames.map (Frame.moved g) := by
      rw [Conversion.moved, hframes]
      rfl
    simp only [Conversion.closeParen, hframes, hmoved, closingCount_moved]
    refine relocated_bind _ fun count => ?_
    simp only [id_eq]
    have hrelease : releaseToParen (s.moved g).output (s.moved g).stack =
        relocated g (moveBoth g) (releaseToParen s.output s.stack) :=
      releaseToParen_moved s.output s.stack
    rw [hrelease]
    refine relocated_bind _ fun released => ?_
    obtain ⟨output, stack⟩ := released
    cases hcallee : frame.callee with
    | none =>
      have hnone : (frame.moved g).callee = none := by rw [Frame.moved, hcallee]; rfl
      simp only [moveBoth, hnone]
      rw [← List.map_drop]
      rfl
    | some callee =>
      have hsome : (frame.moved g).callee = some (callee.moved g) := by
        rw [Frame.moved, hcallee]
        rfl
      simp only [moveBoth, hsome]
      rw [← List.map_drop]
      cases stack.drop 1 <;> rfl

@[simp] theorem comma_moved :
    (s.moved g).comma (token.moved g) = relocated g (Conversion.moved · g) (s.comma token) := by
  obtain ⟨output, stack, frames, expectsOperand⟩ := s
  match frames with
  | [] => rfl
  | ⟨none, _⟩ :: _ => rfl
  | ⟨some callee, commas⟩ :: frames =>
    cases expectsOperand with
    | true => rfl
    | false =>
      simp only [Conversion.comma, Conversion.moved, List.map_cons, Frame.moved, Option.map_some,
        Bool.false_eq_true, if_false, releaseToParen_moved]
      exact relocated_bind _ fun _ => rfl

@[simp] theorem finish_moved :
    (s.moved g).finish (token.moved g) =
      relocated g (List.map (Token.moved g)) (s.finish token) := by
  obtain ⟨output, stack, frames, expectsOperand⟩ := s
  cases expectsOperand with
  | true => rfl
  | false =>
    simp only [Conversion.finish, Conversion.moved, Bool.false_eq_true, if_false, releaseAll_moved]
    cases releaseAll output stack with
    | error e => rfl
    | ok out => exact congrArg Except.ok List.map_reverse.symm

end

/-- A conversion does the same with tokens at other places. -/
theorem run_moved {g : Position → Position} (s : Conversion) (tokens : List Token) :
    (s.moved g).run (tokens.map (Token.moved g)) =
      relocated g (List.map (Token.moved g)) (s.run tokens) := by
  fun_induction Conversion.run s tokens with
  | case1 s => rfl
  | case2 s token rest hk =>
    simp [Conversion.run.eq_def _ (token.moved g :: _), hk]
  | case3 s token rest hk ih =>
    simpa [Conversion.run.eq_def _ (token.moved g :: _), hk] using relocated_bind _ ih
  | case4 s token hk ih =>
    rw [List.map_cons, List.map_nil, Conversion.run.eq_def]
    simp only [moved_kind, hk, operand_moved]
    exact relocated_bind _ ih
  | case5 s token hk opening rest ho ih =>
    simpa [Conversion.run.eq_def _ (token.moved g :: _), hk, ho] using relocated_bind _ ih
  | case6 s token hk other rest ho ih =>
    simpa [Conversion.run.eq_def _ (token.moved g :: _), hk, ho] using relocated_bind _ ih
  | case7 s token rest hk ih =>
    simpa [Conversion.run.eq_def _ (token.moved g :: _), hk] using relocated_bind _ ih
  | case8 s token rest hk ih =>
    simpa [Conversion.run.eq_def _ (token.moved g :: _), hk] using relocated_bind _ ih
  | case9 s token rest hk ih =>
    simpa [Conversion.run.eq_def _ (token.moved g :: _), hk] using relocated_bind _ ih
  | case10 s token rest hk ih =>
    simpa [Conversion.run.eq_def _ (token.moved g :: _), hk] using relocated_bind _ ih
  | case11 s token rest hk =>
    simp [Conversion.run.eq_def _ (token.moved g :: _), hk]
    rfl
  | case12 s token rest hk =>
    simp [Conversion.run.eq_def _ (token.moved g :: _), hk]
    rfl

theorem splitTarget_moved {g : Position → Position} (tokens : List Token) :
    splitTarget (tokens.map (Token.moved g)) =
      ((splitTarget tokens).1.map (Token.moved g), (splitTarget tokens).2.map (Token.moved g)) := by
  match tokens with
  | [] => rfl
  | [first] => rfl
  | first :: second :: rest =>
    rw [List.map_cons, List.map_cons, splitTarget, splitTarget, moved_kind, moved_kind, moved_value]
    split <;> rfl

/-- An expression with its tokens at other places, of another text. -/
def Expression.moved (e : Expression) (g : Position → Position) (source : String) : Expression :=
  ⟨source, e.program.map (Token.moved g), e.target.map (Token.moved g)⟩

theorem ofTokens_moved {g : Position → Position} (source other : String) (tokens : List Token) :
    Expression.ofTokens other (tokens.map (Token.moved g)) =
      relocated g (Expression.moved · g other) (Expression.ofTokens source tokens) := by
  rw [Expression.ofTokens, Expression.ofTokens, splitTarget_moved]
  obtain ⟨target, body⟩ := splitTarget tokens
  cases body with
  | nil => rfl
  | cons first body =>
    simp only [List.map_cons]
    rw [moved_kind]
    split
    · cases target <;> rfl
    · have hrun : Conversion.start.run (first.moved g :: body.map (Token.moved g)) =
          relocated g (List.map (Token.moved g)) (Conversion.start.run (first :: body)) :=
        run_moved .start (first :: body)
      rw [hrun]
      cases Conversion.start.run (first :: body) <;> rfl

/-- Forgets a place. -/
def Position.forget : Position → Position :=
  fun _ => .start

/-- What was read in a text, without the places in it. -/
def unplaced (x : Except LexError (List Token)) : Except LexError (List Token) :=
  (x.map (List.map (Token.moved .forget))).mapError (LexError.moved .forget)

/-- Texts of the same tokens, or of the same first error, but for their places. -/
def Alike (a b : String) : Prop :=
  unplaced (tokenize a) = unplaced (tokenize b)

def SyntaxError.moved (g : Position → Position) : SyntaxError → SyntaxError
  | .lexical e => .lexical (e.moved g)
  | .grammatical e => .grammatical (e.moved g)

@[simp] theorem toResolveError_moved (g : Position → Position) (e : SyntaxError) :
    (e.moved g).toResolveError = e.toResolveError.moved g := by
  match e with
  | .lexical e => rfl
  | .grammatical (.rejected e) => rfl
  | .grammatical (.fault f) => rfl

/-- A text as it is read, without the places of its tokens. -/
def bareParse (text : String) : Except SyntaxError Expression :=
  ((Expression.parse text).map (Expression.moved · .forget "")).mapError (SyntaxError.moved .forget)

theorem bareParse_eq (text : String) :
    bareParse text =
      match unplaced (tokenize text) with
      | .error e => .error (.lexical e)
      | .ok tokens => (Expression.ofTokens "" tokens).mapError .grammatical := by
  rw [bareParse, Expression.parse]
  cases tokenize text with
  | error e => rfl
  | ok tokens =>
    simp [unplaced, ofTokens_moved text ""]
    cases Expression.ofTokens text tokens <;> rfl

theorem bareParse_congr {a b : String} (h : Alike a b) : bareParse a = bareParse b := by
  rw [bareParse_eq, bareParse_eq, h]

/-- What a text resolves to, but for the place of an error. -/
theorem resolve_forget (s : Session) (text : String) :
    (s.resolve text).mapError (ResolveError.moved .forget) =
      match bareParse text with
      | .error e => .error e.toResolveError
      | .ok e => s.run e := by
  rw [bareParse, Session.resolve]
  cases Expression.parse text with
  | error e => exact congrArg Except.error (toResolveError_moved .forget e).symm
  | ok e => exact (run_relocated rfl rfl).symm

/-- What a text is answered with, but for the place of an error. -/
theorem answer_forget (s : Session) (text : String) :
    (s.answer text).mapError (ResolveError.moved .forget) =
      match bareParse text with
      | .error e => .error e.toResolveError
      | .ok e => (s.run e).map fun (s, x) =>
        (s, match e.target with
          | none => x.toText
          | some target => target.value ++ " = " ++ x.toText) := by
  rw [bareParse, Session.answer]
  cases Expression.parse text with
  | error e => exact congrArg Except.error (toResolveError_moved .forget e).symm
  | ok e =>
    have hrun : s.run (e.moved .forget "") = (s.run e).mapError (ResolveError.moved .forget) :=
      run_relocated rfl rfl
    simp only [map_ok, mapError_ok, hrun]
    cases s.run e with
    | error error => rfl
    | ok r =>
      obtain ⟨source, program, target⟩ := e
      cases target <;> rfl

@[simp] theorem message?_moved (g : Position → Position) (e : ResolveError) :
    (e.moved g).message? = e.message? := by
  match e with
  | .lexical e => rfl
  | .grammatical (.rejected e) => rfl
  | .grammatical (.fault f) => rfl
  | .evaluation (.failed e) => rfl
  | .evaluation (.program e) => rfl
  | .evaluation (.malformed text) => rfl
  | .evaluation (.fault f) => rfl
  | .session e => rfl

/-- An error without a message has no place. -/
theorem moved_of_message?_eq_none {g : Position → Position} {e : ResolveError}
    (h : e.message? = none) : e.moved g = e := by
  match e, h with
  | .grammatical (.fault f), _ => rfl
  | .evaluation (.malformed text), _ => rfl
  | .evaluation (.fault f), _ => rfl
  | .session e, _ => rfl

/-- Results that differ in the place of their error at most: the value is the same, or the message,
and where there is no message all of the error. -/
theorem cases_of_forget {α : Type} {x y : Except ResolveError α}
    (h : x.mapError (ResolveError.moved .forget) = y.mapError (ResolveError.moved .forget)) :
    (∃ a, x = .ok a ∧ y = .ok a) ∨
      ∃ e e', x = .error e ∧ y = .error e' ∧ e.message? = e'.message? ∧
        (e.message? = none → e = e') := by
  match x, y, h with
  | .ok a, .ok b, h => exact .inl ⟨a, rfl, congrArg Except.ok (Except.ok.inj h).symm⟩
  | .error e, .error e', h =>
    have hmoved : e.moved .forget = e'.moved .forget := Except.error.inj h
    have hmessage : e.message? = e'.message? := by
      rw [← message?_moved .forget e, hmoved, message?_moved]
    refine .inr ⟨e, e', rfl, rfl, hmessage, fun hnone => ?_⟩
    rwa [moved_of_message?_eq_none hnone, moved_of_message?_eq_none (hmessage ▸ hnone)] at hmoved

theorem resolve_alike {a b : String} (h : Alike a b) (s : Session) :
    (s.resolve a).mapError (ResolveError.moved .forget) =
      (s.resolve b).mapError (ResolveError.moved .forget) := by
  rw [resolve_forget, resolve_forget, bareParse_congr h]

theorem answer_alike {a b : String} (h : Alike a b) (s : Session) :
    (s.answer a).mapError (ResolveError.moved .forget) =
      (s.answer b).mapError (ResolveError.moved .forget) := by
  rw [answer_forget, answer_forget, bareParse_congr h]

end Reckoner
