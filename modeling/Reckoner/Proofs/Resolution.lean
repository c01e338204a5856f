import Reckoner.Diagnostics
import Reckoner.Proofs.Faults
import Reckoner.Proofs.History
import Reckoner.Proofs.Program
import Reckoner.Proofs.Sentences
import Reckoner.Shell

namespace Reckoner

/-- An error that is no break and not about a text that is no number. -/
def EvaluationError.Plain (e : EvaluationError) : Prop :=
  (∃ failure, e = .failed failure) ∨ ∃ f, e = .program f

section
variable {token : Token} {stack : List Number} {e : EvaluationError}

theorem at_plain {span : Span} {failure : NumericError} (h : ∀ f, failure ≠ .fault f) :
    (failure.at span).Plain := by
  cases failure with
  | domain d => exact .inl ⟨_, rfl⟩
  | range r => exact .inl ⟨_, rfl⟩
  | fault f => exact absurd rfl (h f)

theorem mapError_map_error {α β ε δ : Type} {g : ε → δ} {f : α → β} {x : Except ε α} {e : δ}
    (h : (x.map f).mapError g = .error e) : ∃ failure, x = .error failure ∧ e = g failure := by
  cases x with
  | ok a => cases h
  | error failure =>
    cases h
    exact ⟨failure, rfl, rfl⟩

theorem applyUnary_error {g : Number → Except NumericError Number}
    (h : applyUnary token g stack = .error e) :
    (∃ x failure, g x = .error failure ∧ e = failure.at token.span) ∨ ∃ f, e = .program f := by
  match stack, h with
  | [], h =>
    cases h
    exact .inr ⟨_, rfl⟩
  | x :: stack, h =>
    obtain ⟨failure, hx, he⟩ := mapError_map_error h
    exact .inl ⟨x, failure, hx, he⟩

theorem applyBinary_error {g : Number → Number → Except NumericError Number}
    (h : applyBinary token g stack = .error e) :
    (∃ a b held failure, stack = b :: a :: held ∧ g a b = .error failure ∧
      e = failure.at token.span) ∨ ∃ f, e = .program f := by
  match stack, h with
  | [], h =>
    cases h
    exact .inr ⟨_, rfl⟩
  | [x], h =>
    cases h
    exact .inr ⟨_, rfl⟩
  | b :: a :: held, h =>
    obtain ⟨failure, hab, he⟩ := mapError_map_error h
    exact .inl ⟨a, b, held, failure, rfl, hab, he⟩

theorem applyUnary_plain {g : Number → Except NumericError Number} (hg : ∀ x, Faultless (g x))
    (h : applyUnary token g stack = .error e) : e.Plain := by
  obtain ⟨x, failure, hx, rfl⟩ | hprogram := applyUnary_error h
  · refine at_plain fun f hf => hg x f ?_
    rw [hx, hf]
  · exact .inr hprogram

theorem applyBinary_plain {g : Number → Number → Except NumericError Number}
    (hg : ∀ a b, Faultless (g a b)) (h : applyBinary token g stack = .error e) : e.Plain := by
  obtain ⟨a, b, held, failure, _, hab, rfl⟩ | hprogram := applyBinary_error h
  · refine at_plain fun f hf => hg a b f ?_
    rw [hab, hf]
  · exact .inr hprogram

theorem applyCall_plain (h : applyCall token stack = .error e) : e.Plain := by
  unfold applyCall at h
  cases hfind : findBuiltin? token.value with
  | none =>
    simp only [hfind] at h
    cases h
    exact .inl ⟨_, rfl⟩
  | some builtin =>
    have hbuiltin := builtins_faultless builtin (List.mem_of_find?_eq_some hfind)
    simp only [hfind] at h
    split at h
    · cases h
      exact .inl ⟨_, rfl⟩
    · cases hrule : builtin.rule with
      | unary g =>
        rw [hrule] at hbuiltin h
        exact applyUnary_plain hbuiltin h
      | binary g =>
        rw [hrule] at hbuiltin h
        exact applyBinary_plain hbuiltin h

theorem binaryOperation_sign {precision : ℕ} {sign : String}
    {g : Number → Number → Except NumericError Number}
    (h : binaryOperation? precision sign = some g) :
    ∃ op : BinarySign, sign = op.text ∧ g = op.apply precision := by
  unfold binaryOperation? at h
  split at h
  next hsign =>
    cases h
    exact ⟨.plus, hsign, rfl⟩
  split at h
  next hsign =>
    cases h
    exact ⟨.minus, hsign, rfl⟩
  split at h
  next hsign =>
    cases h
    exact ⟨.times, hsign, rfl⟩
  split at h
  next hsign =>
    cases h
    exact ⟨.over, hsign, rfl⟩
  split at h
  next hsign =>
    cases h
    exact ⟨.power, hsign, rfl⟩
  · cases h

/-- The token stands for an operation that breaks off on the two numbers on top of a stack. -/
def Token.BreaksOff (token : Token) (precision : ℕ) (f : Fault) : List Number → Prop
  | b :: a :: _ => ∃ op : BinarySign, token.IsSign op.text ∧
      op.apply precision a b = .error (.fault f)
  | _ => False

theorem operation_error {precision : ℕ} {op : BinarySign} (hs : token.IsSign op.text)
    (h : applyBinary token (op.apply precision) stack = .error e) :
    e.Plain ∨ ∃ f, e = .fault f ∧ token.BreaksOff precision f stack := by
  obtain ⟨a, b, held, failure, rfl, hfailure, rfl⟩ | hprogram := applyBinary_error h
  · cases failure with
    | domain d => exact .inl (.inl ⟨_, rfl⟩)
    | range r => exact .inl (.inl ⟨_, rfl⟩)
    | fault f => exact .inr ⟨f, rfl, op, hs, hfailure⟩
  · exact .inl (.inr hprogram)

/-- What a step can fail with: a break, a number that cannot be read, or an error that is reported. -/
theorem step_error {env : Environment} (h : env.step token stack = .error e) :
    e.Plain ∨ (∃ f, e = .fault f ∧ token.BreaksOff env.precision f stack) ∨
    (token.kind = .number ∧ Number.ofText? token.value = none ∧ e = .malformed token.value) := by
  unfold Environment.step at h
  split at h
  next hk =>
    split at h
    · cases h
    next hnone =>
      cases h
      exact .inr (.inr ⟨hk, hnone, rfl⟩)
  next =>
    split at h
    · cases h
    · cases h
      exact .inl (.inl ⟨_, rfl⟩)
  next => exact .inl (applyUnary_plain (fun _ => faultless_ok _) h)
  next hk =>
    split at h
    · exact .inl (applyUnary_plain factorial_faultless h)
    · split at h
      next g hop =>
        obtain ⟨op, hsign, rfl⟩ := binaryOperation_sign hop
        obtain hplain | hbreaks := operation_error ⟨hk, hsign⟩ h
        · exact .inl hplain
        · exact .inr (.inl hbreaks)
      · cases h
        exact .inl (.inr ⟨_, rfl⟩)
  next => exact .inl (applyCall_plain h)
  next =>
    cases h
    exact .inl (.inr ⟨_, rfl⟩)

theorem step_breaksOff {env : Environment} {f : Fault}
    (h : token.BreaksOff env.precision f stack) : env.step token stack = .error (.fault f) := by
  match stack, h with
  | b :: a :: held, ⟨op, hs, hfault⟩ =>
    rw [step_binary hs, hfault]
    rfl

end

theorem execute_append {env : Environment} (done rest : List Token) (stack : List Number) :
    env.execute (done ++ rest) stack = env.execute done stack >>= env.execute rest := by
  induction done generalizing stack with
  | nil => rfl
  | cons token done ih =>
    rw [List.cons_append, execute_cons, execute_cons]
    cases env.step token stack with
    | error e => rfl
    | ok next => exact ih next

/-- The run of a program comes to an operation that breaks off on its operands. -/
def Environment.BreaksOff (env : Environment) (program : List Token) (f : Fault) : Prop :=
  ∃ done sign rest op a b held, program = done ++ sign :: rest ∧
    sign.IsSign (BinarySign.text op) ∧ env.execute done [] = .ok (b :: a :: held) ∧
    OperationBreaks env.precision a b op f

theorem evaluate_error {env : Environment} {program : List Token} {e : EvaluationError}
    (h : env.evaluate program = .error e) :
    env.execute program [] = .error e ∨ ∃ f, e = .program f := by
  unfold Environment.evaluate at h
  split at h
  next e' he =>
    cases h
    exact .inl he
  · cases h
  · cases h
    exact .inr ⟨_, rfl⟩

theorem evaluate_fault_iff {env : Environment} (hprecision : 0 < env.precision)
    {program : List Token} {f : Fault} :
    env.evaluate program = .error (.fault f) ↔ env.BreaksOff program f := by
  constructor
  · intro h
    obtain hrun | ⟨e, he⟩ := evaluate_error h
    · obtain ⟨done, node, rest, held, hprogram, hdone, hnode⟩ := execute_error hrun
      obtain hplain | ⟨f', hf, hbreaks⟩ | ⟨_, _, hmalformed⟩ := step_error hnode
      · obtain ⟨failure, hf⟩ | ⟨e, he⟩ := hplain
        · cases hf
        · cases he
      · cases hf
        match held, hbreaks with
        | b :: a :: below, ⟨op, hs, hfault⟩ =>
          exact ⟨done, node, rest, op, a, b, below, hprogram, hs, hdone,
            (apply_fault_iff hprecision op).mp hfault⟩
      · cases hmalformed
    · cases he
  · rintro ⟨done, sign, rest, op, a, b, held, rfl, hs, hdone, hbreaks⟩
    have hstep : env.step sign (b :: a :: held) = .error (.fault f) :=
      step_breaksOff ⟨op, hs, (apply_fault_iff hprecision op).mpr hbreaks⟩
    have hrun : env.execute (done ++ sign :: rest) [] = .error (.fault f) := by
      rw [execute_append, hdone]
      simp [execute_cons, hstep]
    simp only [Environment.evaluate, hrun]

theorem ScanShape.scanned {tokens : List Token} {token : Token} (h : ScanShape tokens)
    (ht : token ∈ tokens) (hk : token.kind ≠ .endOfInput) : token.Scanned := by
  obtain ⟨body, stop, rfl, hstop, hbody⟩ := h
  rcases List.mem_append.mp ht with ht | ht
  · exact hbody token ht
  · rw [List.mem_singleton.mp ht] at hk
    exact absurd hstop hk

/-- Operands stand in the text for themselves. -/
theorem mem_of_mem_nodesOf {afterOperand : Bool} {ts : List Token} {node : Token}
    (h : node ∈ nodesOf afterOperand ts) (hoperand : node.isOperand = true) : node ∈ ts := by
  have kept : ∀ {token : Token} {rest nodes : List Token}, (node ∈ nodes → node ∈ rest) →
      node ∈ token :: nodes → node ∈ token :: rest := by
    intro token rest nodes ih h
    rcases List.mem_cons.mp h with rfl | h
    · exact List.mem_cons_self
    · exact List.mem_cons_of_mem _ (ih h)
  have marked : ∀ {token mark : Token} {rest nodes : List Token}, mark.isOperand = false →
      (node ∈ nodes → node ∈ rest) → node ∈ mark :: nodes → node ∈ token :: rest := by
    intro token mark rest nodes hmark ih h
    rcases List.mem_cons.mp h with rfl | h
    · rw [hmark] at hoperand
      cases hoperand
    · exact List.mem_cons_of_mem _ (ih h)
  fun_induction nodesOf afterOperand ts with
  | case1 => exact h
  | case2 _ _ _ _ ih => exact kept ih h
  | case3 _ _ _ _ _ ih => exact marked rfl ih h
  | case4 _ _ _ _ _ ih => exact kept ih h
  | case5 _ _ _ _ _ ih => exact kept ih h
  | case6 _ _ _ _ ih => exact kept ih h
  | case7 _ _ _ _ _ _ _ ih => exact marked rfl ih h
  | case8 _ _ _ _ _ _ _ ih => exact List.mem_cons_of_mem _ (ih h)
  | case9 _ _ _ _ ih => exact List.mem_cons_of_mem _ (ih h)
  | case10 _ _ _ _ _ _ _ ih => exact List.mem_cons_of_mem _ (ih h)

theorem splitTarget_subset (tokens : List Token) : (splitTarget tokens).2 ⊆ tokens := by
  rcases splitTarget_cases tokens with ⟨name, sign, rest, rfl, _, _, heq⟩ | heq
  · rw [heq]
    exact fun token ht => List.mem_cons_of_mem _ (List.mem_cons_of_mem _ ht)
  · rw [heq]
    exact List.Subset.refl _

/-- The numbers of a program are literals of its text. -/
theorem literal_of_mem_program {tokens : List Token} {target : Option Token} {tree : Tree}
    (hshape : ScanShape tokens) (h : Sentence true tokens target tree) {node : Token}
    (hmem : node ∈ tree.postorder) (hk : node.kind = .number) :
    ∃ x, Number.ofText? node.value = some x := by
  have hoperand : node.isOperand = true := by simp [Token.isOperand, hk]
  have hnodes : node ∈ (nodesOf false (splitTarget tokens).2).filter Token.isOperand := by
    rw [(holds_of_sentence h).2]
    exact List.mem_filter.mpr ⟨hmem, hoperand⟩
  have hbody := mem_of_mem_nodesOf (List.mem_filter.mp hnodes).1 hoperand
  have htokens := splitTarget_subset tokens hbody
  exact (hshape.scanned htokens (by rw [hk]; decide)).literal hk

theorem target_isName {tokens : List Token} {target : Token} {tree : Tree}
    (hshape : ScanShape tokens) (h : Sentence true tokens (some target) tree) :
    isName target.value = true := by
  cases h with
  | assignment hname hsign hs hstop =>
    exact (hshape.scanned (by simp) (by rw [hname]; decide)).name hname

/-- The evaluation of an accepted text fails at a node of its program, or breaks off. -/
theorem evaluate_accepted {source : String} {e : Expression} (h : Expression.parse source = .ok e)
    (env : Environment) {error : EvaluationError} (herror : env.evaluate e.program = .error error) :
    (∃ failure node, error = .failed failure ∧ node ∈ e.program ∧ failure.span = node.span) ∨
      ∃ f, error = .fault f := by
  obtain ⟨tokens, tree, htokens, hsentence, hprogram⟩ := sentence_of_parse h
  have hdepth := depthAfter_postorder tree 0 []
  rw [List.append_nil] at hdepth
  cases error with
  | fault f => exact .inr ⟨f, rfl⟩
  | program f =>
    rw [hprogram] at herror
    exact absurd herror (evaluate_of_balanced (isNode_of_mem_postorder tree) hdepth env f)
  | failed failure =>
    obtain hrun | ⟨f, hf⟩ := evaluate_error herror
    · obtain ⟨done, node, rest, held, hnode, _, hstep⟩ := execute_error hrun
      exact .inl ⟨failure, node, rfl, by simp [hnode], step_span hstep⟩
    · cases hf
  | malformed text =>
    obtain hrun | ⟨f, hf⟩ := evaluate_error herror
    · obtain ⟨done, node, rest, held, hnode, _, hstep⟩ := execute_error hrun
      obtain (⟨_, hplain⟩ | ⟨_, hplain⟩) | ⟨_, hfault, _⟩ | ⟨hk, hnone, _⟩ := step_error hstep
      · cases hplain
      · cases hplain
      · cases hfault
      · have hmem : node ∈ tree.postorder := by rw [← hprogram, hnode]; simp
        obtain ⟨x, hx⟩ := literal_of_mem_program (tokenize_shape htokens) hsentence hmem hk
        rw [hnone] at hx
        cases hx
    · cases hf

theorem assign_accepted {source : String} {e : Expression} (h : Expression.parse source = .ok e)
    (s : Session) (x : Number) : ∃ s', s.assign e x = .ok s' := by
  obtain ⟨tokens, tree, htokens, hsentence, _⟩ := sentence_of_parse h
  cases htarget : e.target with
  | none => exact ⟨s, by simp [Session.assign, htarget]⟩
  | some target =>
    rw [htarget] at hsentence
    have hname := target_isName (tokenize_shape htokens) hsentence
    exact ⟨_, assign_named htarget hname s x⟩

/-- The text is accepted, and the run of its program in the session breaks off. -/
def Session.BreaksOff (s : Session) (source : String) (f : Fault) : Prop :=
  ∃ e, Expression.parse source = .ok e ∧ s.environment.BreaksOff e.program f

/-- A number, which is no infinity where it is a float, or an error with a place in the text. -/
def Reported (source : String) : Except ResolveError (Session × Number) → Prop
  | .ok (_, x) => ∀ y, x = .float y → ExtendedDouble.ofBits y.toBits = .finite y
  | .error (.lexical _) => True
  | .error (.grammatical (.rejected _)) => True
  | .error (.evaluation (.failed failure)) =>
    ∃ e node, Expression.parse source = .ok e ∧ node ∈ e.program ∧ failure.span = node.span
  | .error _ => False

@[simp] theorem parse_not_fault (source : String) (f : Fault) :
    Expression.parse source ≠ .error (.grammatical (.fault f)) := by
  unfold Expression.parse
  split
  · simp
  next tokens htokens =>
    split
    next e he =>
      intro h
      cases h
      exact ofTokens_not_fault f (tokenize_shape htokens) he
    · simp

theorem evaluate_eq {s : Session} (hp : s.precision ≤ maxPrecision) (e : Expression) :
    s.evaluate e = (s.environment.evaluate e.program).mapError .evaluation := by
  rw [Session.evaluate, if_neg (Nat.not_lt.mpr hp)]

theorem resolve_cases {s : Session} (hp : s.precision ≤ maxPrecision) (source : String) :
    Reported source (s.resolve source) ∨
      ∃ e f, Expression.parse source = .ok e ∧
        s.environment.evaluate e.program = .error (.fault f) ∧
        s.resolve source = .error (.evaluation (.fault f)) := by
  unfold Session.resolve
  cases hparse : Expression.parse source with
  | error e =>
    match e with
    | .lexical _ => exact .inl trivial
    | .grammatical (.rejected _) => exact .inl trivial
    | .grammatical (.fault f) => exact absurd hparse (parse_not_fault source f)
  | ok e =>
    simp only [Session.run, evaluate_eq hp]
    cases heval : s.environment.evaluate e.program with
    | ok x =>
      obtain ⟨s', hassign⟩ := assign_accepted hparse s x
      simp only [mapError_ok, hassign]
      exact .inl fun y hy => ofBits_toBits y
    | error error =>
      obtain ⟨failure, node, rfl, hnode, hspan⟩ | ⟨f, rfl⟩ := evaluate_accepted hparse _ heval
      · exact .inl ⟨e, node, hparse, hnode, hspan⟩
      · exact .inr ⟨e, f, rfl, heval, rfl⟩

theorem resolve_fault_iff {s : Session} (hleast : 0 < s.precision) (hp : s.precision ≤ maxPrecision)
    {source : String} {f : Fault} :
    s.resolve source = .error (.evaluation (.fault f)) ↔ s.BreaksOff source f := by
  constructor
  · intro h
    obtain hreported | ⟨e, f', hparse, heval, hresolve⟩ := resolve_cases hp source
    · rw [h] at hreported
      exact hreported.elim
    · rw [h] at hresolve
      cases hresolve
      exact ⟨e, hparse, (evaluate_fault_iff hleast).mp heval⟩
  · rintro ⟨e, hparse, hbreaks⟩
    have heval : s.environment.evaluate e.program = .error (.fault f) :=
      (evaluate_fault_iff hleast).mpr hbreaks
    rw [Session.resolve, hparse]
    simp only [Session.run, evaluate_eq hp, heval]
    rfl

theorem answer_error {s : Session} {line : String} {e : ResolveError}
    (h : s.answer line = .error e) : s.resolve line = .error e := by
  unfold Session.answer at h
  unfold Session.resolve
  cases hparse : Expression.parse line with
  | error e' =>
    rw [hparse] at h
    cases h
    rfl
  | ok expression =>
    simp only [hparse] at h ⊢
    cases hrun : s.run expression with
    | ok r => simp [hrun] at h
    | error e' =>
      rw [hrun] at h
      cases h
      rfl

/-- An error that is reported has a message and a diagnostic. -/
theorem Reported.message {source : String} {e : ResolveError} (h : Reported source (.error e)) :
    e.message?.isSome = true ∧
      ∀ line text, (Diagnostic.ofError? line text e).isSome = true := by
  match e, h with
  | .lexical _, _ => exact ⟨rfl, fun _ _ => rfl⟩
  | .grammatical (.rejected _), _ => exact ⟨rfl, fun _ _ => rfl⟩
  | .evaluation (.failed _), _ => exact ⟨rfl, fun _ _ => rfl⟩

/-- A line breaks the shell only where its resolution breaks off. -/
theorem line_broken {settings : Settings} {shell : Shell} {line : String} {e : ResolveError}
    (hp : shell.session.precision ≤ maxPrecision)
    (h : (shell.line settings line).2 = .broken e) :
    shell.session.resolve line = .error e ∧ ∃ f, e = .evaluation (.fault f) := by
  unfold Shell.line at h
  cases hanswer : shell.session.answer line with
  | ok r => simp [hanswer] at h
  | error e' =>
    simp only [hanswer] at h
    cases hmessage : e'.message? with
    | some message => simp [hmessage] at h
    | none =>
      simp only [hmessage] at h
      cases h
      have herror := answer_error hanswer
      obtain hreported | ⟨_, f, _, _, hfault⟩ := resolve_cases hp line
      · rw [herror] at hreported
        have := hreported.message.1
        simp [hmessage] at this
      · rw [herror] at hfault
        exact ⟨herror, f, Except.error.inj hfault⟩

theorem resolve_precision {s s' : Session} {source : String} {x : Number}
    (h : s.resolve source = .ok (s', x)) : s'.precision = s.precision := by
  unfold Session.resolve at h
  split at h
  · cases h
  · rw [run_eq_store h, store_precision]

theorem answer_ok {s s' : Session} {line text : String} (h : s.answer line = .ok (s', text)) :
    ∃ x, s.resolve line = .ok (s', x) := by
  unfold Session.answer at h
  unfold Session.resolve
  cases hparse : Expression.parse line with
  | error e => simp [hparse] at h
  | ok expression =>
    simp only [hparse] at h ⊢
    cases hrun : s.run expression with
    | error e => simp [hrun] at h
    | ok r =>
      rw [hrun] at h
      cases h
      exact ⟨r.2, rfl⟩

@[simp] theorem line_precision (settings : Settings) (shell : Shell) (line : String) :
    (shell.line settings line).1.session.precision = shell.session.precision := by
  unfold Shell.line
  cases hanswer : shell.session.answer line with
  | ok r =>
    obtain ⟨x, hresolve⟩ := answer_ok hanswer
    exact resolve_precision hresolve
  | error e =>
    simp only
    split <;> rfl

@[simp] theorem ask_session (settings : Settings) (atTerminal : Bool) (shell : Shell) :
    (shell.ask settings atTerminal).session = shell.session := by
  unfold Shell.ask
  split <;> rfl

/-- A line of the shell is no ending, or the regular one, or breaks off. -/
theorem feed_ending {settings : Settings} {shell : Shell} (hleast : 0 < shell.session.precision)
    (hp : shell.session.precision ≤ maxPrecision) (raw : String) :
    (∃ next, shell.feed settings raw = (next, none) ∧
      next.session.precision = shell.session.precision) ∨
    (shell.feed settings raw).2 = some (.exit 0) ∨
    ∃ f, (shell.feed settings raw).2 = some (.broken (.evaluation (.fault f))) ∧
      shell.session.BreaksOff (trim raw) f := by
  unfold Shell.feed
  simp only
  split
  · exact .inl ⟨shell, rfl, rfl⟩
  split
  · exact .inr (.inl rfl)
  · have hprecision := line_precision settings shell (trim raw)
    cases hline : shell.line settings (trim raw) with
    | mk next verdict =>
      rw [hline] at hprecision
      cases verdict with
      | answered => exact .inl ⟨next, rfl, hprecision⟩
      | refused => exact .inl ⟨next, rfl, hprecision⟩
      | broken e =>
        obtain ⟨hresolve, f, rfl⟩ := line_broken hp (by rw [hline])
        exact .inr (.inr ⟨f, rfl, (resolve_fault_iff hleast hp).mp hresolve⟩)

/-- The interactive shell goes on to its end, unless a line breaks off. -/
theorem interact_ending {settings : Settings} {atTerminal : Bool} {shell : Shell}
    (hleast : 0 < shell.session.precision) (hp : shell.session.precision ≤ maxPrecision)
    (lines : List String) :
    (shell.interact settings atTerminal lines).2 = .exit 0 ∨
      ∃ f raw s, raw ∈ lines ∧ Session.BreaksOff s (trim raw) f ∧
        (shell.interact settings atTerminal lines).2 = .broken (.evaluation (.fault f)) := by
  induction lines generalizing shell with
  | nil => exact .inl rfl
  | cons raw rest ih =>
    have hsession := ask_session settings atTerminal shell
    rw [Shell.interact]
    rw [← hsession] at hleast hp
    obtain ⟨next, hnext, hprecision⟩ | hend | ⟨f, hend, hbreaks⟩ := feed_ending hleast hp raw
    · rw [hnext]
      rw [← hprecision] at hleast hp
      obtain hexit | ⟨f, line, s, hline, hbreaks, hend⟩ := ih hleast hp
      · exact .inl hexit
      · exact .inr ⟨f, line, s, List.mem_cons_of_mem _ hline, hbreaks, hend⟩
    · cases hfeed : (shell.ask settings atTerminal).feed settings raw with
      | mk next ending =>
        rw [hfeed] at hend
        cases hend
        exact .inl rfl
    · cases hfeed : (shell.ask settings atTerminal).feed settings raw with
      | mk next ending =>
        rw [hfeed] at hend
        cases hend
        exact .inr ⟨f, raw, _, List.mem_cons_self, hbreaks, rfl⟩

/-- The check of a document goes on to its last line, unless a line breaks off. -/
theorem checkLines_error {s : Session} {number : ℕ} {lines : List String} {e : ResolveError}
    (hleast : 0 < s.precision) (hp : s.precision ≤ maxPrecision)
    (h : checkLines s number lines = .error e) :
    ∃ f text s', text ∈ lines ∧ Session.BreaksOff s' text f ∧ e = .evaluation (.fault f) := by
  induction lines generalizing s number with
  | nil => cases h
  | cons text rest ih =>
    have later : ∀ {s' : Session} {number : ℕ}, s'.precision = s.precision →
        checkLines s' number rest = .error e → ∃ f text' s', text' ∈ text :: rest ∧
          Session.BreaksOff s' text' f ∧ e = .evaluation (.fault f) := by
      intro s' number hprecision h
      rw [← hprecision] at hleast hp
      obtain ⟨f, text', s'', hmem, hbreaks, he⟩ := ih hleast hp h
      exact ⟨f, text', s'', List.mem_cons_of_mem _ hmem, hbreaks, he⟩
    rw [checkLines] at h
    split at h
    · exact later rfl h
    · split at h
      next s' x hresolve => exact later (resolve_precision hresolve) h
      next e' hresolve =>
        split at h
        next diagnostic hdiagnostic => exact later rfl (map_eq_error h)
        next hdiagnostic =>
          cases h
          obtain hreported | ⟨_, f, _, _, hfault⟩ := resolve_cases hp text
          · rw [hresolve] at hreported
            have := hreported.message.2 number text
            simp [hdiagnostic] at this
          · have hbreaks := (resolve_fault_iff hleast hp).mp hfault
            rw [hresolve] at hfault
            exact ⟨f, text, s, List.mem_cons_self, hbreaks, Except.error.inj hfault⟩

/-- In a session of a precision that decimal arithmetic allows, every text is worth a number that is
finite, or is refused with an error that has its place in the text, unless the run of its program
comes to an operation that breaks off: a quotient of a float and a number that vanishes under it, or
a decimal that is too large. Only this breaks a line of the shell, a whole run of the shell or the
check of a document. -/
theorem resolve_reported {s : Session} (hleast : 0 < s.precision) (hp : s.precision ≤ maxPrecision)
    (source : String) :
    ((∀ f, ¬ s.BreaksOff source f) → Reported source (s.resolve source)) ∧
    (∀ f, s.BreaksOff source f → s.resolve source = .error (.evaluation (.fault f))) ∧
    (∀ settings output errors e,
      ((⟨s, output, errors⟩ : Shell).line settings source).2 = .broken e →
        ∃ f, e = .evaluation (.fault f) ∧ s.BreaksOff source f) ∧
    (∀ settings atTerminal output errors lines,
      ((⟨s, output, errors⟩ : Shell).interact settings atTerminal lines).2 = .exit 0 ∨
        ∃ f raw s', raw ∈ lines ∧ Session.BreaksOff s' (trim raw) f ∧
          ((⟨s, output, errors⟩ : Shell).interact settings atTerminal lines).2 =
            .broken (.evaluation (.fault f))) ∧
    ∀ number lines e, checkLines s number lines = .error e →
      ∃ f text s', text ∈ lines ∧ Session.BreaksOff s' text f ∧ e = .evaluation (.fault f) := by
  refine ⟨fun hnot => ?_, fun f hbreaks => (resolve_fault_iff hleast hp).mpr hbreaks,
    fun settings output errors e h => ?_, fun _ _ _ _ lines => interact_ending hleast hp lines,
    fun _ _ _ h => checkLines_error hleast hp h⟩
  · obtain hreported | ⟨_, f, _, _, hfault⟩ := resolve_cases hp source
    · exact hreported
    · exact absurd ((resolve_fault_iff hleast hp).mp hfault) (hnot f)
  · obtain ⟨hresolve, f, rfl⟩ := line_broken hp h
    exact ⟨f, rfl, (resolve_fault_iff hleast hp).mp hresolve⟩

/-- A session in which `x` is `1e-400`. -/
def smallSession : Session :=
  ⟨28, [("x", .decimal ⟨false, 1, -400⟩)]⟩

/-- A session in which `x` has more than a million digits. -/
def largeSession : Session :=
  ⟨28, [("x", .natural (10 ^ 1000001))]⟩

theorem largeSession_breaksOff : largeSession.BreaksOff "x/3" .decimalTooLarge := by
  have hparse : Expression.parse "x/3" = .ok ⟨"x/3", [.written .identifier "x" 0,
      .written .number "3" 2, .written .operator "/" 1], none⟩ := by decide +kernel
  have hrun : ∀ x, (⟨28, [("x", x)]⟩ : Session).environment.execute
      [.written .identifier "x" 0, .written .number "3" 2] [] = .ok [.natural 3, x] :=
    fun _ => rfl
  have hbreaks : OperationBreaks 28 (.natural (10 ^ 1000001)) (.natural 3) .over .decimalTooLarge :=
    (div_fault_iff (by decide)).mp (powerThird_refused (le_refl 1000001))
  exact ⟨_, hparse, [.written .identifier "x" 0, .written .number "3" 2],
    .written .operator "/" 1, [], .over, _, _, [], rfl, by decide, hrun _, hbreaks⟩

theorem smallSession_reported :
    0 < smallSession.precision ∧ smallSession.precision ≤ maxPrecision ∧
      smallSession.BreaksOff "pi/x" .zeroDivisor ∧
      smallSession.resolve "pi/x" = .error (.evaluation (.fault .zeroDivisor)) ∧
      largeSession.resolve "x/3" = .error (.evaluation (.fault .decimalTooLarge)) ∧
      (∀ f, ¬ smallSession.BreaksOff "x/0" f) ∧ Reported "x/0" (smallSession.resolve "x/0") := by
  have hleast : 0 < smallSession.precision := by decide
  have hp : smallSession.precision ≤ maxPrecision := by decide
  have hquotient : smallSession.resolve "pi/x" = .error (.evaluation (.fault .zeroDivisor)) := by
    have hvalue : ((smallSession.resolve "pi/x").map (·.2)) =
        .error (.evaluation (.fault .zeroDivisor)) := by decide +kernel
    exact map_eq_error hvalue
  have hbreaks := (resolve_fault_iff hleast hp).mp hquotient
  have hzero : smallSession.resolve "x/0" =
      .error (.evaluation (.failed ⟨.domain .divisionByZero, ⟨⟨1, 2, 1⟩, ⟨1, 3, 2⟩⟩⟩)) := by
    have hvalue : ((smallSession.resolve "x/0").map (·.2)) =
        .error (.evaluation (.failed ⟨.domain .divisionByZero, ⟨⟨1, 2, 1⟩, ⟨1, 3, 2⟩⟩⟩)) := by
      decide +kernel
    exact map_eq_error hvalue
  have hnot : ∀ f, ¬ smallSession.BreaksOff "x/0" f := by
    intro f hf
    have hfault := (resolve_fault_iff hleast hp).mpr hf
    rw [hzero] at hfault
    cases hfault
  exact ⟨hleast, hp, hbreaks, (resolve_reported hleast hp "pi/x").2.1 _ hbreaks,
    (resolve_reported (by decide) (by decide) "x/3").2.1 _ largeSession_breaksOff, hnot,
    (resolve_reported hleast hp "x/0").1 hnot⟩

theorem smallPower_not_reported :
    resolve "pi/0.1^400" = .error (.evaluation (.fault .zeroDivisor)) ∧
      ¬ Reported "pi/0.1^400" ((⟨defaultPrecision, []⟩ : Session).resolve "pi/0.1^400") := by
  have hresolve : resolve "pi/0.1^400" = .error (.evaluation (.fault .zeroDivisor)) := by
    decide +kernel
  refine ⟨hresolve, ?_⟩
  unfold resolve at hresolve
  rw [map_eq_error hresolve]
  exact not_false

end Reckoner
