import Reckoner.Proofs.OneShot
import Reckoner.Proofs.Resolution

namespace Reckoner

/-- A piece of work: what it tells, and its result. -/
structure Account (α : Type) where
  told : List String
  result : Except ResolveError α

/-- Work that fails ends with what it has told so far. -/
instance : Monad Account where
  pure a := ⟨[], .ok a⟩
  bind x next :=
    match x.result with
    | .error e => ⟨x.told, .error e⟩
    | .ok a => ⟨x.told ++ (next a).told, (next a).result⟩

def Account.tell (text : String) : Account Unit :=
  ⟨[text], .ok ()⟩

def Settings.readTokens (settings : Settings) (line : String) : Account (List Token) :=
  match tokenize line with
  | .error e => ⟨[], .error (.lexical e)⟩
  | .ok tokens => ⟨settings.logTokens line tokens, .ok tokens⟩

def Settings.readExpression (settings : Settings) (line : String) : Account Expression := do
  let tokens ← settings.readTokens line
  match Expression.ofTokens line tokens with
  | .error e => ⟨[], .error (.grammatical e)⟩
  | .ok e => ⟨settings.logProgram line e.program, .ok e⟩

def Settings.findValue (settings : Settings) (s : Session) (line : String) (e : Expression) :
    Account Number :=
  match s.evaluate e with
  | .error e => ⟨[], .error e⟩
  | .ok x => ⟨settings.logValue line x, .ok x⟩

def Settings.storeValue (settings : Settings) (s : Session) (e : Expression) (x : Number) :
    Account Session :=
  match s.assign e x with
  | .error e => ⟨[], .error e⟩
  | .ok s => ⟨(e.target.map fun target => settings.logVariable target.value x).getD [], .ok s⟩

def Settings.whenDebugging (settings : Settings) (work : Account Unit) : Account Unit :=
  if settings.debug then work else pure ()

/-- A line of the shell, step by step. -/
def Settings.work (settings : Settings) (s : Session) (line : String) :
    Account (Session × String) := do
  settings.whenDebugging do
    let tokens ← settings.readTokens line
    .tell (dumpTokens tokens)
  let e ← settings.readExpression line
  settings.whenDebugging (.tell (dumpProgram e.program))
  let x ← settings.findValue s line e
  let s ← settings.storeValue s e x
  return (s, match e.target with
    | none => x.toText
    | some target => target.value ++ " = " ++ x.toText)

/-- What the shell makes of the work on a line. -/
def Shell.conclude (shell : Shell) (work : Account (Session × String)) : Shell × Verdict :=
  match work.result with
  | .ok (s, text) =>
    ({ shell.tell work.told with session := s }.write (text ++ "\n"), .answered)
  | .error e =>
    match e.message? with
    | some message => ((shell.tell work.told).tell ["Error: " ++ message ++ "\n"], .refused)
    | none => (shell.tell work.told, .broken e)

@[simp] theorem account_bind_ok {α β : Type} (told : List String) (a : α) (next : α → Account β) :
    (⟨told, .ok a⟩ : Account α) >>= next = ⟨told ++ (next a).told, (next a).result⟩ :=
  rfl

@[simp] theorem account_bind_error {α β : Type} (told : List String) (e : ResolveError)
    (next : α → Account β) : (⟨told, .error e⟩ : Account α) >>= next = ⟨told, .error e⟩ :=
  rfl

/-- What the log tells about an evaluation is told by the evaluation and by the assignment. -/
theorem traceValue_eq (settings : Settings) (s : Session) (line : String) (e : Expression) :
    settings.traceValue s line e =
      match s.evaluate e with
      | .error _ => []
      | .ok x =>
        settings.logValue line x ++
          (e.target.map fun target => settings.logVariable target.value x).getD [] := by
  unfold Settings.traceValue
  split
  · rfl
  next hlevel =>
    have hlogs : ∀ part text, settings.logs part text = [] := fun _ _ => if_neg hlevel
    cases s.evaluate e with
    | error _ => rfl
    | ok x => cases e.target <;> simp [Settings.logValue, Settings.logVariable, hlogs]

section
variable (settings : Settings) {s : Session} {line : String} {tokens : List Token} {e : Expression}

@[simp] theorem whenDebugging_eq (told : List String) :
    settings.whenDebugging ⟨told, .ok ()⟩ = ⟨if settings.debug then told else [], .ok ()⟩ := by
  unfold Settings.whenDebugging
  split <;> rfl

theorem readExpression_ok (htokens : tokenize line = .ok tokens)
    (h : Expression.ofTokens line tokens = .ok e) :
    settings.readExpression line =
      ⟨settings.logTokens line tokens ++ settings.logProgram line e.program, .ok e⟩ := by
  simp [Settings.readExpression, Settings.readTokens, htokens, h]

theorem readExpression_error (htokens : tokenize line = .ok tokens) {error : ConversionError}
    (h : Expression.ofTokens line tokens = .error error) :
    settings.readExpression line =
      ⟨settings.logTokens line tokens, .error (.grammatical error)⟩ := by
  simp [Settings.readExpression, Settings.readTokens, htokens, h]

/-- The last steps of a line, whose expression is accepted. -/
theorem evaluation_eq (hassign : ∀ x, ∃ s', s.assign e x = .ok s') (text : Number → String) :
    (do
      let x ← settings.findValue s line e
      let s ← settings.storeValue s e x
      return (s, text x) : Account (Session × String)) =
      ⟨settings.traceValue s line e, (s.run e).map fun (s, x) => (s, text x)⟩ := by
  rw [traceValue_eq]
  unfold Settings.findValue Settings.storeValue Session.run
  cases s.evaluate e with
  | error error => rfl
  | ok x =>
    obtain ⟨s', hs⟩ := hassign x
    simp only [hs, account_bind_ok]
    exact congrArg (Account.mk · _) (congrArg (_ ++ ·) (List.append_nil _))

/-- The steps of a line tell what the shell tells about the line, and have its answer as result. -/
@[simp] theorem work_eq (s : Session) (line : String) :
    settings.work s line = ⟨settings.trace s line, s.answer line⟩ := by
  unfold Settings.work
  cases htokens : tokenize line with
  | error e =>
    -- With debugging it is the first reading that fails, without it the only one.
    have hread : settings.readTokens line = ⟨[], .error (.lexical e)⟩ := by
      rw [Settings.readTokens, htokens]
    have hanswer : s.answer line = .error (.lexical e) := by
      rw [Session.answer, Expression.parse, htokens]
      rfl
    rw [Settings.whenDebugging, Settings.readExpression, hread, hanswer, Settings.trace, htokens]
    cases settings.debug <;> rfl
  | ok tokens =>
    have hread : settings.readTokens line = ⟨settings.logTokens line tokens, .ok tokens⟩ := by
      rw [Settings.readTokens, htokens]
    rw [hread, account_bind_ok, Account.tell, whenDebugging_eq, account_bind_ok, Settings.trace,
      htokens, Session.answer, Expression.parse, htokens]
    cases hconvert : Expression.ofTokens line tokens with
    | error e =>
      rw [readExpression_error settings htokens hconvert, account_bind_error]
      simp only [hconvert]
      rfl
    | ok e =>
      have hparse : Expression.parse line = .ok e := by
        simp only [Expression.parse, htokens, hconvert]
      rw [readExpression_ok settings htokens hconvert, account_bind_ok, Account.tell,
        whenDebugging_eq, account_bind_ok, evaluation_eq settings (assign_accepted hparse s)]
      simp only [hconvert]
      exact congrArg₂ Account.mk (by simp only [List.append_assoc]) rfl

end

/-- The shell does the steps of a line. -/
theorem line_eq_conclude (settings : Settings) (shell : Shell) (line : String) :
    shell.line settings line = shell.conclude (settings.work shell.session line) := by
  rw [work_eq]
  unfold Shell.line Shell.conclude
  cases shell.session.answer line with
  | ok r => rfl
  | error e => cases hmessage : e.message? <;> simp only [hmessage]

/-- Settings that let a run tell something else, and are otherwise the same. -/
def Settings.telling (settings : Settings) (debug : Bool) (logLevel : LogLevel) : Settings :=
  { settings with debug, logLevel }

/-- Shells that have done the same, whatever they have told, and have the same verdict or ending. -/
def SameWork {β : Type} (x y : Shell × β) : Prop :=
  x.1.session = y.1.session ∧ x.1.output = y.1.output ∧ x.2 = y.2

section
variable (settings : Settings) (debug : Bool) (logLevel : LogLevel) {a b : Shell}

theorem conclude_sameWork (h : a.Matches b) {work other : Account (Session × String)}
    (hresult : work.result = other.result) : SameWork (a.conclude work) (b.conclude other) := by
  unfold Shell.conclude
  rw [hresult]
  cases other.result with
  | ok r => exact ⟨rfl, congrArg (· ++ _) h.output, rfl⟩
  | error e =>
    simp only
    cases e.message? with
    | some message => exact ⟨h.session, h.output, rfl⟩
    | none => exact ⟨h.session, h.output, rfl⟩

theorem line_telling (h : a.Matches b) (line : String) :
    SameWork (a.line (settings.telling debug logLevel) line) (b.line settings line) := by
  rw [line_eq_conclude, line_eq_conclude]
  apply conclude_sameWork h
  rw [work_eq, work_eq, h.session]

theorem batch_telling (h : a.Matches b) (lines : List String) :
    SameWork (a.batch (settings.telling debug logLevel) lines) (b.batch settings lines) := by
  induction lines generalizing a b with
  | nil => exact ⟨h.session, h.output, rfl⟩
  | cons line rest ih =>
    obtain ⟨hsession, houtput, hverdict⟩ := line_telling settings debug logLevel h line
    rw [Shell.batch, Shell.batch]
    cases hleft : a.line (settings.telling debug logLevel) line with
    | mk next verdict =>
      cases hright : b.line settings line with
      | mk next' verdict' =>
        rw [hleft, hright] at hsession houtput hverdict
        obtain rfl : verdict = verdict' := hverdict
        cases verdict with
        | answered => exact ih ⟨hsession, houtput⟩
        | refused => exact ⟨hsession, houtput, rfl⟩
        | broken e => exact ⟨hsession, houtput, rfl⟩

theorem feed_telling (h : a.Matches b) (raw : String) :
    SameWork (a.feed (settings.telling debug logLevel) raw) (b.feed settings raw) := by
  unfold Shell.feed
  simp only
  split
  · exact ⟨h.session, h.output, rfl⟩
  split
  · exact ⟨h.session, h.output, rfl⟩
  · obtain ⟨hsession, houtput, hverdict⟩ := line_telling settings debug logLevel h (trim raw)
    cases hleft : a.line (settings.telling debug logLevel) (trim raw) with
    | mk next verdict =>
      cases hright : b.line settings (trim raw) with
      | mk next' verdict' =>
        rw [hleft, hright] at hsession houtput hverdict
        obtain rfl : verdict = verdict' := hverdict
        cases verdict <;> exact ⟨hsession, houtput, rfl⟩

theorem ask_telling (h : a.Matches b) (atTerminal : Bool) :
    (a.ask (settings.telling debug logLevel) atTerminal).Matches (b.ask settings atTerminal) := by
  cases atTerminal with
  | false => exact h
  | true => exact ⟨h.session, congrArg (· ++ _) h.output⟩

theorem interact_telling (h : a.Matches b) (atTerminal : Bool) (lines : List String) :
    SameWork (a.interact (settings.telling debug logLevel) atTerminal lines)
      (b.interact settings atTerminal lines) := by
  induction lines generalizing a b with
  | nil =>
    have hask := ask_telling settings debug logLevel h atTerminal
    cases atTerminal <;> exact ⟨hask.session, hask.output, rfl⟩
  | cons raw rest ih =>
    have hask := ask_telling settings debug logLevel h atTerminal
    obtain ⟨hsession, houtput, hending⟩ := feed_telling settings debug logLevel hask raw
    rw [Shell.interact, Shell.interact]
    cases hleft : (a.ask (settings.telling debug logLevel) atTerminal).feed
        (settings.telling debug logLevel) raw with
    | mk next ending =>
      cases hright : (b.ask settings atTerminal).feed settings raw with
      | mk next' ending' =>
        rw [hleft, hright] at hsession houtput hending
        obtain rfl : ending = ending' := hending
        cases ending with
        | some ending => exact ⟨hsession, houtput, rfl⟩
        | none => exact ih ⟨hsession, houtput⟩

theorem greet_telling (h : a.Matches b) :
    (a.greet (settings.telling debug logLevel)).Matches (b.greet settings) := by
  have hleft := greet_matches (settings.telling debug logLevel) a
  have hright := greet_matches settings b
  exact ⟨hleft.session.symm.trans (h.session.trans hright.session),
    hleft.output.symm.trans (h.output.trans hright.output)⟩

end

/-- Runs that write the same to the output and end alike. -/
def Run.Equals (a b : Run) : Prop :=
  a.output = b.output ∧ a.ending = b.ending

theorem unprepared_equals (told told' : List String) (e : SetupError) :
    (Run.unprepared told e).Equals (.unprepared told' e) := by
  unfold Run.unprepared
  cases e.message? <;> exact ⟨rfl, rfl⟩

theorem ofShell_equals {x y : Shell × Ending} (h : SameWork x y) :
    (Run.ofShell x).Equals (.ofShell y) :=
  ⟨h.2.1, h.2.2⟩

theorem run_telling (settings : Settings) (debug : Bool) (logLevel : LogLevel) (atTerminal : Bool)
    (input : String) :
    ((settings.telling debug logLevel).run atTerminal input).Equals
      (settings.run atTerminal input) := by
  have hsession : (settings.telling debug logLevel).session = settings.session := rfl
  have hexpressions : (settings.telling debug logLevel).expressions = settings.expressions := rfl
  unfold Settings.run Settings.shell
  rw [hsession, hexpressions]
  cases settings.session with
  | error e => exact unprepared_equals _ _ e
  | ok s =>
    have hstart : ∀ told told' : List String, (⟨s, [], told⟩ : Shell).Matches ⟨s, [], told'⟩ :=
      fun _ _ => ⟨rfl, rfl⟩
    simp only
    split
    · exact ofShell_equals (interact_telling settings debug logLevel
        (greet_telling settings debug logLevel (hstart _ _)) atTerminal _)
    · exact ofShell_equals (batch_telling settings debug logLevel (hstart _ _) _)

/-- A command line that asks to be told something else, and is otherwise the same. -/
def Request.telling (r : Request) (debug : Bool) (logLevel : Option LogLevel) : Request :=
  { r with debug, logLevel }

theorem settings_telling (r : Request) (debug : Bool) (logLevel : Option LogLevel)
    (items : Table Item) :
    (r.telling debug logLevel).settings items =
      (r.settings items).map (·.telling debug (r.telling debug logLevel).chosenLogLevel) := by
  have hprecision : (r.telling debug logLevel).chosenPrecision items = r.chosenPrecision items :=
    rfl
  have hdefinitions : (r.telling debug logLevel).definitions = r.definitions := rfl
  unfold Request.settings
  rw [hprecision, hdefinitions]
  by_cases hp : r.chosenPrecision items < 1
  · simp only [if_pos hp]
    rfl
  · simp only [if_neg hp]
    cases addDefinitions _ r.definitions <;> rfl

theorem request_telling (r : Request) (debug : Bool) (logLevel : Option LogLevel)
    (configuration : Option String) (atTerminal : Bool) (input : String) :
    ((r.telling debug logLevel).run configuration atTerminal input).Equals
      (r.run configuration atTerminal input) := by
  unfold Request.run Settings.read
  cases readConfiguration (configuration.getD "") with
  | error e => exact unprepared_equals _ _ _
  | ok items =>
    simp only [settings_telling r debug logLevel]
    cases r.settings items with
    | error e => exact unprepared_equals _ _ _
    | ok settings => exact run_telling settings _ _ atTerminal input

/-- The shell does the steps of every line, and what they tell has no influence on their result.
With and without debugging, at every log level, expressions given in advance and lines of an input
are answered in the same sessions: after any number of lines the output, the session and the ending
are the same. So are the output and the ending of whole runs, and of command lines that differ in
these options only. -/
theorem telling_unobserved (settings : Settings) (debug : Bool) (logLevel : LogLevel) :
    (∀ (shell : Shell) line,
      shell.line settings line = shell.conclude (settings.work shell.session line)) ∧
    (∀ s line,
      ((settings.telling debug logLevel).work s line).result = (settings.work s line).result) ∧
    (∀ s output errors errors' lines,
      SameWork ((⟨s, output, errors⟩ : Shell).batch (settings.telling debug logLevel) lines)
        ((⟨s, output, errors'⟩ : Shell).batch settings lines)) ∧
    (∀ s output errors errors' atTerminal lines,
      SameWork
        (((⟨s, output, errors⟩ : Shell).greet (settings.telling debug logLevel)).interact
          (settings.telling debug logLevel) atTerminal lines)
        (((⟨s, output, errors'⟩ : Shell).greet settings).interact settings atTerminal lines)) ∧
    (∀ atTerminal input, ((settings.telling debug logLevel).run atTerminal input).Equals
      (settings.run atTerminal input)) ∧
    ∀ (r : Request) level configuration atTerminal input,
      ((r.telling debug level).run configuration atTerminal input).Equals
        (r.run configuration atTerminal input) := by
  have hstart : ∀ (s : Session) (output errors errors' : List String),
      (⟨s, output, errors⟩ : Shell).Matches ⟨s, output, errors'⟩ := fun _ _ _ _ => ⟨rfl, rfl⟩
  refine ⟨line_eq_conclude settings, fun s line => ?_, fun s output errors errors' lines => ?_,
    fun s output errors errors' atTerminal lines => ?_, run_telling settings debug logLevel,
    fun r level => request_telling r debug level⟩
  · rw [work_eq, work_eq]
  · exact batch_telling settings debug logLevel (hstart s output errors errors') lines
  · exact interact_telling settings debug logLevel
      (greet_telling settings debug logLevel (hstart s output errors errors')) atTerminal lines

end Reckoner
