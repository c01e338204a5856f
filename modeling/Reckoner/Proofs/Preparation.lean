import Reckoner.Proofs.Configured
import Reckoner.Proofs.History
import Reckoner.Proofs.OneShot
import Reckoner.Proofs.Printing

namespace Reckoner

/-- Why a variable is refused, if it is; the session makes no difference. -/
def refusal? (name : String) (value : Datum) : Option SessionError :=
  if isName name then
    match Number.ofDatum value with
    | .ok _ => none
    | .error e => some (.invalidValue e)
  else some (.invalidName name)

section
variable {name : String} {value : Datum} {e : SessionError}

theorem set_accepted (s : Session) (h : refusal? name value = none) :
    ∃ r, s.set name value = .ok r := by
  unfold refusal? at h
  split at h
  next hname =>
    split at h
    next x hx =>
      exact ⟨_, set_coerced hname hx s⟩
    · cases h
  · cases h

theorem set_refused (s : Session) (h : refusal? name value = some e) :
    s.set name value = .error e := by
  unfold refusal? at h
  split at h
  next hname =>
    split at h
    · cases h
    next hx =>
      cases h
      rw [Session.set, if_pos hname, hx]
  next hname =>
    cases h
    exact set_misnamed hname s value

end

/-- Variables of which the first one that is refused has the given name and value. -/
def FirstRefused (bindings : Table Datum) (name : String) (value : Datum) (e : SessionError) :
    Prop :=
  ∃ before after, bindings = before ++ (name, value) :: after ∧
    (∀ entry ∈ before, refusal? entry.1 entry.2 = none) ∧ refusal? name value = some e

section
variable {bindings : Table Datum} {name : String} {value : Datum} {e : SessionError}

theorem define_accepted (s : Session) (h : ∀ entry ∈ bindings, refusal? entry.1 entry.2 = none) :
    ∃ last, s.define bindings = .ok last := by
  induction bindings generalizing s with
  | nil => exact ⟨s, rfl⟩
  | cons entry bindings ih =>
    obtain ⟨hentry, hrest⟩ := List.forall_mem_cons.mp h
    obtain ⟨⟨next, x⟩, hset⟩ := set_accepted s hentry
    obtain ⟨last, hlast⟩ := ih next hrest
    exact ⟨last, by simp only [Session.define, hset, hlast]⟩

/-- Variables are set one after the other, up to the first one that is refused. -/
theorem define_refused (s : Session) (h : FirstRefused bindings name value e) :
    s.define bindings = .error (.variable name e) := by
  obtain ⟨before, after, rfl, hbefore, hrefused⟩ := h
  induction before generalizing s with
  | nil => simp only [List.nil_append, Session.define, set_refused s hrefused]
  | cons entry before ih =>
    obtain ⟨hentry, hrest⟩ := List.forall_mem_cons.mp hbefore
    obtain ⟨⟨next, x⟩, hset⟩ := set_accepted s hentry
    simp only [List.cons_append, Session.define, hset, ih next hrest]

theorem accepted_or_first (bindings : Table Datum) :
    (∀ entry ∈ bindings, refusal? entry.1 entry.2 = none) ∨
      ∃ name value e, FirstRefused bindings name value e := by
  induction bindings with
  | nil => exact .inl (by simp)
  | cons entry bindings ih =>
    cases hrefusal : refusal? entry.1 entry.2 with
    | some e => exact .inr ⟨_, _, e, [], bindings, rfl, by simp, hrefusal⟩
    | none =>
      obtain hall | ⟨name, value, e, before, after, rfl, hbefore, hrefused⟩ := ih
      · exact .inl (List.forall_mem_cons.mpr ⟨hrefusal, hall⟩)
      · exact .inr ⟨name, value, e, entry :: before, after, rfl,
          List.forall_mem_cons.mpr ⟨hrefusal, hbefore⟩, hrefused⟩

theorem FirstRefused.mem (h : FirstRefused bindings name value e) : (name, value) ∈ bindings := by
  obtain ⟨before, after, rfl, _⟩ := h
  simp

end

def OneLine (s : String) : Prop :=
  '\n' ∉ s.toList

instance (s : String) : Decidable (OneLine s) :=
  inferInstanceAs (Decidable ('\n' ∉ s.toList))

theorem OneLine.append {s t : String} (hs : OneLine s) (ht : OneLine t) : OneLine (s ++ t) := by
  unfold OneLine at *
  simp [hs, ht]

@[simp] theorem hexDigit_ne_feed (n : ℕ) : hexDigit n ≠ '\n' := by
  have hdigits : ∀ m < 16, (Nat.toDigits 16 m).headD '0' ≠ '\n' := by decide
  exact hdigits _ (Nat.mod_lt _ (by decide))

@[simp] theorem feed_not_mem_hexDigits (width n : ℕ) : '\n' ∉ hexDigits width n := by
  induction width generalizing n with
  | zero => simp [hexDigits]
  | succ width ih =>
    simp only [hexDigits, List.mem_append, List.mem_singleton, not_or]
    exact ⟨ih _, (hexDigit_ne_feed n).symm⟩

@[simp] theorem feed_not_mem_escapeChar {quote : Char} (hquote : quote ≠ '\n') (c : Char) :
    '\n' ∉ escapeChar quote c := by
  unfold escapeChar
  split
  next hc =>
    have hne : c ≠ '\n' := by
      rintro rfl
      obtain rfl | hc := hc
      · exact hquote rfl
      · exact absurd hc (by decide)
    simp [hne.symm]
  split
  · simp
  split
  · simp
  next hfeed =>
    split
    · simp
    split
    · simpa using Ne.symm hfeed
    split
    · simp
    split
    · simp
    · simp

theorem oneLine_quoted (s : String) : OneLine (quoted s) := by
  unfold OneLine quoted quoteChars
  rw [String.toList_ofList]
  generalize hquote :
    (if s.toList.contains '\'' && !s.toList.contains '"' then '"' else '\'') = quote
  have hne : quote ≠ '\n' := by
    rw [← hquote]
    split <;> decide
  simp [hne, hne.symm]

theorem oneLine_intText (n : ℤ) : OneLine (intText n) := by
  have hdigits : '\n' ∉ natChars n.natAbs := fun h =>
    absurd (isPlainDigit_of_mem_natChars h) (by decide)
  unfold OneLine
  rw [intText, String.toList_ofList, intChars]
  split <;> simp [hdigits]

/-- A float that is infinite or not a number. -/
def Datum.NoNumber (value : Datum) : Prop :=
  ∃ x, value = .double x ∧ ∀ y, x ≠ .finite y

theorem noNumber_refused {name : String} {value : Datum} (hname : isName name = true)
    (h : value.NoNumber) : ∃ e, refusal? name value = some e ∧ e.message? = none := by
  obtain ⟨x, rfl, hx⟩ := h
  cases x with
  | finite y => exact absurd rfl (hx y)
  | infinite negative =>
    refine ⟨.invalidValue (.numeric (.range .floatOverflow)), ?_, rfl⟩
    rw [refusal?, if_pos hname]
    rfl
  | notANumber =>
    refine ⟨.invalidValue (.numeric (.domain .notANumber)), ?_, rfl⟩
    rw [refusal?, if_pos hname]
    rfl

/-- Of what can be given, only such a float is refused without a message. -/
theorem ofDatum_message {value : Datum} {e : DatumError} (hvalue : value.Configured)
    (h : Number.ofDatum value = .error e) :
    (∃ message, e.message? = some message ∧ OneLine message) ∨
      e.message? = none ∧ value.NoNumber := by
  cases hvalue with
  | text s =>
    simp only [Number.ofDatum] at h
    split at h
    · cases h
    · cases h
      exact .inl ⟨_, rfl,
        (by decide : OneLine "malformed number: ").append (oneLine_quoted _)⟩
  | integer n => cases h
  | double x =>
    cases x with
    | finite y => cases h
    | infinite negative =>
      cases h
      exact .inr ⟨rfl, _, rfl, fun _ hy => by cases hy⟩
    | notANumber =>
      cases h
      exact .inr ⟨rfl, _, rfl, fun _ hy => by cases hy⟩
  | boolean b =>
    cases h
    exact .inl ⟨_, rfl, (by decide : OneLine "cannot use a bool as a number")⟩
  | array =>
    cases h
    exact .inl ⟨_, rfl, (by decide : OneLine "cannot convert list to a number")⟩
  | table =>
    cases h
    exact .inl ⟨_, rfl, (by decide : OneLine "cannot convert dict to a number")⟩

theorem refusal_message {name : String} {value : Datum} {e : SessionError}
    (hvalue : value.Configured) (h : refusal? name value = some e) :
    (∃ message, e.message? = some message ∧ OneLine message) ∨
      e.message? = none ∧ isName name = true ∧ value.NoNumber := by
  unfold refusal? at h
  split at h
  next hname =>
    split at h
    · cases h
    next e' he =>
      cases h
      exact (ofDatum_message hvalue he).imp_right fun hsilent => ⟨hsilent.1, hname, hsilent.2⟩
  next hname =>
    cases h
    exact .inl ⟨_, rfl,
      (by decide : OneLine "invalid variable name: ").append (oneLine_quoted name)⟩

def configuredVariables (items : Table Item) : Table Datum :=
  (tableItems "variables" items).map fun (name, item) => (name, item.toDatum)

theorem splitAssignment_subset (cs : List Char) : (splitAssignment cs).1 ⊆ cs := by
  unfold splitAssignment
  rw [List.span_eq_takeWhile_dropWhile]
  split
  next heq =>
    rw [← (Prod.mk.inj heq).1]
    exact (List.takeWhile_prefix _).subset
  next heq =>
    rw [← (Prod.mk.inj heq).1]
    exact (List.takeWhile_prefix _).subset

theorem trimChars_subset (cs : List Char) : trimChars cs ⊆ cs := by
  intro c hc
  have hback := (List.dropWhile_suffix isBlank).subset (List.mem_reverse.mp hc)
  exact (List.dropWhile_suffix isBlank).subset (List.mem_reverse.mp hback)

theorem readDefinition_oneLine {text name value : String}
    (h : readDefinition text = .ok (name, value)) (htext : OneLine text) : OneLine name := by
  unfold readDefinition at h
  have hsubset := splitAssignment_subset text.toList
  split at h
  next head tail heq =>
    cases h
    rw [heq] at hsubset
    unfold OneLine
    rw [String.toList_ofList]
    exact fun hfeed => htext (hsubset (trimChars_subset head hfeed))
  · cases h

/-- All settings but the variables are what the command line or the configuration says. -/
def Request.settingsWith (r : Request) (items : Table Item) (bindings : Table Datum) : Settings :=
  { expressions := r.expressions
    bindings
    precision := (r.chosenPrecision items).toNat
    quiet := r.quiet || isTrue (configured? items "shell" "quiet")
    prompt := r.chosenPrompt items
    debug := r.debug
    logLevel := r.chosenLogLevel }

theorem settings_eq (r : Request) (items : Table Item) :
    r.settings items =
      if r.chosenPrecision items < 1 then .error (.precision (r.chosenPrecision items))
      else (addDefinitions (configuredVariables items) r.definitions).map (r.settingsWith items) :=
  rfl

section
variable {r : Request} {configuration : Option String}

theorem read_ok {settings : Settings} (h : Settings.read r configuration = .ok settings) :
    settings.logLevel = r.chosenLogLevel ∧
      ∃ items, readConfiguration (configuration.getD "") = .ok items ∧
        addDefinitions (configuredVariables items) r.definitions = .ok settings.bindings := by
  unfold Settings.read at h
  split at h
  · cases h
  next items hitems =>
    rw [settings_eq] at h
    split at h
    · cases h
    · obtain ⟨bindings, hbindings, rfl⟩ := map_eq_ok h
      exact ⟨rfl, items, hitems, hbindings⟩

theorem read_error {e : SetupError} (h : Settings.read r configuration = .error e) :
    (∃ e', readConfiguration (configuration.getD "") = .error e' ∧ e = .configuration e') ∨
      (∃ p, e = .precision p) ∨ ∃ text ∈ r.definitions, e = .definition text := by
  unfold Settings.read at h
  split at h
  next e' he' =>
    cases h
    exact .inl ⟨e', he', rfl⟩
  next items hitems =>
    rw [settings_eq] at h
    split at h
    · cases h
      exact .inr (.inl ⟨_, rfl⟩)
    · exact .inr (.inr (addDefinitions_error (map_eq_error h)))

theorem read_expressions (r : Request) (configuration : Option String)
    (expressions : List String) :
    Settings.read { r with expressions } configuration =
      (Settings.read r configuration).map fun settings => { settings with expressions } := by
  unfold Settings.read
  cases readConfiguration (configuration.getD "") with
  | error e => rfl
  | ok items =>
    have hprecision : Request.chosenPrecision { r with expressions } items =
        r.chosenPrecision items := rfl
    simp only [settings_eq, hprecision]
    split
    · rfl
    · cases addDefinitions (configuredVariables items) r.definitions <;> rfl

end

/-- Neither a definition nor the name of a configured variable holds a line feed. -/
structure Request.Unbroken (r : Request) (configuration : Option String) : Prop where
  definitions : ∀ text ∈ r.definitions, OneLine text
  names : ∀ items, readConfiguration (configuration.getD "") = .ok items →
    ∀ entry ∈ tableItems "variables" items, OneLine entry.1

section
variable {r : Request} {configuration : Option String}

theorem bindings_configured {settings : Settings}
    (h : Settings.read r configuration = .ok settings) {entry : String × Datum}
    (hentry : entry ∈ settings.bindings) : entry.2.Configured := by
  obtain ⟨-, items, hitems, hbindings⟩ := read_ok h
  obtain hconfigured | ⟨text, -, value, -, hvalue⟩ := addDefinitions_mem hbindings hentry
  · obtain ⟨⟨name, item⟩, hitem, rfl⟩ := List.mem_map.mp hconfigured
    exact (tableItems_plain (readConfiguration_plain hitems) "variables" _ hitem).toDatum
  · rw [hvalue]
    exact .text value

theorem bindings_oneLine {settings : Settings} (h : Settings.read r configuration = .ok settings)
    (hunbroken : r.Unbroken configuration) {entry : String × Datum}
    (hentry : entry ∈ settings.bindings) : OneLine entry.1 := by
  obtain ⟨-, items, hitems, hbindings⟩ := read_ok h
  obtain hconfigured | ⟨text, htext, value, hread, -⟩ := addDefinitions_mem hbindings hentry
  · obtain ⟨⟨name, item⟩, hitem, rfl⟩ := List.mem_map.mp hconfigured
    exact hunbroken.names items hitems _ hitem
  · exact readDefinition_oneLine hread (hunbroken.definitions text htext)

end

/-- A run that ends in the same way whatever expressions and input there are to answer. -/
def Request.EndsAs (r : Request) (configuration : Option String) (run : Run) : Prop :=
  ∀ expressions atTerminal input,
    Request.run { r with expressions } configuration atTerminal input = run

theorem traceVariables_quiet {settings : Settings} (h : settings.logLevel ≠ .debug) (s : Session)
    (bindings : Table Datum) : settings.traceVariables s bindings = [] := by
  induction bindings generalizing s with
  | nil => rfl
  | cons entry bindings ih =>
    obtain ⟨name, value⟩ := entry
    rw [Settings.traceVariables]
    split
    · rw [ih, Settings.logVariable, Settings.logs, if_neg h, List.append_nil]
    · rfl

section
variable {r : Request} {configuration : Option String}

theorem endsAs_of_read {e : SetupError} (h : Settings.read r configuration = .error e) :
    r.EndsAs configuration (.unprepared [] e) := by
  intro expressions atTerminal input
  rw [Request.run, read_expressions, h]
  rfl

theorem endsAs_of_shell {settings : Settings} {run : Run}
    (h : Settings.read r configuration = .ok settings) (hshell : settings.shell = .error run) :
    r.EndsAs configuration run := by
  intro expressions atTerminal input
  rw [Request.run, read_expressions, h]
  simp [Settings.run, hshell]

theorem shell_ok {settings : Settings} {session : Session} (h : settings.session = .ok session) :
    settings.shell =
      .ok ⟨session, [], settings.traceVariables ⟨settings.precision, []⟩ settings.bindings⟩ := by
  simp only [Settings.shell, h]

theorem shell_error {settings : Settings} {e : SetupError} (h : settings.session = .error e) :
    settings.shell = .error (Run.unprepared
      (settings.traceVariables ⟨settings.precision, []⟩ settings.bindings) e) := by
  simp only [Settings.shell, h]

end

/-- A run ends before its first line with a message and the exit code 2: nothing is on the output,
and on the error stream stands, behind what the log tells of the variables, one line with the
message. -/
structure Request.Refused (r : Request) (configuration : Option String) (told : List String)
    (message : String) : Prop where
  ending : r.EndsAs configuration ⟨[], told ++ ["error: " ++ message ++ "\n"], .exit 2⟩
  /-- Nothing is told unless everything is logged. -/
  told : r.chosenLogLevel ≠ .debug → told = []
  line : r.Unbroken configuration → OneLine message

/-- A run breaks off before its first line: an integer of the configuration has too many digits, or
the first variable that is refused is a float that is infinite or not a number. -/
inductive Request.Breaks (r : Request) (configuration : Option String) : Prop
  | integer (h : readConfiguration (configuration.getD "") = .error .integerTooLong)
  | noNumber {settings : Settings} {before after : Table Datum} {name : String} {value : Datum}
      (hread : Settings.read r configuration = .ok settings)
      (hbindings : settings.bindings = before ++ (name, value) :: after)
      (hbefore : ∀ entry ∈ before, refusal? entry.1 entry.2 = none)
      (hname : isName name = true) (hvalue : value.NoNumber)

section
variable {r : Request} {configuration : Option String}

theorem refused_of_read {e : SetupError}
    (hwell : readConfiguration (configuration.getD "") ≠ .error .malformed)
    (hread : Settings.read r configuration = .error e) :
    r.Breaks configuration ∨ ∃ message, r.Refused configuration [] message := by
  have hends := endsAs_of_read hread
  obtain ⟨e', he', rfl⟩ | ⟨p, rfl⟩ | ⟨text, htext, rfl⟩ := read_error hread
  · cases e' with
    | malformed => exact absurd he' hwell
    | integerTooLong => exact .inl (.integer he')
  · refine .inr ⟨precisionMessage p, hends, fun _ => rfl, fun _ => ?_⟩
    exact (by decide : OneLine "precision must be positive, got ").append (oneLine_intText p)
  · refine .inr ⟨_, hends, fun _ => rfl, fun hunbroken => ?_⟩
    exact (by decide : OneLine "invalid define format (expected NAME=VALUE): ").append
      (hunbroken.definitions text htext)

theorem refused_of_variable {settings : Settings} {name : String} {value : Datum}
    {e : SessionError} (hread : Settings.read r configuration = .ok settings)
    (hfirst : FirstRefused settings.bindings name value e) :
    r.Breaks configuration ∨ ∃ told message, r.Refused configuration told message := by
  have hmem := hfirst.mem
  have hends := endsAs_of_shell hread (shell_error (define_refused _ hfirst))
  obtain ⟨before, after, hbindings, hbefore, hrefused⟩ := hfirst
  obtain ⟨message, hm, hmessage⟩ | ⟨-, hname, hvalue⟩ :=
    refusal_message (bindings_configured hread hmem) hrefused
  · simp only [Run.unprepared, SetupError.message?, hm, Option.map_some] at hends
    refine .inr ⟨_, _, hends, fun hlevel => ?_, fun hunbroken => ?_⟩
    · exact traceVariables_quiet (by rw [(read_ok hread).1]; exact hlevel) _ _
    · have hname : OneLine name := bindings_oneLine hread hunbroken hmem
      exact (((by decide : OneLine "invalid value for ").append hname).append
        (by decide : OneLine ": ")).append hmessage
  · exact .inl (.noNumber hread hbindings hbefore hname hvalue)

theorem Request.Breaks.silent (h : r.Breaks configuration) :
    ∃ told e, e.message? = none ∧ r.EndsAs configuration ⟨[], told, .unprepared e⟩ := by
  cases h with
  | integer h =>
    have hread : Settings.read r configuration = .error (.configuration .integerTooLong) := by
      rw [Settings.read, h]
    exact ⟨[], _, rfl, endsAs_of_read hread⟩
  | @noNumber settings before after name value hread hbindings hbefore hname hvalue =>
    obtain ⟨e, hrefused, hm⟩ := noNumber_refused hname hvalue
    have hends := endsAs_of_shell hread
      (shell_error (define_refused _ ⟨before, after, hbindings, hbefore, hrefused⟩))
    have hnone : (SetupError.variable name e).message? = none := by
      rw [SetupError.message?, hm, Option.map_none]
    simp only [Run.unprepared, hnone] at hends
    exact ⟨_, _, hnone, hends⟩

end

/-- Whatever a command line asks for, and whatever a configuration sets that can be read: unless the
run breaks off, it starts in a session with all variables or ends with one message and the exit code
2, and then no expression and no input makes a difference. It breaks off with an error that has no
message. -/
theorem prepared_or_refused (r : Request) (configuration : Option String)
    (hwell : readConfiguration (configuration.getD "") ≠ .error .malformed) :
    (¬ r.Breaks configuration →
      (∃ settings session told, Settings.read r configuration = .ok settings ∧
        settings.session = .ok session ∧ settings.shell = .ok ⟨session, [], told⟩) ∨
      ∃ told message, r.Refused configuration told message) ∧
    (r.Breaks configuration →
      ∃ told e, e.message? = none ∧ r.EndsAs configuration ⟨[], told, .unprepared e⟩) := by
  refine ⟨fun hgoes => ?_, Request.Breaks.silent⟩
  cases hread : Settings.read r configuration with
  | error e =>
    obtain hbreaks | hrefused := refused_of_read hwell hread
    · exact absurd hbreaks hgoes
    · exact .inr ⟨[], hrefused⟩
  | ok settings =>
    obtain hall | ⟨name, value, e, hfirst⟩ := accepted_or_first settings.bindings
    · obtain ⟨session, hsession⟩ := define_accepted ⟨settings.precision, []⟩ hall
      exact .inl ⟨settings, session, _, rfl, hsession, shell_ok hsession⟩
    · obtain hbreaks | hrefused := refused_of_variable hread hfirst
      · exact absurd hbreaks hgoes
      · exact .inr hrefused

/-- A definition whose value is no number, and a variable of the configuration before it. -/
def wordDefinition : Request :=
  { expressions := ["x + y"], definitions := ["x=abc"] }

def twoConfiguration : String :=
  "[variables]\ny = 2\n"

theorem wordDefinition_refused :
    readConfiguration twoConfiguration ≠ .error .malformed ∧
      ¬ wordDefinition.Breaks (some twoConfiguration) ∧
      (∃ told message, wordDefinition.Refused (some twoConfiguration) told message) ∧
      wordDefinition.run (some twoConfiguration) false "" =
        ⟨[], ["error: invalid value for x: malformed number: 'abc'\n"], .exit 2⟩ := by
  have hwell : readConfiguration twoConfiguration ≠ .error .malformed := by
    have hread : (readConfiguration twoConfiguration).isOk = true := by decide +kernel
    intro h
    rw [h] at hread
    cases hread
  have hrun : wordDefinition.run (some twoConfiguration) false "" =
      ⟨[], ["error: invalid value for x: malformed number: 'abc'\n"], .exit 2⟩ := by
    decide +kernel
  have hrefused : ((Settings.read wordDefinition (some twoConfiguration)).bind
      Settings.session).isOk = false := by decide +kernel
  obtain ⟨hgoes, hbreaks⟩ := prepared_or_refused wordDefinition (some twoConfiguration) hwell
  have hnot : ¬ wordDefinition.Breaks (some twoConfiguration) := by
    intro h
    obtain ⟨told, e, -, hends⟩ := hbreaks h
    cases hrun.symm.trans (hends ["x + y"] false "")
  refine ⟨hwell, hnot, ?_, hrun⟩
  obtain ⟨settings, session, told, hread, hsession, -⟩ | hmessage := hgoes hnot
  · rw [hread, except_bind_eq, ok_bind, hsession] at hrefused
    cases hrefused
  · exact hmessage

/-- A float of a configuration that can be read leaves a run without a session and without a
message. -/
theorem configuredNan_unprepared :
    (readConfiguration "[variables]\nx = nan\n").isOk = true ∧
      ((Settings.read { expressions := ["1"] } (some "[variables]\nx = nan\n")).bind
        Settings.session).isOk = false ∧
      Request.run { expressions := ["1"] } (some "[variables]\nx = nan\n") false "" =
        ⟨[], [], .unprepared (.variable "x" (.invalidValue (.numeric (.domain .notANumber))))⟩ ∧
      (SetupError.variable "x"
        (.invalidValue (.numeric (.domain .notANumber)))).message? = none := by
  decide +kernel

end Reckoner
