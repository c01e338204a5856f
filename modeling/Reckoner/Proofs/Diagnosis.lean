import Reckoner.Diagnostics
import Reckoner.Proofs.Lines
import Reckoner.Proofs.OneShot
import Reckoner.Proofs.Resolution

namespace Reckoner

/-- One line of a check: the session after it, and what it finds. -/
def checkLine (s : Session) (number : ℕ) (text : String) :
    Except ResolveError (Session × Option Diagnostic) :=
  if isComment text then .ok (s, none)
  else
    match s.resolve text with
    | .ok (s, _) => .ok (s, none)
    | .error e =>
      match Diagnostic.ofError? number text e with
      | some diagnostic => .ok (s, some diagnostic)
      | none => .error e

def checkedSession (s : Session) (number : ℕ) : List String → Session
  | [] => s
  | text :: rest =>
    match checkLine s number text with
    | .ok (s, _) => checkedSession s (number + 1) rest
    | .error _ => s

/-- What the shell writes for the error of a diagnostic. -/
def Diagnostic.shown (d : Diagnostic) : String :=
  "Error: " ++ d.message ++ "\n"

@[simp] theorem ofError?_message (number : ℕ) (text : String) (e : ResolveError) :
    (Diagnostic.ofError? number text e).map Diagnostic.message = e.message? := by
  match e with
  | .lexical e => rfl
  | .grammatical (.rejected e) => rfl
  | .grammatical (.fault f) => rfl
  | .evaluation (.failed e) => rfl
  | .evaluation (.program e) => rfl
  | .evaluation (.malformed text) => rfl
  | .evaluation (.fault f) => rfl
  | .session e => rfl

theorem ofError?_line {number : ℕ} {text : String} {e : ResolveError} {d : Diagnostic}
    (h : Diagnostic.ofError? number text e = some d) : d.range.line = number := by
  match e, h with
  | .lexical e, h => cases h; rfl
  | .grammatical (.rejected e), h => cases h; rfl
  | .evaluation (.failed e), h => cases h; rfl
  | .evaluation (.program e), h => cases h; rfl

section
variable {s s' : Session} {number : ℕ} {text : String} {lines rest : List String}

theorem checkLine_found {d : Diagnostic} (h : checkLine s number text = .ok (s', some d)) :
    ∃ e, s.resolve text = .error e ∧ Diagnostic.ofError? number text e = some d := by
  unfold checkLine at h
  split at h
  · cases h
  · split at h
    · cases h
    next e he =>
      split at h
      next hd =>
        cases h
        exact ⟨e, he, hd⟩
      next => cases h

theorem checkLine_line {d : Diagnostic} (h : checkLine s number text = .ok (s', some d)) :
    d.range.line = number := by
  obtain ⟨_, _, hfound⟩ := checkLine_found h
  exact ofError?_line hfound

@[simp]
theorem map_nil_append (x : Except ResolveError (List Diagnostic)) : x.map ([] ++ ·) = x := by
  cases x <;> rfl

theorem checkLines_cons (s : Session) (number : ℕ) (text : String) (rest : List String) :
    checkLines s number (text :: rest) =
      match checkLine s number text with
      | .ok (s, found) => (checkLines s (number + 1) rest).map (found.toList ++ ·)
      | .error e => .error e := by
  rw [checkLines, checkLine]
  split
  · exact (map_nil_append _).symm
  · cases s.resolve text with
    | ok r => exact (map_nil_append _).symm
    | error e =>
      simp only
      cases Diagnostic.ofError? number text e <;> rfl

theorem checkLines_append (s : Session) (number : ℕ) (lines rest : List String) :
    checkLines s number (lines ++ rest) =
      (checkLines s number lines).bind fun found =>
        (checkLines (checkedSession s number lines) (number + lines.length) rest).map
          (found ++ ·) := by
  induction lines generalizing s number with
  | nil => exact (map_nil_append _).symm
  | cons text lines ih =>
    rw [List.cons_append, checkLines_cons, checkLines_cons, checkedSession]
    cases checkLine s number text with
    | error e => rfl
    | ok r =>
      obtain ⟨next, first⟩ := r
      simp only [ih, List.length_cons]
      have hcount : number + 1 + lines.length = number + (lines.length + 1) := by omega
      rw [hcount]
      cases checkLines next (number + 1) lines with
      | error e => rfl
      | ok found =>
        cases checkLines (checkedSession next (number + 1) lines) (number + (lines.length + 1)) rest
        · rfl
        · simp

/-- A check finds at most one error in each of its lines, in their order. -/
theorem checkLines_lines {found : List Diagnostic} (h : checkLines s number lines = .ok found) :
    ∀ d ∈ found, number ≤ d.range.line ∧ d.range.line < number + lines.length := by
  induction lines generalizing s number found with
  | nil =>
    cases h
    simp
  | cons text lines ih =>
    rw [checkLines_cons] at h
    cases hline : checkLine s number text with
    | error e => simp [hline] at h
    | ok r =>
      obtain ⟨next, first⟩ := r
      cases hrest : checkLines next (number + 1) lines with
      | error e => simp [hline, hrest] at h
      | ok others =>
        simp only [hline, hrest, map_ok] at h
        cases h
        intro d hd
        rw [List.length_cons]
        rcases List.mem_append.mp hd with hd | hd
        · obtain rfl : first = some d := by simpa using hd
          have := checkLine_line hline
          omega
        · have := ih hrest d hd
          omega

end

/-- Where only line feeds break lines, a document and an input have the same lines. -/
theorem streamLinesFrom_eq {cs line : List Char} (hcs : ∀ c ∈ cs, isLineBreak c = true → c = '\n')
    (hline : ∀ c ∈ line, isLineBreak c = false) :
    (linesFrom line cs).map dropBreak = streamLinesFrom line cs := by
  induction cs generalizing line with
  | nil =>
    rw [linesFrom, streamLinesFrom]
    split
    · rfl
    · rw [List.map_singleton, dropBreak_unbroken hline]
  | cons c cs ih =>
    have hrest : ∀ d ∈ cs, isLineBreak d = true → d = '\n' :=
      fun d hd => hcs d (List.mem_cons_of_mem _ hd)
    have hreturn : c ≠ '\r' := by
      rintro rfl
      have := hcs '\r' (by simp) rfl
      cases this
    rw [linesFrom_cons (fun h => absurd h hreturn), streamLinesFrom_cons hreturn]
    cases hbreak : isLineBreak c with
    | true =>
      obtain rfl := hcs c (by simp) hbreak
      rw [if_pos rfl, if_pos (.inl rfl), List.map_cons, dropBreak_break rfl hline,
        ih hrest (by simp)]
    | false =>
      have hfeed : c ≠ '\n' := by
        rintro rfl
        cases hbreak
      rw [if_neg (by simp), if_neg (by simp [hfeed, hreturn])]
      refine ih hrest fun d hd => ?_
      rcases List.mem_cons.mp hd with rfl | hd
      · exact hbreak
      · exact hline d hd

theorem streamLines_eq {source : String}
    (h : ∀ c ∈ source.toList, isLineBreak c = true → c = '\n') :
    streamLines source = splitLines source := by
  rw [streamLines, splitLines, linesWithBreaks, ← streamLinesFrom_eq h (by simp), List.map_map]
  rfl

/-- Settings under which a line is answered as it is by default. -/
structure Settings.Plain (settings : Settings) : Prop where
  expressions : settings.expressions = []
  bindings : settings.bindings = []
  precision : settings.precision = defaultPrecision
  debug : settings.debug = false
  logLevel : settings.logLevel ≠ .debug

def Ordinary (text : String) : Prop :=
  (trim text).toList.head? ≠ some '#' ∧ isExitCommand (trim text) = false

def startSession : Session :=
  ⟨defaultPrecision, []⟩

def startShell : Shell :=
  ⟨startSession, [], []⟩

section
variable {settings : Settings}

theorem Settings.Plain.logs (h : settings.Plain) (part text : String) :
    settings.logs part text = [] := by
  rw [Settings.logs, if_neg h.logLevel]

theorem Settings.Plain.trace (h : settings.Plain) (s : Session) (line : String) :
    settings.trace s line = [] := by
  unfold Settings.trace
  cases tokenize line with
  | error e => rfl
  | ok tokens =>
    simp only [h.debug, Bool.false_eq_true, if_false, Settings.logTokens, h.logs, List.append_nil]
    cases Expression.ofTokens line tokens with
    | error e => rfl
    | ok e => simp [Settings.logProgram, h.logs, Settings.traceValue, h.logLevel]

theorem Settings.Plain.shell (h : settings.Plain) :
    settings.shell = .ok startShell := by
  simp only [Settings.shell, Settings.session, h.bindings, Session.define, h.precision]
  rfl

theorem answer_of_resolve (s : Session) (text : String) :
    (∃ s' x answer, s.resolve text = .ok (s', x) ∧ s.answer (trim text) = .ok (s', answer)) ∨
      ∃ e e', s.resolve text = .error e ∧ s.answer (trim text) = .error e' ∧
        e'.message? = e.message? ∧ (e'.message? = none → e' = e) := by
  have hmargins := cases_of_forget (resolve_alike (alike_trim text) s)
  cases hanswer : s.answer (trim text) with
  | ok r =>
    obtain ⟨s', answer⟩ := r
    obtain ⟨x, hresolve⟩ := answer_ok hanswer
    obtain ⟨r, htrim, htext⟩ | ⟨_, _, htrim, _⟩ := hmargins
    · obtain rfl : r = (s', x) := Except.ok.inj (htrim.symm.trans hresolve)
      exact .inl ⟨s', x, answer, htext, rfl⟩
    · rw [hresolve] at htrim
      cases htrim
  | error e' =>
    have herror := answer_error hanswer
    obtain ⟨_, htrim, _⟩ | ⟨e₁, e, htrim, htext, hmessage, hnone⟩ := hmargins
    · rw [herror] at htrim
      cases htrim
    · obtain rfl : e₁ = e' := Except.error.inj (htrim.symm.trans herror)
      exact .inr ⟨e, e₁, htext, rfl, hmessage, hnone⟩

/-- The check and the shell take the same step at a line: to the same session, with a diagnostic
exactly for an error that is shown, and to the same end. -/
theorem feed_checkLine (h : settings.Plain) (shell : Shell) {text : String} (htext : Ordinary text)
    (number : ℕ) :
    match checkLine shell.session number text with
    | .ok (s, found) => ∃ next, shell.feed settings text = (next, none) ∧ next.session = s ∧
        next.errors = shell.errors ++ found.toList.map Diagnostic.shown
    | .error e => ∃ next, shell.feed settings text = (next, some (.broken e)) ∧
        next.session = shell.session := by
  obtain ⟨hcomment, hexit⟩ := htext
  have hchars : trimChars text.toList = (trim text).toList := by simp [trim]
  by_cases hblank : trim text = ""
  · have hempty : isComment text = true := by rw [isComment, hchars, hblank]; rfl
    rw [checkLine, if_pos hempty]
    exact ⟨shell, by simp [Shell.feed, hblank], rfl, by simp⟩
  · have hspeaks : ¬ isComment text = true := by
      rw [isComment, hchars]
      cases hall : (trim text).toList with
      | nil => exact absurd (String.toList_eq_nil_iff.mp hall) hblank
      | cons c cs =>
        rw [hall] at hcomment
        simpa using hcomment
    have hfeed := feed_line settings shell hblank hexit
    rw [checkLine, if_neg hspeaks]
    obtain ⟨s', x, answer, hresolve, hanswer⟩ | ⟨e, e', hresolve, hanswer, hmessage, hnone⟩ :=
      answer_of_resolve shell.session text
    · rw [line_answered _ hanswer] at hfeed
      simp only [hresolve]
      exact ⟨_, hfeed, rfl, by simp [Shell.write, Shell.tell, h.trace]⟩
    · have hfound := ofError?_message number text e
      simp only [hresolve]
      cases hdiagnostic : Diagnostic.ofError? number text e with
      | some d =>
        have hshown : e'.message? = some d.message := by
          rw [hmessage, ← hfound, hdiagnostic]
          rfl
        rw [line_refused _ hanswer hshown] at hfeed
        exact ⟨_, hfeed, rfl, by simp [Shell.tell, h.trace, Diagnostic.shown]⟩
      | none =>
        have hmute : e'.message? = none := by
          rw [hmessage, ← hfound, hdiagnostic]
          rfl
        obtain rfl := hnone hmute
        rw [line_breaks _ hanswer hmute] at hfeed
        exact ⟨_, hfeed, rfl⟩

theorem interact_checkLines (h : settings.Plain) (shell : Shell) {lines : List String}
    (hlines : ∀ text ∈ lines, Ordinary text) (number : ℕ) :
    (shell.interact settings false lines).1.session =
        checkedSession shell.session number lines ∧
      match checkLines shell.session number lines with
      | .ok found => (shell.interact settings false lines).2 = .exit 0 ∧
          (shell.interact settings false lines).1.errors =
            shell.errors ++ found.map Diagnostic.shown
      | .error e => (shell.interact settings false lines).2 = .broken e := by
  induction lines generalizing shell number with
  | nil => exact ⟨rfl, rfl, by simp [Shell.interact, Shell.ask, Shell.close]⟩
  | cons text lines ih =>
    have hstep := feed_checkLine h shell (hlines text (by simp)) number
    rw [interact_cons, checkLines_cons, checkedSession]
    cases hline : checkLine shell.session number text with
    | error e =>
      simp only [hline] at hstep
      obtain ⟨next, hfeed, hsession⟩ := hstep
      rw [hfeed]
      exact ⟨hsession, rfl⟩
    | ok r =>
      obtain ⟨s, first⟩ := r
      simp only [hline] at hstep
      obtain ⟨next, hfeed, rfl, herrors⟩ := hstep
      obtain ⟨hsession, hrest⟩ :=
        ih next (fun other hother => hlines other (List.mem_cons_of_mem _ hother)) (number + 1)
      rw [hfeed]
      refine ⟨hsession, ?_⟩
      simp only
      cases hfound : checkLines next.session (number + 1) lines with
      | error e =>
        simp only [hfound] at hrest
        exact hrest
      | ok found =>
        simp only [hfound] at hrest
        refine ⟨hrest.1, ?_⟩
        rw [hrest.2, herrors, List.map_append, List.append_assoc]

end

theorem filter_found {number : ℕ} {first last : List Diagnostic} {here : Option Diagnostic}
    (hfirst : ∀ d ∈ first, d.range.line < number)
    (hhere : ∀ d, here = some d → d.range.line = number)
    (hlast : ∀ d ∈ last, number < d.range.line) :
    ((first ++ (here.toList ++ last)).filter fun d => d.range.line == number) = here.toList := by
  have hbefore : (first.filter fun d => d.range.line == number) = [] := by
    refine List.filter_eq_nil_iff.mpr fun d hd => ?_
    simpa using (hfirst d hd).ne
  have hafter : (last.filter fun d => d.range.line == number) = [] := by
    refine List.filter_eq_nil_iff.mpr fun d hd => ?_
    simpa using (hlast d hd).ne'
  have hkept : (here.toList.filter fun d => d.range.line == number) = here.toList := by
    refine List.filter_eq_self.mpr fun d hd => ?_
    simpa using hhere d (by simpa using hd)
  rw [List.filter_append, List.filter_append, hbefore, hkept, hafter, List.nil_append,
    List.append_nil]

theorem checkLines_split {s : Session} {before after : List String} {text : String}
    {found : List Diagnostic} (h : checkLines s 0 (before ++ text :: after) = .ok found) :
    ∃ first next here, checkLines s 0 before = .ok first ∧
      checkLine (checkedSession s 0 before) before.length text = .ok (next, here) ∧
      (found.filter fun d => d.range.line == before.length) = here.toList := by
  rw [checkLines_append, Nat.zero_add] at h
  obtain ⟨first, hfirst, h⟩ := bind_eq_ok h
  rw [checkLines_cons] at h
  cases hline : checkLine (checkedSession s 0 before) before.length text with
  | error e => simp [hline] at h
  | ok r =>
    obtain ⟨next, here⟩ := r
    cases hlast : checkLines next (before.length + 1) after with
    | error e => simp [hline, hlast] at h
    | ok last =>
      simp only [hline, hlast, map_ok] at h
      cases h
      have hbefore : ∀ d ∈ first, d.range.line < before.length := by
        simpa using checkLines_lines hfirst
      have hhere : ∀ d, here = some d → d.range.line = before.length := by
        rintro d rfl
        exact checkLine_line hline
      have hafter : ∀ d ∈ last, before.length < d.range.line :=
        fun d hd => (checkLines_lines hlast d hd).1
      exact ⟨first, next, here, hfirst, rfl, filter_found hbefore hhere hafter⟩

/-- What a check finds in a line is what it finds more with the line than without it. -/
theorem found_in_line {s : Session} {before after : List String} {text : String}
    {found : List Diagnostic} (h : checkLines s 0 (before ++ text :: after) = .ok found) :
    ∃ first, checkLines s 0 before = .ok first ∧
      (found.filter fun d => d.range.line == before.length).length ≤ 1 ∧
      checkLines s 0 (before ++ [text]) =
        .ok (first ++ found.filter fun d => d.range.line == before.length) := by
  obtain ⟨first, next, here, hfirst, hline, hfound⟩ := checkLines_split h
  rw [hfound]
  refine ⟨first, hfirst, by cases here <;> simp, ?_⟩
  have hsingle : checkLines (checkedSession s 0 before) before.length [text] =
      .ok here.toList := by
    rw [checkLines_cons, hline]
    simp [checkLines]
  rw [checkLines_append, Nat.zero_add, hfirst]
  simp [hsingle]

/-- The shell of a plain run after it has read lines, and how it ends with them. -/
def heard (settings : Settings) (lines : List String) : Shell × Ending :=
  (startShell.greet settings).interact settings false lines

theorem heard_checkLines {settings : Settings} (h : settings.Plain) {lines : List String}
    (hlines : ∀ text ∈ lines, Ordinary text) :
    (heard settings lines).1.session = checkedSession startSession 0 lines ∧
      match checkLines startSession 0 lines with
      | .ok found => (heard settings lines).2 = .exit 0 ∧
          (heard settings lines).1.errors =
            (startShell.greet settings).errors ++
              found.map Diagnostic.shown
      | .error e => (heard settings lines).2 = .broken e := by
  have hgreeted : (startShell.greet settings).session = startSession :=
    (greet_matches settings _).session.symm
  have hrun := interact_checkLines h (startShell.greet settings) hlines 0
  rwa [hgreeted] at hrun

/-- The check of a document and the shell that reads the document go through its lines together, if
only line feeds break the lines and none of them is a comment or an exit command. After every part
of the lines they stand in the same session, and both have ended with the same error without a
message, or neither has; the diagnostics of each line, of which there is at most one, have the
messages that the shell shows for this line. -/
theorem diagnostics_agree {settings : Settings} (hplain : settings.Plain) {source : String}
    (hbreaks : ∀ c ∈ source.toList, isLineBreak c = true → c = '\n')
    (hlines : ∀ text ∈ splitLines source, Ordinary text) :
    checkDocument source = checkLines startSession 0 (splitLines source) ∧
    settings.run false source = .ofShell (heard settings (splitLines source)) ∧
    (∀ before after, checkLines startSession 0 (before ++ after) =
      (checkLines startSession 0 before).bind fun found =>
        (checkLines (checkedSession startSession 0 before) before.length after).map (found ++ ·)) ∧
    ∀ lines rest, splitLines source = lines ++ rest →
      (heard settings lines).1.session = checkedSession startSession 0 lines ∧
      match checkLines startSession 0 lines with
      | .error e => (heard settings lines).2 = .broken e
      | .ok found => (heard settings lines).2 = .exit 0 ∧
          ∀ before text after, lines = before ++ text :: after →
            (found.filter fun d => d.range.line == before.length).length ≤ 1 ∧
            (heard settings (before ++ [text])).1.errors = (heard settings before).1.errors ++
              (found.filter fun d => d.range.line == before.length).map Diagnostic.shown := by
  refine ⟨rfl, ?_, fun before after => ?_, fun lines rest hsplit => ?_⟩
  · simp only [Settings.run, hplain.shell, hplain.expressions, List.isEmpty_nil, if_true,
      streamLines_eq hbreaks]
    rfl
  · rw [checkLines_append, Nat.zero_add]
  · have hplains : ∀ text ∈ lines, Ordinary text := fun text ht =>
      hlines text (by rw [hsplit]; exact List.mem_append_left _ ht)
    obtain ⟨hsession, hend⟩ := heard_checkLines hplain hplains
    refine ⟨hsession, ?_⟩
    cases hfound : checkLines startSession 0 lines with
    | error e =>
      simp only [hfound] at hend
      exact hend
    | ok found =>
      simp only [hfound] at hend
      refine ⟨hend.1, fun before text after heq => ?_⟩
      subst heq
      obtain ⟨first, hfirst, hone, hwith⟩ := found_in_line hfound
      have hbefore := (heard_checkLines hplain fun other hother =>
        hplains other (List.mem_append_left _ hother)).2
      have hplainLine : ∀ other ∈ before ++ [text], Ordinary other := by
        intro other hother
        rw [List.append_cons] at hplains
        exact hplains other (List.mem_append_left _ hother)
      have hthrough := (heard_checkLines hplain hplainLine).2
      simp only [hfirst] at hbefore
      simp only [hwith] at hthrough
      refine ⟨hone, ?_⟩
      rw [hthrough.2, hbefore.2, List.map_append, List.append_assoc]

theorem standardSettings_plain : standardSettings.Plain :=
  ⟨rfl, rfl, rfl, rfl, nofun⟩

def sheet : String :=
  "x = 2\n\n  x + \n1 $ 2\nx\npi/0.1^400\n7"

theorem sheet_agrees :
    standardSettings.Plain ∧ (∀ text ∈ splitLines sheet, Ordinary text) ∧
      checkDocument sheet = .error (.evaluation (.fault .zeroDivisor)) ∧
      (standardSettings.run false sheet).ending = .broken (.evaluation (.fault .zeroDivisor)) ∧
      (heard standardSettings ["x = 2", "", "  x + ", "1 $ 2"]).1.session =
        checkedSession startSession 0 ["x = 2", "", "  x + ", "1 $ 2"] ∧
      (heard standardSettings ["x = 2", "", "  x + ", "1 $ 2"]).1.errors =
        (heard standardSettings ["x = 2", "", "  x + "]).1.errors ++
          ["Error: unexpected character '$'\n"] := by
  have hbreaks : ∀ c ∈ sheet.toList, isLineBreak c = true → c = '\n' := by
    simp [sheet, isLineBreak]
  have hlines : ∀ text ∈ splitLines sheet, Ordinary text := by unfold Ordinary; decide +kernel
  have hsplit : splitLines sheet =
      ["x = 2", "", "  x + ", "1 $ 2"] ++ ["x", "pi/0.1^400", "7"] := by
    decide +kernel
  have hcheck : checkDocument sheet = .error (.evaluation (.fault .zeroDivisor)) := by
    rw [checkDocument, hsplit]
    decide +kernel
  have hfound : checkLines startSession 0 ["x = 2", "", "  x + ", "1 $ 2"] =
      .ok [⟨⟨2, 6, 7⟩, "unexpected end of expression: missing operand", .error⟩,
        ⟨⟨3, 2, 3⟩, "unexpected character '$'", .error⟩] := by
    decide +kernel
  obtain ⟨hdocument, hrun, _, hprefixes⟩ := diagnostics_agree standardSettings_plain hbreaks hlines
  have hall := (hprefixes (splitLines sheet) [] (List.append_nil _).symm).2
  rw [← hdocument, hcheck] at hall
  obtain ⟨hsession, hfour⟩ := hprefixes _ _ hsplit
  rw [hfound] at hfour
  have hfourth := (hfour.2 ["x = 2", "", "  x + "] "1 $ 2" [] rfl).2
  exact ⟨standardSettings_plain, hlines, hcheck, by rw [hrun]; exact hall, hsession, hfourth⟩

end Reckoner
