import Reckoner.Proofs.Margins
import Reckoner.Run

namespace Reckoner

section
variable (settings : Settings) {shell : Shell} {line : String} {e : ResolveError}

theorem line_answered {s : Session} {text : String}
    (h : shell.session.answer line = .ok (s, text)) :
    shell.line settings line =
      (({ shell.tell (settings.trace shell.session line) with session := s }).write (text ++ "\n"),
        .answered) := by
  simp only [Shell.line, h]

theorem line_refused {message : String} (h : shell.session.answer line = .error e)
    (hmessage : e.message? = some message) :
    shell.line settings line =
      ((shell.tell (settings.trace shell.session line)).tell ["Error: " ++ message ++ "\n"],
        .refused) := by
  simp only [Shell.line, h, hmessage]

theorem line_breaks (h : shell.session.answer line = .error e) (hnone : e.message? = none) :
    shell.line settings line =
      (shell.tell (settings.trace shell.session line), .broken e) := by
  simp only [Shell.line, h, hnone]

/-- A line of the shell that is neither blank nor an exit command is answered without the blanks at
its ends. -/
theorem feed_line (shell : Shell) (hblank : trim line ≠ "")
    (hexit : isExitCommand (trim line) = false) :
    shell.feed settings line =
      match shell.line settings (trim line) with
      | (next, .broken e) => (next, some (.broken e))
      | (next, _) => (next, none) := by
  have hempty : ¬ (trim line).isEmpty = true := by simpa using hblank
  have hgoes : ¬ isExitCommand (trim line) = true := by simp [hexit]
  cases hline : shell.line settings (trim line) with
  | mk next verdict =>
    cases verdict <;> simp only [Shell.feed, if_neg hempty, if_neg hgoes, hline]

theorem interact_cons (shell : Shell) (line : String) (rest : List String) :
    shell.interact settings false (line :: rest) =
      match shell.feed settings line with
      | (next, some ending) => (next, ending)
      | (next, none) => next.interact settings false rest := by
  cases hfeed : shell.feed settings line with
  | mk next ending =>
    have hunasked : (shell.ask settings false).feed settings line = (next, ending) := hfeed
    cases ending <;> simp only [Shell.interact, hunasked]

end

theorem feed_cases (settings : Settings) (shell : Shell) {line : String}
    (hexit : isExitCommand (trim line) = false) :
    (∃ next e, shell.feed settings line = (next, some (.broken e))) ∨
      ∃ next, shell.feed settings line = (next, none) := by
  by_cases hblank : trim line = ""
  · refine .inr ⟨shell, ?_⟩
    simp [Shell.feed, hblank]
  · rw [feed_line settings shell hblank hexit]
    obtain ⟨next, verdict⟩ := shell.line settings (trim line)
    cases verdict with
    | answered => exact .inr ⟨next, rfl⟩
    | refused => exact .inr ⟨next, rfl⟩
    | broken e => exact .inl ⟨next, e, rfl⟩

theorem interact_append {settings : Settings} {shell : Shell} {before : List String}
    (hexit : ∀ line ∈ before, isExitCommand (trim line) = false) (after : List String) :
    shell.interact settings false (before ++ after) =
      if (shell.interact settings false before).2 = .exit 0 then
        (shell.interact settings false before).1.interact settings false after
      else shell.interact settings false before := by
  induction before generalizing shell with
  | nil => rfl
  | cons line before ih =>
    rw [List.cons_append, interact_cons, interact_cons]
    obtain ⟨next, e, hfeed⟩ | ⟨next, hfeed⟩ := feed_cases settings shell (hexit line (by simp))
    · rw [hfeed]
      rfl
    · rw [hfeed]
      exact ih (fun other hother => hexit other (List.mem_cons_of_mem _ hother))

def Shell.Answers (settings : Settings) (shell : Shell) : List String → Prop
  | [] => True
  | line :: rest =>
    (∃ answer, shell.session.answer (trim line) = .ok answer) ∧
      (shell.feed settings line).1.Answers settings rest

/-- Shells in the same session that have written the same to the output. -/
structure Shell.Matches (a b : Shell) : Prop where
  session : a.session = b.session
  output : a.output = b.output

def Spoken (lines : List String) : Prop :=
  ∀ line ∈ lines, trim line ≠ "" ∧ isExitCommand (trim line) = false

section
variable {settings : Settings} {a b : Shell} {line : String} {lines rest : List String}

theorem Spoken.tail (h : Spoken (line :: rest)) : Spoken rest :=
  fun other hother => h other (List.mem_cons_of_mem _ hother)

theorem Spoken.exits (h : Spoken lines) : ∀ line ∈ lines, isExitCommand (trim line) = false :=
  fun line hline => (h line hline).2

/-- An answer is given with and without the margins of a line. -/
theorem answered_both (settings : Settings) (h : a.Matches b) (hblank : trim line ≠ "")
    (hexit : isExitCommand (trim line) = false)
    (hanswer : ∃ answer, b.session.answer (trim line) = .ok answer) :
    ∃ a' b', a.line settings line = (a', .answered) ∧ b.feed settings line = (b', none) ∧
      a'.Matches b' := by
  obtain ⟨⟨s, text⟩, hanswer⟩ := hanswer
  obtain ⟨answer, htrim, hline⟩ | ⟨_, _, htrim, _⟩ :=
    cases_of_forget (answer_alike (alike_trim line) b.session)
  · obtain rfl : answer = (s, text) := Except.ok.inj (htrim.symm.trans hanswer)
    rw [← h.session] at hline
    have hfeed := feed_line settings b hblank hexit
    rw [line_answered _ hanswer] at hfeed
    refine ⟨_, _, line_answered settings hline, hfeed, ⟨rfl, ?_⟩⟩
    simp [Shell.write, Shell.tell, h.output]
  · rw [hanswer] at htrim
    cases htrim

theorem batch_answered (h : a.Matches b) (hspoken : Spoken lines)
    (hanswers : b.Answers settings lines) :
    ∃ a' : Shell, (∀ rest, a.batch settings (lines ++ rest) = a'.batch settings rest) ∧
      a'.Matches (b.interact settings false lines).1 ∧
      (b.interact settings false lines).2 = .exit 0 := by
  induction lines generalizing a b with
  | nil => exact ⟨a, fun _ => rfl, h, rfl⟩
  | cons line lines ih =>
    obtain ⟨hblank, hexit⟩ := hspoken line (by simp)
    obtain ⟨a', b', hline, hfeed, hmatches⟩ :=
      answered_both settings h hblank hexit hanswers.1
    have hrest : b'.Answers settings lines := by
      have := hanswers.2
      rwa [hfeed] at this
    obtain ⟨last, hbatch, hlast, hend⟩ := ih hmatches hspoken.tail hrest
    refine ⟨last, fun rest => ?_, ?_, ?_⟩
    · rw [List.cons_append, Shell.batch, hline]
      exact hbatch rest
    · rw [interact_cons, hfeed]
      exact hlast
    · rw [interact_cons, hfeed]
      exact hend

theorem answers_or_first (settings : Settings) (b : Shell) (hspoken : Spoken lines) :
    b.Answers settings lines ∨
      ∃ before line after e, lines = before ++ line :: after ∧ b.Answers settings before ∧
        (b.interact settings false before).1.session.answer (trim line) = .error e := by
  induction lines generalizing b with
  | nil => exact .inl trivial
  | cons line lines ih =>
    obtain ⟨hblank, hexit⟩ := hspoken line (by simp)
    cases hanswer : b.session.answer (trim line) with
    | error e => exact .inr ⟨[], line, lines, e, rfl, trivial, hanswer⟩
    | ok answer =>
      have hself : b.Matches b := ⟨rfl, rfl⟩
      obtain ⟨_, b', _, hfeed, _⟩ := answered_both settings hself hblank hexit ⟨answer, hanswer⟩
      obtain hall | ⟨before, other, after, e, hlines, hbefore, hother⟩ := ih b' hspoken.tail
      · refine .inl ⟨⟨answer, hanswer⟩, ?_⟩
        rwa [hfeed]
      · refine .inr ⟨line :: before, other, after, e, by rw [hlines]; rfl, ⟨⟨answer, hanswer⟩, ?_⟩,
          ?_⟩
        · rwa [hfeed]
        · rw [interact_cons, hfeed]
          exact hother

theorem error_both (h : a.session = b.session) {e : ResolveError}
    (herror : b.session.answer (trim line) = .error e) :
    ∃ e', a.session.answer line = .error e' ∧ e'.message? = e.message? ∧
      (e.message? = none → e' = e) := by
  rw [h]
  obtain ⟨_, htrim, _⟩ | ⟨e₁, e', htrim, hline, hmessage, hnone⟩ :=
    cases_of_forget (answer_alike (alike_trim line) b.session)
  · rw [herror] at htrim
    cases htrim
  · obtain rfl : e₁ = e := Except.error.inj (htrim.symm.trans herror)
    exact ⟨e', hline, hmessage.symm, fun h => (hnone h).symm⟩

/-- A line without an answer ends the answers given in advance, whatever comes after it. -/
theorem batch_stops (settings : Settings) {e e' : ResolveError}
    (h : a.session.answer line = .error e') (hmessage : e'.message? = e.message?)
    (hnone : e.message? = none → e' = e) :
    ∃ stopped : Shell × Ending, (∀ rest, a.batch settings (line :: rest) = stopped) ∧
      stopped.1.output = a.output ∧
      match e.message? with
      | some message =>
        stopped.2 = .exit 1 ∧ stopped.1.errors.getLast? = some ("Error: " ++ message ++ "\n")
      | none => stopped.2 = .broken e := by
  cases hm : e.message? with
  | some message =>
    have hline := line_refused settings h (hmessage.trans hm)
    refine ⟨_, fun rest => by rw [Shell.batch, hline], rfl, rfl, ?_⟩
    simp [Shell.tell]
  | none =>
    obtain rfl := hnone hm
    have hline := line_breaks settings h hm
    exact ⟨_, fun rest => by rw [Shell.batch, hline], rfl, rfl⟩

/-- The shell writes the error of a line without an answer, or ends with it. -/
theorem interact_stops (settings : Settings) (hblank : trim line ≠ "")
    (hexit : isExitCommand (trim line) = false) {e : ResolveError}
    (h : b.session.answer (trim line) = .error e) :
    (b.interact settings false [line]).1.output = b.output ∧
      match e.message? with
      | some message =>
        (b.interact settings false [line]).1.errors.getLast? =
          some ("Error: " ++ message ++ "\n")
      | none => ∀ rest, (b.interact settings false (line :: rest)).2 = .broken e := by
  have hfeed := feed_line settings b hblank hexit
  cases hm : e.message? with
  | some message =>
    rw [line_refused _ h hm] at hfeed
    rw [interact_cons, hfeed]
    refine ⟨rfl, ?_⟩
    simp [Shell.tell, Shell.interact, Shell.ask, Shell.close]
  | none =>
    rw [line_breaks _ h hm] at hfeed
    exact ⟨by rw [interact_cons, hfeed]; rfl, fun rest => by rw [interact_cons, hfeed]⟩

theorem feed_grows (settings : Settings) (b : Shell) (line : String) :
    b.output <+: (b.feed settings line).1.output ∧
      b.errors <+: (b.feed settings line).1.errors := by
  by_cases hblank : trim line = ""
  · simp [Shell.feed, hblank]
  cases hexit : isExitCommand (trim line) with
  | true =>
    have hempty : ¬ (trim line).isEmpty = true := by simpa using hblank
    simp [Shell.feed, hempty, hexit]
  | false =>
    rw [feed_line settings b hblank hexit]
    cases hanswer : b.session.answer (trim line) with
    | ok answer =>
      rw [line_answered _ hanswer]
      exact ⟨List.prefix_append _ _, List.prefix_append _ _⟩
    | error e =>
      cases hmessage : e.message? with
      | some message =>
        rw [line_refused _ hanswer hmessage]
        refine ⟨List.prefix_rfl, ?_⟩
        exact (List.prefix_append _ _).trans (List.prefix_append _ _)
      | none =>
        rw [line_breaks _ hanswer hmessage]
        exact ⟨List.prefix_rfl, List.prefix_append _ _⟩

theorem interact_grows (settings : Settings) (b : Shell) (lines : List String) :
    b.output <+: (b.interact settings false lines).1.output ∧
      b.errors <+: (b.interact settings false lines).1.errors := by
  induction lines generalizing b with
  | nil => exact ⟨List.prefix_rfl, List.prefix_rfl⟩
  | cons line lines ih =>
    obtain ⟨houtput, herrors⟩ := feed_grows settings b line
    rw [interact_cons]
    cases hfeed : b.feed settings line with
    | mk next ending =>
      rw [hfeed] at houtput herrors
      cases ending with
      | some ending => exact ⟨houtput, herrors⟩
      | none => exact ⟨houtput.trans (ih next).1, herrors.trans (ih next).2⟩

/-- What the shell has written after some lines stays in front of what it writes later. -/
theorem interact_append_grows (settings : Settings) (b : Shell)
    (hexit : ∀ line ∈ lines, isExitCommand (trim line) = false) (rest : List String) :
    (b.interact settings false lines).1.output <+:
        (b.interact settings false (lines ++ rest)).1.output ∧
      (b.interact settings false lines).1.errors <+:
        (b.interact settings false (lines ++ rest)).1.errors := by
  rw [interact_append hexit]
  split
  · exact interact_grows settings _ rest
  · exact ⟨List.prefix_rfl, List.prefix_rfl⟩

end

/-- Lines as the text of an input, each with its end. -/
def inputOf (lines : List String) : String :=
  String.ofList (lines.flatMap fun line => line.toList ++ ['\n'])

theorem streamLinesFrom_cons {c : Char} (h : c ≠ '\r') (line cs : List Char) :
    streamLinesFrom line (c :: cs) =
      if c = '\n' ∨ c = '\r' then line.reverse :: streamLinesFrom [] cs
      else streamLinesFrom (c :: line) cs := by
  rw [streamLinesFrom.eq_def]
  split
  next heq => cases heq
  next heq => exact absurd (List.cons.inj heq).1 h
  next heq =>
    obtain ⟨rfl, rfl⟩ := List.cons.inj heq
    rfl

theorem streamLinesFrom_line {cs : List Char} (h : ∀ c ∈ cs, c ≠ '\n' ∧ c ≠ '\r')
    (line rest : List Char) :
    streamLinesFrom line (cs ++ '\n' :: rest) =
      (line.reverse ++ cs) :: streamLinesFrom [] rest := by
  induction cs generalizing line with
  | nil => simp [streamLinesFrom]
  | cons c cs ih =>
    obtain ⟨hfeed, hreturn⟩ := h c (by simp)
    rw [List.cons_append, streamLinesFrom_cons hreturn, if_neg (by simp [hfeed, hreturn]),
      ih fun d hd => h d (List.mem_cons_of_mem _ hd)]
    simp

theorem streamLines_inputOf {lines : List String}
    (h : ∀ line ∈ lines, ∀ c ∈ line.toList, c ≠ '\n' ∧ c ≠ '\r') :
    streamLines (inputOf lines) = lines := by
  rw [streamLines, inputOf, String.toList_ofList]
  induction lines with
  | nil => rfl
  | cons line lines ih =>
    rw [List.flatMap_cons, List.append_assoc, List.singleton_append,
      streamLinesFrom_line (h line (by simp)), List.map_cons,
      ih fun other hother => h other (List.mem_cons_of_mem _ hother)]
    simp

/-- The run that answers expressions given in advance. -/
def Settings.oneShot (settings : Settings) (expressions : List String) (atTerminal : Bool)
    (input : String) : Run :=
  { settings with expressions }.run atTerminal input

/-- The run of the shell that reads lines from an input. -/
def Settings.conversation (settings : Settings) (lines : List String) : Run :=
  { settings with expressions := [] }.run false (inputOf lines)

section
variable (settings : Settings) (expressions : List String) (shell : Shell)

@[simp] theorem shell_expressions : { settings with expressions }.shell = settings.shell := by
  have htrace : ∀ (s : Session) (bindings : List (String × Datum)),
      { settings with expressions }.traceVariables s bindings =
        settings.traceVariables s bindings := by
    intro s bindings
    induction bindings generalizing s with
    | nil => rfl
    | cons entry bindings ih =>
      obtain ⟨name, value⟩ := entry
      rw [Settings.traceVariables, Settings.traceVariables]
      cases s.set name value with
      | error e => rfl
      | ok r => exact congrArg (settings.logVariable name r.2 ++ ·) (ih r.1)
  rw [Settings.shell, Settings.shell, htrace]
  rfl

@[simp] theorem greet_expressions :
    shell.greet { settings with expressions } = shell.greet settings := by
  rfl

@[simp] theorem batch_expressions (lines : List String) :
    shell.batch { settings with expressions } lines = shell.batch settings lines := by
  induction lines generalizing shell with
  | nil => rfl
  | cons line lines ih =>
    have hline : shell.line { settings with expressions } line = shell.line settings line := rfl
    rw [Shell.batch, Shell.batch, hline]
    obtain ⟨next, verdict⟩ := shell.line settings line
    cases verdict with
    | answered => exact ih next
    | refused => rfl
    | broken e => rfl

@[simp] theorem interact_expressions (lines : List String) :
    shell.interact { settings with expressions } false lines =
      shell.interact settings false lines := by
  induction lines generalizing shell with
  | nil => rfl
  | cons line lines ih =>
    have hfeed : shell.feed { settings with expressions } line = shell.feed settings line := rfl
    rw [interact_cons, interact_cons, hfeed]
    obtain ⟨next, ending⟩ := shell.feed settings line
    cases ending with
    | some ending => rfl
    | none => exact ih next

end

section
variable {settings : Settings} {shell : Shell}

@[simp]
theorem ofShell_output (last : Shell × Ending) : (Run.ofShell last).output = last.1.output :=
  rfl

@[simp]
theorem ofShell_errors (last : Shell × Ending) : (Run.ofShell last).errors = last.1.errors := by
  rfl

@[simp] theorem ofShell_ending (last : Shell × Ending) : (Run.ofShell last).ending = last.2 :=
  rfl

theorem oneShot_eq (h : settings.shell = .ok shell) {expressions : List String}
    (hne : expressions ≠ []) (atTerminal : Bool) (input : String) :
    settings.oneShot expressions atTerminal input =
      .ofShell (shell.batch settings expressions) := by
  have hshell : { settings with expressions }.shell = .ok shell := by simp [h]
  have hempty : ¬ expressions.isEmpty = true := by simpa using hne
  simp [Settings.oneShot, Settings.run, hshell, hempty]

theorem conversation_eq (h : settings.shell = .ok shell) {lines : List String}
    (hlines : ∀ line ∈ lines, ∀ c ∈ line.toList, c ≠ '\n' ∧ c ≠ '\r') :
    settings.conversation lines =
      .ofShell ((shell.greet settings).interact settings false lines) := by
  have hshell : { settings with expressions := [] }.shell = .ok shell := by simp [h]
  simp [Settings.conversation, Settings.run, hshell, streamLines_inputOf hlines]

theorem greet_matches (settings : Settings) (shell : Shell) :
    shell.Matches (shell.greet settings) := by
  unfold Shell.greet
  split <;> exact ⟨rfl, rfl⟩

end

/-- The run in advance and the shell at a line that has no answer, after lines that have one. -/
structure StopsAlike (settings : Settings) (atTerminal : Bool) (input : String)
    (before : List String) (line : String) (after : List String) (e : ResolveError) : Prop where
  /-- What comes after the line makes no difference to the run in advance. -/
  unread : settings.oneShot (before ++ line :: after) atTerminal input =
    settings.oneShot (before ++ [line]) atTerminal input
  /-- The run in advance has written what the shell had written before the line. -/
  output : (settings.oneShot (before ++ line :: after) atTerminal input).output =
    (settings.conversation before).output
  /-- The line adds nothing to the output of the shell. -/
  silent : (settings.conversation (before ++ [line])).output =
    (settings.conversation before).output
  continued : (settings.conversation before).output <+:
    (settings.conversation (before ++ line :: after)).output
  /-- Both show the same message, and the shell goes on, or both break with the same error. -/
  ending : match e.message? with
    | some message =>
      (settings.oneShot (before ++ line :: after) atTerminal input).ending = .exit 1 ∧
      (settings.oneShot (before ++ line :: after) atTerminal input).errors.getLast? =
        some ("Error: " ++ message ++ "\n") ∧
      (settings.conversation (before ++ [line])).errors.getLast? =
        some ("Error: " ++ message ++ "\n") ∧
      (settings.conversation (before ++ [line])).errors <+:
        (settings.conversation (before ++ line :: after)).errors
    | none =>
      (settings.oneShot (before ++ line :: after) atTerminal input).ending = .broken e ∧
      (settings.conversation (before ++ line :: after)).ending = .broken e

section
variable {settings : Settings} {shell : Shell} {expressions : List String}

theorem oneShot_answers (h : settings.shell = .ok shell)
    (hchars : ∀ line ∈ expressions, ∀ c ∈ line.toList, c ≠ '\n' ∧ c ≠ '\r')
    (hspoken : Spoken expressions) {atTerminal : Bool} {input : String}
    (hinput : expressions = [] → atTerminal = false ∧ input = "")
    (hanswers : (shell.greet settings).Answers settings expressions) :
    (settings.oneShot expressions atTerminal input).output =
        (settings.conversation expressions).output ∧
      (settings.oneShot expressions atTerminal input).ending = .exit 0 ∧
      (settings.conversation expressions).ending = .exit 0 := by
  obtain ⟨last, hbatch, hmatches, hend⟩ :=
    batch_answered (greet_matches settings shell) hspoken hanswers
  have hrun := hbatch []
  rw [List.append_nil, Shell.batch] at hrun
  have hconversation : (settings.conversation expressions).ending = .exit 0 := by
    rw [conversation_eq h hchars, ofShell_ending, hend]
  cases expressions with
  | nil =>
    obtain ⟨rfl, rfl⟩ := hinput rfl
    have hempty : settings.oneShot [] false "" = settings.conversation [] := rfl
    rw [hempty]
    exact ⟨rfl, hconversation, hconversation⟩
  | cons line rest =>
    refine ⟨?_, ?_, hconversation⟩
    · rw [conversation_eq h hchars, oneShot_eq h (by simp), hrun, ofShell_output, ofShell_output]
      exact hmatches.output
    · rw [oneShot_eq h (by simp), hrun, ofShell_ending]

theorem oneShot_stops (h : settings.shell = .ok shell) {before after : List String}
    {line : String} {e : ResolveError}
    (hchars : ∀ other ∈ before ++ line :: after, ∀ c ∈ other.toList, c ≠ '\n' ∧ c ≠ '\r')
    (hspoken : Spoken (before ++ line :: after)) (atTerminal : Bool) (input : String)
    (hbefore : (shell.greet settings).Answers settings before)
    (herror : ((shell.greet settings).interact settings false before).1.session.answer
      (trim line) = .error e) :
    StopsAlike settings atTerminal input before line after e := by
  obtain ⟨hblank, hexit⟩ := hspoken line (by simp)
  have hsaid : Spoken before := fun other hother => hspoken other (by simp [hother])
  have hsplit : before ++ line :: after = (before ++ [line]) ++ after := by simp
  have hexits : ∀ other ∈ before ++ [line], isExitCommand (trim other) = false := by
    intro other hother
    exact hspoken.exits other (by rw [hsplit]; exact List.mem_append_left _ hother)
  -- Both runs reach the line in the same session, with the same output.
  obtain ⟨last, hbatch, hmatches, hend⟩ :=
    batch_answered (greet_matches settings shell) hsaid hbefore
  obtain ⟨e', herror', hmessage, hnone⟩ := error_both hmatches.session herror
  obtain ⟨stopped, hstopped, houtput, hshown⟩ := batch_stops settings herror' hmessage hnone
  have hrun : ∀ rest, settings.oneShot (before ++ line :: rest) atTerminal input =
      .ofShell stopped := by
    intro rest
    rw [oneShot_eq h (by simp), hbatch, hstopped]
  have hthrough : ∀ rest, (shell.greet settings).interact settings false (before ++ rest) =
      ((shell.greet settings).interact settings false before).1.interact settings false rest := by
    intro rest
    rw [interact_append hsaid.exits, if_pos hend]
  obtain ⟨hkept, hwritten⟩ := interact_stops settings hblank hexit herror
  have htalk := conversation_eq h hchars
  have htalkBefore : settings.conversation before = _ :=
    conversation_eq h fun other hother => hchars other (List.mem_append_left _ hother)
  have htalkLine : settings.conversation (before ++ [line]) = _ :=
    conversation_eq h fun other hother =>
      hchars other (by rw [hsplit]; exact List.mem_append_left _ hother)
  refine ⟨by rw [hrun, hrun], ?_, ?_, ?_, ?_⟩
  · rw [hrun, htalkBefore, ofShell_output, ofShell_output, houtput]
    exact hmatches.output
  · rw [htalkLine, htalkBefore, ofShell_output, ofShell_output, hthrough, hkept]
  · rw [htalk, htalkBefore, ofShell_output, ofShell_output]
    exact (interact_append_grows settings _ hsaid.exits _).1
  · rw [hrun, htalk, htalkLine]
    simp only [ofShell_errors, ofShell_ending]
    cases hm : e.message? with
    | some message =>
      simp only [hm] at hshown hwritten
      refine ⟨hshown.1, hshown.2, by rw [hthrough]; exact hwritten, ?_⟩
      rw [hsplit]
      exact (interact_append_grows settings _ hexits after).2
    | none =>
      simp only [hm] at hshown hwritten
      exact ⟨hshown, by rw [hthrough]; exact hwritten after⟩

end

/-- Expressions given in advance and the shell that reads them as lines start alike. Either the
shell answers all lines; then both write the same to the output and end regularly. Or there is a
first line that the shell does not answer; then the answers before it are the output of the run in
advance, which nothing after the line changes, and the error of that line ends it: with the message
that the shell shows for the line, or as it ends the shell. -/
theorem oneShot_agrees {settings : Settings} {expressions : List String}
    (hchars : ∀ line ∈ expressions, ∀ c ∈ line.toList, c ≠ '\n' ∧ c ≠ '\r')
    (hspoken : Spoken expressions) {atTerminal : Bool} {input : String}
    (hinput : expressions = [] → atTerminal = false ∧ input = "") :
    (∀ run, settings.shell = .error run →
      settings.oneShot expressions atTerminal input = run ∧
        settings.conversation expressions = run) ∧
    ∀ shell, settings.shell = .ok shell →
      ((shell.greet settings).Answers settings expressions ∧
        (settings.oneShot expressions atTerminal input).output =
          (settings.conversation expressions).output ∧
        (settings.oneShot expressions atTerminal input).ending = .exit 0 ∧
        (settings.conversation expressions).ending = .exit 0) ∨
      ∃ before line after e, expressions = before ++ line :: after ∧
        (shell.greet settings).Answers settings before ∧
        ((shell.greet settings).interact settings false before).1.session.answer (trim line) =
          .error e ∧
        StopsAlike settings atTerminal input before line after e := by
  refine ⟨fun run h => ⟨?_, ?_⟩, fun shell h => ?_⟩
  · simp [Settings.oneShot, Settings.run, h]
  · simp [Settings.conversation, Settings.run, h]
  · obtain hall | ⟨before, line, after, e, hlines, hbefore, herror⟩ :=
      answers_or_first settings (shell.greet settings) hspoken
    · exact .inl ⟨hall, oneShot_answers h hchars hspoken hinput hall⟩
    · subst hlines
      exact .inr ⟨before, line, after, e, rfl, hbefore, herror,
        oneShot_stops h hchars hspoken atTerminal input hbefore herror⟩

def standardSettings : Settings :=
  ⟨[], [], defaultPrecision, false, defaultPrompt, false, .warning⟩

def sumLines : List String :=
  ["x = 2 ", "\tx + ", "7"]

theorem sumLines_agree :
    Spoken sumLines ∧
      standardSettings.oneShot sumLines true "1" =
        ⟨["x = 2\n"], ["Error: unexpected end of expression: missing operand\n"], .exit 1⟩ ∧
      ∃ before line after, sumLines = before ++ line :: after ∧
        (standardSettings.conversation before).output = ["x = 2\n"] ∧
        (standardSettings.conversation (before ++ [line])).errors.getLast? =
          some "Error: unexpected end of expression: missing operand\n" := by
  have hchars : ∀ line ∈ sumLines, ∀ c ∈ line.toList, c ≠ '\n' ∧ c ≠ '\r' := by
    simp [sumLines]
  have hspoken : Spoken sumLines := by unfold Spoken; decide +kernel
  have hinput : sumLines = [] → true = false ∧ "1" = "" := fun h => nomatch h
  have hshell : standardSettings.shell = .ok ⟨⟨defaultPrecision, []⟩, [], []⟩ := rfl
  have hrun : standardSettings.oneShot sumLines true "1" =
      ⟨["x = 2\n"], ["Error: unexpected end of expression: missing operand\n"], .exit 1⟩ := by
    decide +kernel
  obtain ⟨_, _, hend, _⟩ | ⟨before, line, after, e, hlines, _, _, hstops⟩ :=
    (oneShot_agrees hchars hspoken hinput).2 _ hshell
  · rw [hrun] at hend
    cases hend
  · have houtput := hstops.output
    have hstop := hstops.ending
    rw [← hlines, hrun] at houtput hstop
    refine ⟨hspoken, hrun, before, line, after, hlines, houtput.symm, ?_⟩
    cases hm : e.message? with
    | some message =>
      simp only [hm] at hstop
      obtain ⟨_, hlast, hshown, _⟩ := hstop
      rw [hshown, ← hlast]
      rfl
    | none =>
      simp only [hm] at hstop
      cases hstop.1

end Reckoner
