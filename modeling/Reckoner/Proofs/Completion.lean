import Reckoner.Proofs.OpenParentheses
import Reckoner.Proofs.Substitution

namespace Reckoner

/-- Tokens that some accepted text starts with. -/
def Viable (ts : List Token) : Prop :=
  ∃ source rest e, tokenize source = .ok (ts ++ rest) ∧
    Expression.ofTokens source (ts ++ rest) = .ok e

/-- Tokens that no accepted token list starts with. -/
def Barred (ts : List Token) : Prop :=
  ∀ source rest e, Expression.ofTokens source (ts ++ rest) ≠ .ok e

section
variable {s : Conversion}

theorem closeParen_complete {frame : Frame} {frames : List Frame}
    (h : Stacked s.frames s.stack) (hs : s.expectsOperand = false)
    (hframes : s.frames = frame :: frames) (token : Token) :
    ∃ next, s.closeParen token = .ok next ∧ next.frames = frames ∧
      next.expectsOperand = false := by
  rw [hframes] at h
  have hcount : s.closingCount frame token = .ok (frame.commas + 1) := by
    simp [Conversion.closingCount, hs]
  obtain ⟨out, opening, rest, hrelease, ho, hrest⟩ := h.releaseToParen s.output
  unfold Conversion.closeParen
  simp only [hframes, hcount, hrelease, ok_bind, List.drop_one, List.tail_cons]
  obtain ⟨hnone, _⟩ | ⟨callee, below, hsome, _, rfl, _⟩ := hrest.under ho
  · rw [hnone]
    exact ⟨_, rfl, rfl, rfl⟩
  · rw [hsome]
    exact ⟨_, rfl, rfl, rfl⟩

/-- As many closing parentheses as are open bring a conversion to its end. -/
theorem run_closings {closings : List Token} {stop : Token} (h : Stacked s.frames s.stack)
    (hs : s.expectsOperand = false) (hclosings : ∀ token ∈ closings, token.kind = .closeParen)
    (hlength : closings.length = s.frames.length) (hstop : stop.kind = .endOfInput) :
    ∃ program, s.run (closings ++ [stop]) = .ok program := by
  induction closings generalizing s with
  | nil =>
    have hframes : s.frames = [] := List.eq_nil_of_length_eq_zero hlength.symm
    rw [hframes] at h
    rw [List.nil_append, run_endOfInput hstop]
    exact ⟨_, finish_eq_ok_iff.mpr ⟨hs, h.not_openParen, rfl⟩⟩
  | cons token closings ih =>
    obtain ⟨frame, frames, hframes⟩ := List.exists_cons_of_ne_nil
      (List.ne_nil_of_length_pos (by rw [← hlength]; exact Nat.succ_pos _))
    obtain ⟨hk, hclosings⟩ := List.forall_mem_cons.mp hclosings
    obtain ⟨next, hnext, hopen, hcomplete⟩ := closeParen_complete h hs hframes token
    have hstep : Step s [token] next := .closeParen hk hnext
    have hshorter : closings.length = next.frames.length := by
      rw [hframes] at hlength
      rw [hopen]
      exact Nat.succ.inj hlength
    obtain ⟨program, hrun⟩ := ih (hstep.stacked h) hcomplete hclosings hshorter
    refine ⟨program, ?_⟩
    rw [← hrun]
    exact run_of_token hstep (by simp [hk]) _

end

theorem Lexes.cut {p : Position} {cs : List Char} {tokens before after : List Token}
    (h : Lexes p cs tokens) (htokens : tokens = before ++ after) (hafter : after ≠ []) :
    ∃ front back, cs = front ++ back ∧
      Lexes p front (before ++ [.at .endOfInput [] [] (p.advance front)]) := by
  induction h generalizing before with
  | stop p =>
    have hlength := congrArg List.length htokens
    have hpositive := List.length_pos_iff.mpr hafter
    rw [List.length_singleton, List.length_append] at hlength
    have hbefore : before = [] := List.eq_nil_of_length_eq_zero (by omega)
    exact ⟨[], [], rfl, by rw [hbefore]; exact .stop p⟩
  | @blank p c cs tokens hblank h ih =>
    obtain ⟨front, back, rfl, hfront⟩ := ih htokens
    exact ⟨c :: front, back, rfl, .blank hblank hfront⟩
  | @word p kind word rest tokens hword hends h ih =>
    cases before with
    | nil => exact ⟨[], word ++ rest, rfl, .stop p⟩
    | cons token before =>
      obtain ⟨rfl, htail⟩ := List.cons.inj htokens
      obtain ⟨front, back, rfl, hfront⟩ := ih htail
      refine ⟨word ++ front, back, (List.append_assoc word front back).symm, ?_⟩
      rw [advance_append]
      exact .word hword hends.shorter hfront

/-- Another end may be written behind any word of a text. -/
theorem tokenize_extend {source : String} {before after : List Token} {P : List Token → Prop}
    (h : tokenize source = .ok (before ++ after)) (hafter : after ≠ [])
    (hending : ∀ p, ∃ tail ending, Lexes p tail ending ∧ Breaks tail ∧ P ending) :
    ∃ longer ending, tokenize longer = .ok (before ++ ending) ∧ P ending := by
  obtain ⟨front, _, _, hfront⟩ := (scan_eq_ok_iff.mp h).cut rfl hafter
  obtain ⟨tail, ending, htail, hbreaks, hp⟩ := hending (Position.start.advance front)
  have hjoined := hfront.join hbreaks htail
  rw [List.dropLast_concat] at hjoined
  exact ⟨String.ofList (front ++ tail), ending,
    tokenize_of_lexes String.toList_ofList hjoined, hp⟩

theorem lexes_closings (count : ℕ) (p : Position) :
    ∃ closings stop, Lexes p (List.replicate count ')') (closings ++ [stop]) ∧
      closings.length = count ∧ (∀ token ∈ closings, token.kind = .closeParen) ∧
      stop.kind = .endOfInput := by
  induction count generalizing p with
  | zero => exact ⟨[], _, .stop p, rfl, by simp, rfl⟩
  | succ count ih =>
    obtain ⟨closings, stop, hlexes, hlength, hk, hstop⟩ := ih (p.advance [')'])
    exact ⟨wordToken .closeParen [')'] p :: closings, stop,
      .word .closeParen (fun _ _ => trivial) hlexes, by rw [List.length_cons, hlength],
      List.forall_mem_cons.mpr ⟨rfl, hk⟩, hstop⟩

theorem breaks_closings (count : ℕ) : Breaks (List.replicate count ')') := by
  cases count with
  | zero => exact fun _ hc => nomatch hc
  | succ count =>
    rintro c ⟨⟩
    decide

theorem exists_closings {s : Conversion} (h : Stacked s.frames s.stack)
    (hs : s.expectsOperand = false) (p : Position) :
    ∃ closings stop program,
      Lexes p (List.replicate s.frames.length ')') (closings ++ [stop]) ∧
      (∀ token ∈ closings, token.kind = .closeParen) ∧ stop.kind = .endOfInput ∧
      s.run (closings ++ [stop]) = .ok program := by
  obtain ⟨closings, stop, hlexes, hlength, hk, hstop⟩ := lexes_closings s.frames.length p
  obtain ⟨program, hrun⟩ := run_closings h hs hk hlength hstop
  exact ⟨closings, stop, program, hlexes, hk, hstop, hrun⟩

/-- The first token of an ending: it opens and assigns nothing. -/
def Token.Ends (token : Token) : Prop :=
  token.kind = .number ∨ token.kind = .closeParen ∨ token.kind = .endOfInput

theorem Token.Ends.not_openParen {token : Token} (h : token.Ends) : token.kind ≠ .openParen := by
  rcases h with hk | hk | hk <;> rw [hk] <;> decide

theorem Token.Ends.not_identifier {token : Token} (h : token.Ends) :
    token.kind ≠ .identifier := by
  rcases h with hk | hk | hk <;> rw [hk] <;> decide

theorem Token.Ends.not_sign {token : Token} (h : token.Ends) (text : String) :
    ¬ token.IsSign text := by
  rintro ⟨ho, _⟩
  rcases h with hk | hk | hk <;> cases hk.symm.trans ho

theorem follows_of_ends {ending : List Token} (h : ∀ next ∈ ending.head?, next.Ends) :
    Follows ending :=
  fun next hnext => (h next hnext).not_openParen

theorem ends_of_stop {stop : Token} (hstop : stop.kind = .endOfInput) :
    ∀ next ∈ [stop].head?, next.Ends := by
  rintro next ⟨⟩
  exact .inr (.inr hstop)

theorem ends_of_closings {closings : List Token} {stop : Token}
    (hk : ∀ token ∈ closings, token.kind = .closeParen) (hstop : stop.kind = .endOfInput) :
    ∀ next ∈ (closings ++ [stop]).head?, next.Ends := by
  cases closings with
  | nil => exact ends_of_stop hstop
  | cons token closings =>
    rintro next ⟨⟩
    exact .inr (.inl (hk token (by simp)))

/-- What brings a conversion to its end may be written anywhere. -/
theorem exists_ending {s : Conversion} (h : Stacked s.frames s.stack) (p : Position) :
    ∃ tail ending, Lexes p tail ending ∧ Breaks tail ∧
      (∀ next ∈ ending.head?, next.Ends) ∧ ∃ program, s.run ending = .ok program := by
  cases hs : s.expectsOperand with
  | false =>
    obtain ⟨closings, stop, program, hlexes, hk, hstop, hrun⟩ := exists_closings h hs p
    exact ⟨_, _, hlexes, breaks_closings _, ends_of_closings hk hstop, program, hrun⟩
  | true =>
    -- a blank keeps the operand apart from the word before it
    let place : Position := p.next ' '
    let number : Token := wordToken .number ['0'] place
    let next : Conversion := { s with output := number :: s.output, expectsOperand := false }
    have hstep : Step s [number] next := by
      refine .operand (.inl rfl) ?_
      rw [Conversion.operand, if_pos hs]
    obtain ⟨closings, stop, program, hlexes, hk, hstop, hrun⟩ :=
      exists_closings (hstep.stacked h) rfl (place.advance ['0'])
    have hzero : WrittenAs .number ['0'] := .number (.whole (List.forall_mem_singleton.mpr rfl))
    have hends : EndsBefore .number (List.replicate next.frames.length ')') :=
      .of_breaks (breaks_closings _)
    have hkind : number.kind ≠ .identifier := by rintro ⟨⟩
    have hfirst := run_of_token hstep hkind (closings ++ [stop])
    refine ⟨_, _, .blank rfl (.word hzero hends hlexes), ?_, ?_, program, ?_⟩
    · rintro c ⟨⟩
      decide
    · rintro token ⟨⟩
      exact .inl rfl
    · exact hfirst.trans hrun

/-- What stands before an expression: nothing, where its tokens do not start like an assignment, or
a name that is assigned to and its sign. -/
inductive Leads : List Token → Option Token → List Token → Prop
  | nothing {ts : List Token}
      (h : ∀ name sign rest, ts = name :: sign :: rest → name.kind = .identifier →
        ¬ sign.IsSign "=") : Leads [] none ts
  | target {name sign : Token} (ts : List Token) (hname : name.kind = .identifier)
      (hsign : sign.IsSign "=") : Leads [name, sign] (some name) ts

theorem exists_leads (ts : List Token) :
    ∃ lead target rest, ts = lead ++ rest ∧ Leads lead target rest := by
  by_cases h : ∃ name sign rest, ts = name :: sign :: rest ∧ name.kind = .identifier ∧
      sign.IsSign "="
  · obtain ⟨name, sign, rest, rfl, hname, hsign⟩ := h
    exact ⟨[name, sign], some name, rest, rfl, .target rest hname hsign⟩
  · refine ⟨[], none, ts, rfl, .nothing ?_⟩
    intro name sign rest hts hname hsign
    exact h ⟨name, sign, rest, hts, hname, hsign⟩

section
variable {lead ts us : List Token} {target : Option Token}

theorem Leads.split (h : Leads lead target ts) : splitTarget (lead ++ ts) = (target, ts) := by
  cases h with
  | nothing h =>
    rcases splitTarget_cases ts with ⟨name, sign, rest, hts, hname, hsign, _⟩ | heq
    · exact absurd hsign (h name sign rest hts hname)
    · exact heq
  | target ts hname hsign =>
    simp only [List.cons_append, List.nil_append, splitTarget,
      if_pos (show _ ∧ _ ∧ _ from ⟨hname, hsign.1, hsign.2⟩)]

theorem Leads.shorter (h : Leads lead target (ts ++ us)) : Leads lead target ts := by
  cases h with
  | nothing h =>
    refine .nothing ?_
    rintro name sign rest rfl
    exact h name sign (rest ++ us) rfl
  | target _ hname hsign => exact .target ts hname hsign

/-- An expression that goes on still has what leads it, unless its first two tokens come to look
like those of an assignment. -/
theorem Leads.append (h : Leads lead target ts)
    (hempty : ts = [] → ∀ next ∈ us.head?, next.kind ≠ .identifier)
    (hname : ∀ name, ts = [name] → name.kind = .identifier →
      ∀ next ∈ us.head?, ¬ next.IsSign "=") : Leads lead target (ts ++ us) := by
  cases h with
  | nothing h =>
    refine .nothing ?_
    intro name sign rest hall hk
    cases ts with
    | nil =>
      have hus : us = name :: sign :: rest := hall
      exact absurd hk (hempty rfl name (by rw [hus]; rfl))
    | cons first others =>
      obtain ⟨rfl, hothers⟩ := List.cons.inj hall
      cases others with
      | nil =>
        have hus : us = sign :: rest := hothers
        exact hname first rfl hk sign (by rw [hus]; rfl)
      | cons second others =>
        obtain ⟨rfl, -⟩ := List.cons.inj hothers
        exact h first second others rfl hk
  | target _ hk hsign => exact .target _ hk hsign

theorem Leads.ending (h : Leads lead target ts) (hus : ∀ next ∈ us.head?, next.Ends) :
    Leads lead target (ts ++ us) :=
  h.append (fun _ next hnext => (hus next hnext).not_identifier)
    (fun _ _ _ next hnext => (hus next hnext).not_sign "=")

end

theorem ofTokens_of_leads {lead body program : List Token} {target : Option Token}
    (h : Leads lead target body) (hrun : Conversion.start.run body = .ok program)
    (source : String) :
    Expression.ofTokens source (lead ++ body) = .ok ⟨source, program, target⟩ := by
  cases body with
  | nil => cases hrun
  | cons first body =>
    refine ofTokens_of_split h.split ?_ hrun
    intro hstop
    rw [run_endOfInput hstop] at hrun
    cases hrun

theorem viable_of_steps {source : String} {lead ts after : List Token} {target : Option Token}
    {s : Conversion} (h : tokenize source = .ok (lead ++ ts ++ after)) (hafter : after ≠ [])
    (hlead : Leads lead target ts) (hsteps : Steps .start ts s) : Viable (lead ++ ts) := by
  obtain ⟨longer, ending, hlonger, hends, program, hrun⟩ :=
    tokenize_extend h hafter (exists_ending (hsteps.stacked .nil))
  have hall : Conversion.start.run (ts ++ ending) = .ok program := by
    rw [run_of_steps hsteps (follows_of_ends hends), hrun]
  refine ⟨longer, ending, ⟨longer, program, target⟩, hlonger, ?_⟩
  rw [List.append_assoc]
  exact ofTokens_of_leads (hlead.ending hends) hall longer

end Reckoner
