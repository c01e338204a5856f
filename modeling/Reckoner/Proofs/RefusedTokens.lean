import Reckoner.Proofs.Completion

namespace Reckoner

section
variable {s : Conversion} {token : Token}

/-- A token is taken, by itself or with the parenthesis after it. -/
def Taken (s : Conversion) (token : Token) (rest : List Token) : Prop :=
  ∃ taken others next, token :: rest = taken ++ others ∧ Step s taken next ∧
    ∀ name ∈ taken.getLast?, name.kind = .identifier → Follows others

/-- A token is rejected as the next one, whatever comes after it. -/
def Refused (s : Conversion) (token : Token) : Prop :=
  ∃ e, e.span = token.span ∧ ∀ others, s.run (token :: others) = .error (.rejected e)

theorem taken_or_refused {result : Except ConversionError Conversion} (rest : List Token)
    (h : Orderly token result) (hk : token.kind ≠ .identifier)
    (hstep : ∀ {next}, result = .ok next → Step s [token] next)
    (hrun : ∀ others, s.run (token :: others) = result >>= fun next => next.run others) :
    Taken s token rest ∨ Refused s token := by
  match result, h with
  | .ok next, _ =>
    refine .inl ⟨[token], rest, next, rfl, hstep rfl, ?_⟩
    rintro name ⟨⟩ hname
    exact absurd hname hk
  | .error (.rejected e), h => exact .inr ⟨e, h, hrun⟩

theorem taken_name {rest : List Token} (hs : s.expectsOperand = true)
    (hk : token.kind = .identifier) : Taken s token rest := by
  have hoperand : s.operand token =
      .ok { s with output := token :: s.output, expectsOperand := false } := by
    rw [Conversion.operand, if_pos hs]
  cases rest with
  | nil =>
    refine ⟨[token], [], _, rfl, .operand (.inr hk) hoperand, ?_⟩
    rintro _ _ _ _ ⟨⟩
  | cons opening rest =>
    by_cases ho : opening.kind = .openParen
    · have hcall : s.openCall token opening = .ok { s with
          stack := opening :: token :: s.stack
          frames := ⟨some token, 0⟩ :: s.frames } := by
        rw [Conversion.openCall, if_pos hs]
      refine ⟨[token, opening], rest, _, rfl, .openCall hk ho hcall, ?_⟩
      rintro name ⟨⟩ hname
      cases ho.symm.trans hname
    · exact ⟨[token], opening :: rest, _, rfl, .operand (.inr hk) hoperand,
        fun _ _ _ => follows_cons ho⟩

/-- A name after an operand is refused before it matters whether a parenthesis comes after it. -/
theorem refused_name (hs : s.expectsOperand = false) (hk : token.kind = .identifier) :
    Refused s token := by
  have hoperand : s.operand token = reject (.missingOperator token.raw) token.span := by
    simp [Conversion.operand, hs]
  have hcall : ∀ opening,
      s.openCall token opening = reject (.missingOperator token.raw) token.span := by
    simp [Conversion.openCall, hs]
  refine ⟨⟨.missingOperator token.raw, token.span⟩, rfl, fun others => ?_⟩
  cases others with
  | nil =>
    simp only [Conversion.run.eq_def _ [token], hk, hoperand]
    rfl
  | cons opening others =>
    simp only [Conversion.run.eq_def _ (token :: opening :: others), hk, hoperand, hcall]
    split <;> rfl

theorem refused_stray (hk : token.kind = .call ∨ token.kind = .negation) : Refused s token := by
  refine ⟨⟨.strayToken token.raw, token.span⟩, rfl, fun others => ?_⟩
  rcases hk with hk | hk <;>
  · simp only [Conversion.run.eq_def _ (token :: others), hk]
    rfl

/-- Every token of a text is taken or refused. -/
theorem step_or_refused (rest : List Token) (h : Stacked s.frames s.stack)
    (htoken : token.Scanned) : Taken s token rest ∨ Refused s token := by
  have hrun := fun others => Conversion.run.eq_def s (token :: others)
  cases hk : token.kind with
  | number =>
    exact taken_or_refused rest (operand_orderly h) (by simp [hk]) (.operand (.inl hk))
      fun others => by simp only [hrun, hk]
  | identifier =>
    cases hs : s.expectsOperand with
    | true => exact .inl (taken_name hs hk)
    | false => exact .inr (refused_name hs hk)
  | operator =>
    obtain ⟨c, hc, hvalue⟩ := htoken.sign hk
    obtain ⟨o, ho⟩ := findOperator_sign hc
    have hknown := operator_known (s := s) (by rw [hvalue, ho]) h
    exact taken_or_refused rest (operator_orderly h hk hknown) (by simp [hk]) (.operator hk)
      fun others => by simp only [hrun, hk]
  | openParen =>
    exact taken_or_refused rest (openParen_orderly h hk) (by simp [hk]) (.openParen hk)
      fun others => by simp only [hrun, hk]
  | closeParen =>
    exact taken_or_refused rest (closeParen_orderly h) (by simp [hk]) (.closeParen hk)
      fun others => by simp only [hrun, hk]
  | comma =>
    exact taken_or_refused rest (comma_orderly h) (by simp [hk]) (.comma hk)
      fun others => by simp only [hrun, hk]
  | call => exact .inr (refused_stray (.inl hk))
  | negation => exact .inr (refused_stray (.inr hk))
  | endOfInput => exact absurd hk htoken.inner

end

theorem Follows.same_head {before after others : List Token} {token : Token}
    (h : Follows (before ++ token :: after)) : Follows (before ++ token :: others) := by
  cases before with
  | nil => exact h
  | cons first before => exact h

theorem read_or_refused {s : Conversion} {ts : List Token} (h : Stacked s.frames s.stack)
    (hts : ∀ token ∈ ts, token.Scanned) :
    (∃ last, Steps s ts last) ∨
    ∃ before token after last e, ts = before ++ token :: after ∧ Steps s before last ∧
      e.span = token.span ∧
      ∀ others, s.run (before ++ token :: others) = .error (.rejected e) := by
  induction hn : ts.length using Nat.strong_induction_on generalizing s ts with
  | _ n ih =>
    cases ts with
    | nil => exact .inl ⟨s, .refl s⟩
    | cons token rest =>
      obtain ⟨taken, others, next, hall, hstep, hname⟩ | ⟨e, hspan, hrun⟩ :=
        step_or_refused rest h (hts token (by simp))
      · have hpositive : 0 < taken.length := by
          rcases hstep.taken with ⟨_, rfl⟩ | ⟨_, _, rfl, _⟩ <;> simp
        have hlength : others.length < n := by
          rw [← hn, hall, List.length_append]
          omega
        have hothers : ∀ t ∈ others, t.Scanned :=
          fun t ht => hts t (by rw [hall]; exact List.mem_append_right _ ht)
        obtain ⟨last, hsteps⟩ | ⟨before, refused, after, last, e, rfl, hsteps, hspan, hrun⟩ :=
          ih others.length hlength (hstep.stacked h) hothers rfl
        · exact .inl ⟨last, by rw [hall]; exact .cons hstep hsteps⟩
        · refine .inr ⟨taken ++ before, refused, after, last, e, by rw [hall, List.append_assoc],
            .cons hstep hsteps, hspan, fun others => ?_⟩
          rw [List.append_assoc,
            run_of_step hstep (fun name hlast hk => (hname name hlast hk).same_head), hrun]
      · exact .inr ⟨[], token, rest, s, e, rfl, .refl s, hspan, hrun⟩

theorem not_identifier_of_refused {token : Token} {e : ParseError}
    (h : ∀ others, Conversion.start.run (token :: others) = .error (.rejected e)) :
    token.kind ≠ .identifier := by
  intro hk
  have hstop := h [.written .endOfInput "" 0]
  have hread : Conversion.start.run [token, .written .endOfInput "" 0] = .ok [token] := by
    have hstep : Step .start [token] ⟨[token], [], [], false⟩ := .operand (.inr hk) rfl
    have hfollows : Follows [.written .endOfInput "" 0] := follows_cons (by decide)
    exact run_of_steps hstep.steps hfollows
  rw [hread] at hstop
  cases hstop

theorem barred_of_refused {lead before after : List Token} {token : Token} {target : Option Token}
    {e : ParseError} (hlead : Leads lead target (before ++ token :: after))
    (h : ∀ others, Conversion.start.run (before ++ token :: others) = .error (.rejected e)) :
    Barred (lead ++ before ++ [token]) := by
  intro source rest accepted haccepted
  have hshort : Leads lead target (before ++ [token]) := by
    rw [List.append_cons] at hlead
    exact hlead.shorter
  have hlong : Leads lead target (before ++ token :: rest) := by
    rw [List.append_cons]
    refine hshort.append (by simp) ?_
    intro name hone hk
    obtain ⟨rfl, ⟨⟩⟩ := List.append_eq_singleton_iff.mp hone |>.resolve_right (by simp)
    exact absurd hk (not_identifier_of_refused h)
  have hrun := (run_of_ofTokens haccepted).2
  rw [show lead ++ before ++ [token] ++ rest = lead ++ (before ++ token :: rest) by simp,
    hlong.split, h] at hrun
  cases hrun

end Reckoner
