import Reckoner.Expression
import Reckoner.Proofs.Results

namespace Reckoner

/-- One round of a conversion, and the tokens that it takes. -/
inductive Step (s : Conversion) : List Token → Conversion → Prop
  | operand {token : Token} {next : Conversion} :
      token.kind = .number ∨ token.kind = .identifier → s.operand token = .ok next →
      Step s [token] next
  | openCall {callee opening : Token} {next : Conversion} :
      callee.kind = .identifier → opening.kind = .openParen →
      s.openCall callee opening = .ok next → Step s [callee, opening] next
  | operator {token : Token} {next : Conversion} :
      token.kind = .operator → s.operator token = .ok next → Step s [token] next
  | openParen {token : Token} {next : Conversion} :
      token.kind = .openParen → s.openParen token = .ok next → Step s [token] next
  | closeParen {token : Token} {next : Conversion} :
      token.kind = .closeParen → s.closeParen token = .ok next → Step s [token] next
  | comma {token : Token} {next : Conversion} :
      token.kind = .comma → s.comma token = .ok next → Step s [token] next

inductive Steps : Conversion → List Token → Conversion → Prop
  | refl (s : Conversion) : Steps s [] s
  | cons {s next last : Conversion} {taken ts : List Token} :
      Step s taken next → Steps next ts last → Steps s (taken ++ ts) last

/-- A conversion that succeeds takes its tokens step by step up to the end of the input. -/
theorem steps_of_run {s : Conversion} {tokens program : List Token}
    (h : s.run tokens = .ok program) :
    ∃ body stop rest last, tokens = body ++ stop :: rest ∧ stop.kind = .endOfInput ∧
      Steps s body last ∧ last.finish stop = .ok program := by
  have advance : ∀ {s next : Conversion} {taken rest : List Token}, Step s taken next →
      (∃ body stop rest' last, rest = body ++ stop :: rest' ∧ stop.kind = .endOfInput ∧
        Steps next body last ∧ last.finish stop = .ok program) →
      ∃ body stop rest' last, taken ++ rest = body ++ stop :: rest' ∧ stop.kind = .endOfInput ∧
        Steps s body last ∧ last.finish stop = .ok program := by
    intro s next taken rest hstep ⟨body, stop, rest', last, htokens, hk, hsteps, hfinish⟩
    exact ⟨taken ++ body, stop, rest', last, by rw [htokens, List.append_assoc], hk,
      .cons hstep hsteps, hfinish⟩
  fun_induction Conversion.run s tokens with
  | case1 s => cases h
  | case2 s token rest hk => exact ⟨[], token, rest, s, rfl, hk, .refl s, h⟩
  | case3 s token rest hk ih =>
    obtain ⟨next, hn, h⟩ := bind_eq_ok h
    exact advance (.operand (.inl hk) hn) (ih next h)
  | case4 s token hk ih =>
    obtain ⟨next, hn, h⟩ := bind_eq_ok h
    exact advance (.operand (.inr hk) hn) (ih next h)
  | case5 s token hk opening rest ho ih =>
    obtain ⟨next, hn, h⟩ := bind_eq_ok h
    exact advance (.openCall hk ho hn) (ih next h)
  | case6 s token hk other rest _ ih =>
    obtain ⟨next, hn, h⟩ := bind_eq_ok h
    exact advance (.operand (.inr hk) hn) (ih next h)
  | case7 s token rest hk ih =>
    obtain ⟨next, hn, h⟩ := bind_eq_ok h
    exact advance (.operator hk hn) (ih next h)
  | case8 s token rest hk ih =>
    obtain ⟨next, hn, h⟩ := bind_eq_ok h
    exact advance (.openParen hk hn) (ih next h)
  | case9 s token rest hk ih =>
    obtain ⟨next, hn, h⟩ := bind_eq_ok h
    exact advance (.closeParen hk hn) (ih next h)
  | case10 s token rest hk ih =>
    obtain ⟨next, hn, h⟩ := bind_eq_ok h
    exact advance (.comma hk hn) (ih next h)
  | case11 s token rest hk => cases h
  | case12 s token rest hk => cases h

/-- What comes next does not make a name the name of a call. -/
def Follows (rest : List Token) : Prop :=
  ∀ next ∈ rest.head?, next.kind ≠ .openParen

theorem follows_cons {next : Token} {rest : List Token} (h : next.kind ≠ .openParen) :
    Follows (next :: rest) := by
  intro token ht
  cases Option.some.inj ht
  exact h

theorem Step.follows {s next : Conversion} {taken : List Token} (h : Step s taken next)
    (hs : s.expectsOperand = false) (rest : List Token) : Follows (taken ++ rest) := by
  cases h with
  | operand hk _ => rcases hk with hk | hk <;> exact follows_cons (by rw [hk]; decide)
  | openCall hk _ _ => exact follows_cons (by rw [hk]; decide)
  | operator hk _ => exact follows_cons (by rw [hk]; decide)
  | openParen _ hn => simp [Conversion.openParen, hs, reject] at hn
  | closeParen hk _ => exact follows_cons (by rw [hk]; decide)
  | comma hk _ => exact follows_cons (by rw [hk]; decide)

theorem Steps.follows {s last : Conversion} {ts rest : List Token} (h : Steps s ts last)
    (hs : s.expectsOperand = false) (hrest : Follows rest) : Follows (ts ++ rest) := by
  cases h with
  | refl => exact hrest
  | cons hstep _ =>
    rw [List.append_assoc]
    exact hstep.follows hs _

/-- An operand is complete after a name that opens no call. -/
theorem Step.complete_of_name {s next : Conversion} {taken : List Token} (h : Step s taken next) :
    ∀ name ∈ taken.getLast?, name.kind = .identifier → next.expectsOperand = false := by
  intro name hname hk
  cases h with
  | operand _ hn =>
    unfold Conversion.operand at hn
    split at hn <;> cases hn
    rfl
  | openCall _ ho _ => cases hname; cases ho.symm.trans hk
  | operator ho _ => cases hname; cases ho.symm.trans hk
  | openParen ho _ => cases hname; cases ho.symm.trans hk
  | closeParen ho _ => cases hname; cases ho.symm.trans hk
  | comma ho _ => cases hname; cases ho.symm.trans hk

/-- A step is the first one of a run, whatever comes after it, but that no parenthesis comes after a
name which opens no call. -/
theorem run_of_step {s next : Conversion} {taken rest : List Token} (h : Step s taken next)
    (hrest : ∀ name ∈ taken.getLast?, name.kind = .identifier → Follows rest) :
    s.run (taken ++ rest) = next.run rest := by
  cases h with
  | @operand token next hk hn =>
    rcases hk with hk | hk
    · simp only [List.singleton_append, Conversion.run.eq_def _ (token :: rest), hk, hn]
      rfl
    · cases rest with
      | nil =>
        simp only [List.singleton_append, Conversion.run.eq_def _ [token], hk, hn]
        rfl
      | cons other rest =>
        have hother : other.kind ≠ .openParen := hrest token rfl hk other rfl
        simp only [List.singleton_append, Conversion.run.eq_def _ (token :: other :: rest), hk,
          if_neg hother, hn]
        rfl
  | @openCall callee opening next hk ho hn =>
    simp only [List.cons_append, List.nil_append,
      Conversion.run.eq_def _ (callee :: opening :: rest), hk, if_pos ho, hn]
    rfl
  | @operator token next hk hn =>
    simp only [List.singleton_append, Conversion.run.eq_def _ (token :: rest), hk, hn]
    rfl
  | @openParen token next hk hn =>
    simp only [List.singleton_append, Conversion.run.eq_def _ (token :: rest), hk, hn]
    rfl
  | @closeParen token next hk hn =>
    simp only [List.singleton_append, Conversion.run.eq_def _ (token :: rest), hk, hn]
    rfl
  | @comma token next hk hn =>
    simp only [List.singleton_append, Conversion.run.eq_def _ (token :: rest), hk, hn]
    rfl

/-- Only a name needs to know the token that comes after it. -/
theorem run_of_token {s next : Conversion} {token : Token} (h : Step s [token] next)
    (hk : token.kind ≠ .identifier) (rest : List Token) :
    s.run (token :: rest) = next.run rest := by
  have hname : ∀ name ∈ [token].getLast?, name.kind = .identifier → Follows rest := by
    rintro name ⟨⟩ h
    exact absurd h hk
  exact run_of_step h hname

theorem run_of_steps {s last : Conversion} {ts rest : List Token} (h : Steps s ts last)
    (hrest : Follows rest) : s.run (ts ++ rest) = last.run rest := by
  induction h with
  | refl => rfl
  | @cons s next last taken ts hstep hsteps ih =>
    have hname : ∀ name ∈ taken.getLast?, name.kind = .identifier → Follows (ts ++ rest) :=
      fun name hlast hk => hsteps.follows (hstep.complete_of_name name hlast hk) hrest
    rw [List.append_assoc, run_of_step hstep hname, ih]

theorem run_endOfInput {s : Conversion} {stop : Token} {rest : List Token}
    (hk : stop.kind = .endOfInput) : s.run (stop :: rest) = s.finish stop := by
  simp only [Conversion.run.eq_def _ (stop :: rest), hk]

theorem Steps.trans {s next last : Conversion} {ts us : List Token} (h : Steps s ts next)
    (h' : Steps next us last) : Steps s (ts ++ us) last := by
  induction h with
  | refl => exact h'
  | cons hstep hsteps ih =>
    rw [List.append_assoc]
    exact .cons hstep (ih h')

theorem Step.steps {s next : Conversion} {taken : List Token} (h : Step s taken next) :
    Steps s taken next := by
  simpa using Steps.cons h (.refl next)

end Reckoner
