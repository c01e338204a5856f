import Reckoner.Proofs.OperatorStack
import Reckoner.Proofs.Scanning
import Reckoner.Proofs.Steps

namespace Reckoner

/-- The tokens before an operand, with the output, stack and frames that they lead to and the level
at which the operand is wanted. An operator here has its left operand, and a call all arguments
before the current one. -/
inductive Awaits : List Token → List Token → List Token → List Frame → Level → Prop
  | start : Awaits [] [] [] [] .sum
  | plus {ts output stack : List Token} {frames : List Frame} {level : Level} {sign : Token} :
      Awaits ts output stack frames level → sign.IsSign "+" →
      Awaits (ts ++ [sign]) output stack frames .signed
  | negation {ts output stack : List Token} {frames : List Frame} {level : Level}
      {sign : Token} :
      Awaits ts output stack frames level → sign.IsSign "-" →
      Awaits (ts ++ [sign]) output (sign.toNegation :: stack) frames .signed
  | operator {ts us output stack : List Token} {frames : List Frame} {level : Level}
      (op : BinarySign) {left : Tree} {sign : Token} :
      Awaits ts output stack frames level → level.rank ≤ op.level.rank →
      Spells true op.leftLevel us left → sign.IsSign op.text →
      Awaits (ts ++ us ++ [sign]) (left.postorder.reverse ++ output) (sign :: stack) frames
        op.rightLevel
  | group {ts output stack : List Token} {frames : List Frame} {level : Level} {opening : Token} :
      Awaits ts output stack frames level → opening.kind = .openParen →
      Awaits (ts ++ [opening]) output (opening :: stack) (⟨none, 0⟩ :: frames) .sum
  | arguments {ts us output stack : List Token} {frames : List Frame} {level : Level}
      {args : List Tree} {callee opening : Token} :
      Awaits ts output stack frames level → callee.kind = .identifier →
      opening.kind = .openParen → SpellsArguments true us args →
      Awaits (ts ++ callee :: opening :: us) ((postorders args).reverse ++ output)
        (opening :: callee :: stack) (⟨some callee, args.length⟩ :: frames) .sum

section
variable {ts us output stack : List Token} {frames : List Frame} {level : Level}

theorem Awaits.rank_le (h : Awaits ts output stack frames level) :
    level.rank ≤ Level.signed.rank := by
  cases h with
  | operator op => cases op <;> decide
  | _ => decide

theorem Awaits.stack_below (h : Awaits ts output stack frames level) :
    Below level.ceiling stack := by
  induction h with
  | start => trivial
  | plus h hsign ih => exact ih.mono (Level.ceiling_mono h.rank_le)
  | negation h hsign ih => exact .inr ⟨3, waits_toNegation _, by decide⟩
  | operator op h hle hl hsign ih => exact .inr ⟨_, hsign.waits, by cases op <;> decide⟩
  | group h ho ih => exact below_openParen ho
  | arguments h hn ho ha ih => exact below_openParen ho

/-- How far back an operand reaches once the operators that bind more tightly than those of the
level `goal` are released: the tokens before it and the operand that it becomes. -/
def Settles (goal : Level) (ts us : List Token) (tree : Tree) (output stack : List Token)
    (frames : List Frame) : Prop :=
  ∃ ts' us' tree' output' stack' level waiting, ts' ++ us' = ts ++ us ∧
    Awaits ts' output' stack' frames level ∧ level.rank ≤ goal.rank ∧ Spells true goal us' tree' ∧
    stack = waiting ++ stack' ∧ Pending goal.floor waiting ∧
    tree'.postorder.reverse ++ output' = waiting.reverse ++ (tree.postorder.reverse ++ output)

theorem Awaits.settles_here {goal tight : Level} {tree : Tree}
    (h : Awaits ts output stack frames level) (hlevel : level.rank ≤ goal.rank)
    (hs : Spells true tight us tree) (hgoal : goal.rank ≤ tight.rank) :
    Settles goal ts us tree output stack frames :=
  ⟨ts, us, tree, output, stack, level, [], rfl, h, hlevel, .loosen hgoal hs, rfl, pending_nil,
    by simp⟩

theorem Awaits.settles {goal tight : Level} {tree : Tree} (hgoal : goal.rank ≤ Level.product.rank)
    (h : Awaits ts output stack frames level) (hs : Spells true tight us tree)
    (hlevel : level.rank ≤ tight.rank) (htight : goal.rank ≤ tight.rank) :
    Settles goal ts us tree output stack frames := by
  have hsigned : goal.rank ≤ Level.signed.rank := Nat.le_trans hgoal (by decide)
  induction h generalizing us tree tight with
  | start => exact Awaits.start.settles_here (Nat.zero_le _) hs htight
  | plus h hsign ih =>
    obtain ⟨ts', us', tree', output', stack', level', waiting, htokens, hrest⟩ :=
      ih (.plus hsign (.loosen hlevel hs)) h.rank_le hsigned
    exact ⟨ts', us', tree', output', stack', level', waiting, by simpa using htokens, hrest⟩
  | @negation ts output stack frames level sign h hsign ih =>
    obtain ⟨ts', us', tree', output', stack', level', waiting, htokens, ha, hle, hs', hstack, hw,
      hout⟩ := ih (.negation hsign (.loosen hlevel hs)) h.rank_le hsigned
    have hfloor : Pending goal.floor [sign.toNegation] :=
      (Pending.negation sign).mono (Level.floor_mono hsigned)
    refine ⟨ts', us', tree', output', stack', level', sign.toNegation :: waiting,
      by simpa using htokens, ha, hle, hs', by rw [hstack]; rfl, hfloor.append hw, ?_⟩
    rw [hout]
    simp [Token.toNegation, negationKey]
  | @operator ts vs output stack frames level op left sign h hle hl hsign ih =>
    by_cases hrel : goal.rank ≤ op.level.rank
    · have hright : Spells true op.rightLevel us tree := .loosen hlevel hs
      obtain ⟨ts', us', tree', output', stack', level', waiting, htokens, ha, hle', hs', hstack, hw,
        hout⟩ := ih (.binary op hsign hl hright) hle hrel
      have hfloor : Pending goal.floor [sign] := (Pending.sign hsign).mono (Level.floor_mono hrel)
      refine ⟨ts', us', tree', output', stack', level', sign :: waiting,
        by simpa using htokens, ha, hle', hs', by rw [hstack]; rfl, hfloor.append hw, ?_⟩
      rw [hout]
      simp
    · -- only a sum under a product is left where it is
      have hstop : op.rightLevel.rank ≤ goal.rank := by
        revert hrel hgoal
        cases op <;> cases goal <;> decide
      exact (Awaits.operator op h hle hl hsign).settles_here hstop hs htight
  | group h ho ih => exact (Awaits.group h ho).settles_here (Nat.zero_le _) hs htight
  | arguments h hn ho ha ih =>
    exact (Awaits.arguments h hn ho ha).settles_here (Nat.zero_le _) hs htight

end

/-- The tokens read so far, with the conversion that they lead to: an operand is wanted, or one with
its factorial marks is complete. -/
inductive HasRead (ts : List Token) : Conversion → Prop
  | awaiting {output stack : List Token} {frames : List Frame} {level : Level} :
      Awaits ts output stack frames level → HasRead ts ⟨output, stack, frames, true⟩
  | complete {before us output out stack : List Token} {frames : List Frame} {level : Level}
      {tree : Tree} :
      Awaits before output stack frames level → Spells true .marked us tree →
      before ++ us = ts → out = tree.postorder.reverse ++ output →
      HasRead ts ⟨out, stack, frames, false⟩

section
variable {ts : List Token} {s next : Conversion}

theorem HasRead.primary {before us output out stack : List Token} {frames : List Frame}
    {level : Level} {tree : Tree} (h : Awaits before output stack frames level)
    (hs : Spells true .primary us tree) (hout : out = tree.postorder.reverse ++ output) :
    HasRead (before ++ us) ⟨out, stack, frames, false⟩ :=
  .complete h (.loosen (by decide) hs) rfl hout

theorem HasRead.operand {token : Token} (h : HasRead ts s)
    (hk : token.kind = .number ∨ token.kind = .identifier) (hn : s.operand token = .ok next) :
    HasRead (ts ++ [token]) next := by
  cases h with
  | awaiting h =>
    cases hn
    rcases hk with hk | hk
    · exact .primary h (.number token hk) rfl
    · exact .primary h (.name token hk) rfl
  | complete => cases hn

theorem HasRead.openCall {callee opening : Token} (h : HasRead ts s)
    (hc : callee.kind = .identifier) (ho : opening.kind = .openParen)
    (hn : s.openCall callee opening = .ok next) : HasRead (ts ++ [callee, opening]) next := by
  cases h with
  | awaiting h =>
    cases hn
    exact .awaiting (.arguments h hc ho .nil)
  | complete => cases hn

theorem HasRead.openParen {token : Token} (h : HasRead ts s) (hk : token.kind = .openParen)
    (hn : s.openParen token = .ok next) : HasRead (ts ++ [token]) next := by
  cases h with
  | awaiting h =>
    cases hn
    exact .awaiting (.group h hk)
  | complete => cases hn

/-- The keys of the table other than those of the binary operators. -/
theorem binarySign_of_findOperator {key : String} {o : Operator} (h : findOperator? key = some o)
    (hassign : key ≠ "=") (hmark : key ≠ "!") (hneg : key ≠ negationKey) :
    ∃ op : BinarySign, key = op.text := by
  obtain ⟨entry, hfind, _⟩ := Option.map_eq_some_iff.mp h
  have hkey : entry.1 = key := by simpa using List.find?_some hfind
  have hmem := List.mem_of_find?_eq_some hfind
  simp only [operators, List.mem_cons, List.not_mem_nil, or_false] at hmem
  rcases hmem with rfl | rfl | rfl | rfl | rfl | rfl | rfl | rfl
  · exact absurd hkey.symm hassign
  · exact ⟨.plus, hkey.symm⟩
  · exact ⟨.minus, hkey.symm⟩
  · exact ⟨.times, hkey.symm⟩
  · exact ⟨.over, hkey.symm⟩
  · exact absurd hkey.symm hneg
  · exact ⟨.power, hkey.symm⟩
  · exact absurd hkey.symm hmark

/-- Where an operator comes next, the operand before it reaches back over what it releases. -/
theorem Awaits.settles_operator {before us output stack : List Token} {frames : List Frame}
    {level : Level} {tree : Tree} (op : BinarySign) (h : Awaits before output stack frames level)
    (hs : Spells true .marked us tree) :
    Settles op.leftLevel before us tree output stack frames := by
  have hrank := h.rank_le
  by_cases hop : op.leftLevel.rank ≤ Level.product.rank
  · exact h.settles hop hs (Nat.le_trans hrank (by decide)) (Nat.le_trans hop (by decide))
  · have hpower : op.leftLevel = .marked := by
      revert hop
      cases op <;> decide
    rw [hpower]
    exact h.settles_here (Nat.le_trans hrank (by decide)) hs (Nat.le_refl _)

theorem HasRead.operator {token : Token} (h : HasRead ts s) (hk : token.kind = .operator)
    (hneg : token.value ≠ negationKey) (hn : s.operator token = .ok next) :
    HasRead (ts ++ [token]) next := by
  have hassign : token.value ≠ "=" := by
    intro heq
    simp [Conversion.operator, heq, reject] at hn
  cases h with
  | awaiting h =>
    by_cases hminus : token.value = "-"
    · rw [operator_negation ⟨hk, hminus⟩] at hn
      cases hn
      exact .awaiting (.negation h ⟨hk, hminus⟩)
    by_cases hplus : token.value = "+"
    · rw [operator_plus ⟨hk, hplus⟩] at hn
      cases hn
      exact .awaiting (.plus h ⟨hk, hplus⟩)
    by_cases hmark : token.value = "!" <;>
      simp [Conversion.operator, hassign, hminus, hplus, hmark, reject] at hn
  | complete h hs hts hout =>
    subst hts hout
    by_cases hmark : token.value = "!"
    · rw [operator_factorial ⟨hk, hmark⟩] at hn
      cases hn
      exact .complete h (.factorial ⟨hk, hmark⟩ hs) (by simp) (by simp)
    cases hfind : findOperator? token.value with
    | none => simp [Conversion.operator, hassign, hmark, hfind] at hn
    | some o =>
      obtain ⟨op, hop⟩ := binarySign_of_findOperator hfind hassign hmark hneg
      obtain ⟨ts', us', tree', output', stack', level', waiting, htokens, ha, hle, hs', hstack, hw,
        hpost⟩ := h.settles_operator op hs
      have hfloor : level'.ceiling ≤ op.leftLevel.floor := by
        have := ha.rank_le
        revert this hle
        cases op <;> cases level' <;> decide
      rw [hstack, operator_binary ⟨hk, hop⟩ hw (ha.stack_below.mono hfloor)] at hn
      cases hn
      have hlevel : level'.rank ≤ op.level.rank := by
        have := ha.rank_le
        revert this hle
        cases op <;> cases level' <;> decide
      rw [← htokens, ← hpost]
      exact .awaiting (.operator op ha hlevel hs' ⟨hk, hop⟩)

/-- What stands before the operand that a parenthesis, a comma or the end of the input completes:
nothing, an open parenthesis, or the arguments of a call before it. The operators of that operand
wait on the stack. -/
inductive Reaches : List Token → List Token → List Token → List Frame → Prop
  | start {us out waiting : List Token} {tree : Tree} :
      Spells true .sum us tree → Pending Level.sum.floor waiting →
      waiting.reverse ++ out = tree.postorder.reverse → Reaches us out waiting []
  | group {ts us output out stack waiting : List Token} {frames : List Frame} {level : Level}
      {opening : Token} {tree : Tree} :
      Awaits ts output stack frames level → opening.kind = .openParen → Spells true .sum us tree →
      Pending Level.sum.floor waiting → waiting.reverse ++ out = tree.postorder.reverse ++ output →
      Reaches (ts ++ opening :: us) out (waiting ++ opening :: stack) (⟨none, 0⟩ :: frames)
  | arguments {ts us vs output out stack waiting : List Token} {frames : List Frame}
      {level : Level} {args : List Tree} {callee opening : Token} {tree : Tree} :
      Awaits ts output stack frames level → callee.kind = .identifier →
      opening.kind = .openParen → SpellsArguments true us args → Spells true .sum vs tree →
      Pending Level.sum.floor waiting →
      waiting.reverse ++ out = tree.postorder.reverse ++ ((postorders args).reverse ++ output) →
      Reaches (ts ++ callee :: opening :: us ++ vs) out (waiting ++ opening :: callee :: stack)
        (⟨some callee, args.length⟩ :: frames)

theorem HasRead.reaches {output stack : List Token} {frames : List Frame}
    (h : HasRead ts ⟨output, stack, frames, false⟩) : Reaches ts output stack frames := by
  cases h with
  | complete h hs hts hout =>
    obtain ⟨ts', us', tree', output', stack', level', waiting, htokens, ha, hle, hs', hstack, hw,
      hpost⟩ := h.settles (by decide : Level.sum.rank ≤ Level.product.rank) hs
        (Nat.le_trans h.rank_le (by decide)) (by decide)
    subst hstack hout
    rw [← hts, ← htokens]
    cases ha with
    | start =>
      rw [List.append_nil] at hpost ⊢
      exact .start hs' hw hpost.symm
    | plus => exact absurd hle (by decide)
    | negation => exact absurd hle (by decide)
    | operator op => exact absurd hle (by cases op <;> decide)
    | group ha ho => simpa using Reaches.group ha ho hs' hw hpost.symm
    | arguments ha hc ho hargs =>
      simpa using Reaches.arguments ha hc ho hargs hs' hw hpost.symm

theorem HasRead.comma {token : Token} (h : HasRead ts s) (hk : token.kind = .comma)
    (hn : s.comma token = .ok next) : HasRead (ts ++ [token]) next := by
  cases h with
  | @awaiting output stack frames level h =>
    unfold Conversion.comma at hn
    split at hn <;> cases hn
  | complete h hs hts hout =>
    have hreaches := (HasRead.complete h hs hts hout).reaches
    clear h hs hts hout
    cases hreaches with
    | start => cases hn
    | group => cases hn
    | arguments ha hc ho hargs hs hw hpost =>
      rw [comma_argument hw ho, hpost] at hn
      cases hn
      have hnext := Awaits.arguments ha hc ho (.concat hargs hs hk)
      rw [postorders_concat, List.reverse_append, List.append_assoc, List.length_append] at hnext
      simpa using HasRead.awaiting hnext

theorem SpellsArguments.eq_nil {lenient : Bool} {us : List Token}
    (h : SpellsArguments lenient us []) : us = [] := by
  generalize hargs : ([] : List Tree) = args at h
  cases h with
  | nil => rfl
  | concat => simp at hargs

/-- Above the parenthesis that opens a call there may be plus signs, which leave no trace. -/
theorem Awaits.emptyCall {output stack : List Token} {frames : List Frame} {level : Level}
    {callee top : Token} (h : Awaits ts output (top :: stack) (⟨some callee, 0⟩ :: frames) level)
    (htop : top.kind = .openParen) :
    ∃ before opening signs rest level', ts = before ++ callee :: opening :: signs ∧
      callee.kind = .identifier ∧ opening.kind = .openParen ∧ (∀ sign ∈ signs, sign.IsSign "+") ∧
      stack = callee :: rest ∧ Awaits before output rest frames level' := by
  generalize hst : top :: stack = whole at h
  generalize hfr : (⟨some callee, 0⟩ :: frames : List Frame) = open_ at h
  induction h with
  | start => cases hst
  | @plus ts output stack frames level sign h hsign ih =>
    obtain ⟨before, opening, signs, rest, level', hts, hc, ho, hsigns, hrest, ha⟩ := ih hst hfr
    refine ⟨before, opening, signs ++ [sign], rest, level', by simp [hts], hc, ho, ?_, hrest, ha⟩
    intro sign hs
    rcases List.mem_append.mp hs with hs | hs
    · exact hsigns sign hs
    · rw [List.mem_singleton.mp hs]
      exact hsign
  | negation => cases hst; cases htop
  | operator op h hle hl hsign => cases hst; rw [hsign.1] at htop; cases htop
  | group => cases hfr
  | @arguments before us output rest frames level args callee opening h hc ho hargs ih =>
    cases hst
    obtain ⟨hframe, hframes⟩ := List.cons.inj hfr
    obtain ⟨hcallee, hlen⟩ := Frame.mk.inj hframe
    cases Option.some.inj hcallee
    subst hframes
    have hargs' : args = [] := List.eq_nil_of_length_eq_zero hlen.symm
    subst hargs'
    have hus : us = [] := hargs.eq_nil
    subst hus
    exact ⟨before, top, [], rest, level, rfl, hc, ho, by simp, rfl, h⟩

/-- Where an operand is wanted, a parenthesis closes a call that nothing was read in, and nothing
else. -/
theorem closeParen_wanted {output stack : List Token} {frames : List Frame} {token : Token}
    (hn : Conversion.closeParen ⟨output, stack, frames, true⟩ token = .ok next) :
    ∃ callee top below others, stack = top :: below ∧ frames = ⟨some callee, 0⟩ :: others ∧
      top.kind = .openParen := by
  match frames, stack with
  | [], _ => cases hn
  | ⟨none, commas⟩ :: frames, _ => cases hn
  | ⟨some callee, commas + 1⟩ :: frames, _ => cases hn
  | ⟨some callee, 0⟩ :: frames, [] => cases hn
  | ⟨some callee, 0⟩ :: frames, top :: stack =>
    by_cases htop : top.kind = .openParen
    · exact ⟨callee, top, stack, frames, rfl, rfl, htop⟩
    · simp [Conversion.closeParen, Conversion.closingCount, htop, reject] at hn

theorem HasRead.closeParen {token : Token} (h : HasRead ts s) (hk : token.kind = .closeParen)
    (hn : s.closeParen token = .ok next) : HasRead (ts ++ [token]) next := by
  cases h with
  | @awaiting output stack frames level h =>
    obtain ⟨callee, top, below, others, rfl, rfl, htop⟩ := closeParen_wanted hn
    obtain ⟨before, opening, signs, rest, level', hts, hc, ho, hsigns, hrest, ha⟩ :=
      h.emptyCall htop
    subst hts hrest
    rw [closeParen_emptyCall htop] at hn
    cases hn
    have hspells : Spells true .primary _ (.call callee token hc hk []) :=
      .emptyCall hc hk ho (fun sign hs => ⟨rfl, hsigns sign hs⟩)
    have hread := HasRead.primary ha hspells rfl
    simpa [Token.toCall] using hread
  | complete h hs hts hout =>
    have hreaches := (HasRead.complete h hs hts hout).reaches
    clear h hs hts hout
    cases hreaches with
    | start => cases hn
    | group ha ho hs hw hpost =>
      rw [closeParen_group hw ho, hpost] at hn
      cases hn
      simpa using HasRead.primary ha (.group ho hk hs) rfl
    | arguments ha hc ho hargs hs hw hpost =>
      rw [closeParen_call hw ho, hpost] at hn
      cases hn
      have hread := HasRead.primary ha (.call hc hk ho hargs hs) rfl
      simpa [Token.toCall] using hread

/-- Operator tokens of a text never look like the key of the negation. -/
def NoKey (tokens : List Token) : Prop :=
  ∀ token ∈ tokens, token.kind = .operator → token.value ≠ negationKey

theorem HasRead.step {taken : List Token} (h : HasRead ts s) (hstep : Step s taken next)
    (hkey : NoKey taken) : HasRead (ts ++ taken) next := by
  cases hstep with
  | operand hk hn => exact h.operand hk hn
  | openCall hk ho hn => exact h.openCall hk ho hn
  | @operator token next hk hn => exact h.operator hk (hkey token (by simp) hk) hn
  | openParen hk hn => exact h.openParen hk hn
  | closeParen hk hn => exact h.closeParen hk hn
  | comma hk hn => exact h.comma hk hn

theorem HasRead.steps {us : List Token} {last : Conversion} (hsteps : Steps s us last)
    (hkey : NoKey us) (h : HasRead ts s) : HasRead (ts ++ us) last := by
  induction hsteps generalizing ts with
  | refl => simpa using h
  | cons hstep hsteps ih =>
    have htaken := h.step hstep (fun token ht => hkey token (List.mem_append_left _ ht))
    have hread := ih (fun token ht => hkey token (List.mem_append_right _ ht)) htaken
    simpa using hread

/-- At the end of the input no parenthesis is open and all that was read is one operand. -/
theorem HasRead.finish {stop : Token} {program : List Token} (h : HasRead ts s)
    (hn : s.finish stop = .ok program) :
    ∃ tree, Spells true .sum ts tree ∧ program = tree.postorder := by
  cases h with
  | awaiting => cases hn
  | complete h hs hts hout =>
    have hreaches := (HasRead.complete h hs hts hout).reaches
    clear h hs hts hout
    cases hreaches with
    | @start us out waiting tree hs hw hpost =>
      rw [finish_operand hw] at hn
      cases hn
      refine ⟨tree, hs, ?_⟩
      apply List.reverse_inj.mp
      simpa using hpost
    | group ha ho hs hw =>
      rw [finish_unclosed hw ho] at hn
      cases hn
    | arguments ha hc ho hargs hs hw =>
      rw [finish_unclosed hw ho] at hn
      cases hn

end

theorem spells_of_run {tokens program : List Token} (hkey : NoKey tokens)
    (h : Conversion.start.run tokens = .ok program) :
    ∃ ts stop rest tree, tokens = ts ++ stop :: rest ∧ stop.kind = .endOfInput ∧
      Spells true .sum ts tree ∧ program = tree.postorder := by
  obtain ⟨ts, stop, rest, last, htokens, hk, hsteps, hfinish⟩ := steps_of_run h
  have hts : NoKey ts := by
    intro token ht
    exact hkey token (by rw [htokens]; exact List.mem_append_left _ ht)
  have hread : HasRead ts last := HasRead.steps hsteps hts (.awaiting .start)
  obtain ⟨tree, hs, hprogram⟩ := hread.finish hfinish
  exact ⟨ts, stop, rest, tree, htokens, hk, hs, hprogram⟩

theorem splitTarget_cases (tokens : List Token) :
    (∃ name sign rest, tokens = name :: sign :: rest ∧ name.kind = .identifier ∧
      sign.IsSign "=" ∧ splitTarget tokens = (some name, rest)) ∨
    splitTarget tokens = (none, tokens) := by
  match tokens with
  | [] => exact .inr rfl
  | [first] => exact .inr rfl
  | first :: second :: rest =>
    by_cases h : first.kind = .identifier ∧ second.kind = .operator ∧ second.value = "="
    · exact .inl ⟨first, second, rest, rfl, h.1, h.2, by simp only [splitTarget, if_pos h]⟩
    · exact .inr (by simp only [splitTarget, if_neg h])

theorem run_of_ofTokens {source : String} {tokens : List Token} {e : Expression}
    (h : Expression.ofTokens source tokens = .ok e) :
    e.target = (splitTarget tokens).1 ∧
      Conversion.start.run (splitTarget tokens).2 = .ok e.program := by
  unfold Expression.ofTokens at h
  split at h
  next target body hsplit =>
    split at h
    · cases h
    next first rest =>
      split at h
      · split at h <;> cases h
      · cases hrun : Conversion.start.run (first :: rest) with
        | error e => simp [hrun] at h
        | ok program =>
          rw [hrun] at h
          cases h
          simp [hsplit, hrun]

theorem end_unique {ts body rest : List Token} {stop last : Token}
    (h : ts ++ stop :: rest = body ++ [last]) (hk : stop.kind = .endOfInput)
    (hbody : ∀ token ∈ body, token.kind ≠ .endOfInput) : rest = [] := by
  rcases List.eq_nil_or_concat rest with hr | ⟨init, x, hr⟩
  · exact hr
  · have heq : (ts ++ stop :: init) ++ [x] = body ++ [last] := by simpa [hr] using h
    have hts := (List.append_inj' heq rfl).1
    exact absurd hk (hbody stop (by rw [← hts]; simp))

theorem ScanShape.noKey {tokens : List Token} (h : ScanShape tokens) : NoKey tokens := by
  obtain ⟨body, stop, rfl, hstop, hbody⟩ := h
  intro token ht hk
  rcases List.mem_append.mp ht with ht | ht
  · obtain ⟨c, _, hc⟩ := (hbody token ht).sign hk
    intro hkey
    have hchars := congrArg String.toList (hc.symm.trans hkey)
    simp [negationKey] at hchars
  · rw [List.mem_singleton.mp ht, hstop] at hk
    cases hk

/-- What is left of a token list without its target has the same shape. -/
theorem ScanShape.body {tokens : List Token} (h : ScanShape tokens) :
    ScanShape (splitTarget tokens).2 := by
  rcases splitTarget_cases tokens with ⟨name, sign, rest, htokens, hname, hsign, heq⟩ | heq
  · rw [htokens] at h
    have hsecond := (h.tail (by rw [hname]; decide)).2
    rw [heq]
    exact (hsecond.tail (by rw [hsign.1]; decide)).2
  · rw [heq]
    exact h

theorem sentence_of_ofTokens {source : String} {tokens : List Token} {e : Expression}
    (hshape : ScanShape tokens) (h : Expression.ofTokens source tokens = .ok e) :
    ∃ tree, Sentence true tokens e.target tree ∧ e.program = tree.postorder := by
  have hkey := hshape.noKey
  obtain ⟨body, last, htokens, hlast, hbody⟩ := hshape
  obtain ⟨htarget, hrun⟩ := run_of_ofTokens h
  have hinner : ∀ token ∈ body, token.kind ≠ .endOfInput := fun token ht => (hbody token ht).inner
  rcases splitTarget_cases tokens with ⟨name, sign, rest, hsplit, hname, hsign, heq⟩ | heq
  · rw [heq] at htarget hrun
    have hrest : NoKey rest := fun token ht => hkey token (by rw [hsplit]; simp [ht])
    obtain ⟨ts, stop, others, tree, hts, hk, hs, hprogram⟩ := spells_of_run hrest hrun
    have hall : (name :: sign :: ts) ++ stop :: others = body ++ [last] := by
      rw [← htokens, hsplit, hts]
      rfl
    cases end_unique hall hk hinner
    refine ⟨tree, ?_, hprogram⟩
    rw [hsplit, hts, htarget]
    exact .assignment hname hsign hs hk
  · rw [heq] at htarget hrun
    obtain ⟨ts, stop, others, tree, hts, hk, hs, hprogram⟩ := spells_of_run hkey hrun
    have hall : ts ++ stop :: others = body ++ [last] := by rw [← htokens, hts]
    cases end_unique hall hk hinner
    refine ⟨tree, ?_, hprogram⟩
    rw [hts, htarget]
    exact .expression hs hk

theorem ofTokens_of_parse {source : String} {e : Expression}
    (h : Expression.parse source = .ok e) :
    ∃ tokens, tokenize source = .ok tokens ∧ Expression.ofTokens source tokens = .ok e := by
  unfold Expression.parse at h
  split at h
  · cases h
  next tokens htokenize =>
    split at h
    · cases h
    next e' hconvert =>
      cases h
      exact ⟨tokens, htokenize, hconvert⟩

theorem sentence_of_parse {source : String} {e : Expression}
    (h : Expression.parse source = .ok e) :
    ∃ tokens tree, tokenize source = .ok tokens ∧ Sentence true tokens e.target tree ∧
      e.program = tree.postorder := by
  obtain ⟨tokens, htokenize, hconvert⟩ := ofTokens_of_parse h
  obtain ⟨tree, hsentence, hprogram⟩ := sentence_of_ofTokens (tokenize_shape htokenize) hconvert
  exact ⟨tokens, tree, htokenize, hsentence, hprogram⟩

end Reckoner
