import Reckoner.Proofs.OperatorStack
import Reckoner.Proofs.Steps

namespace Reckoner

/-- Where an operand is expected, `ts` is read as the operand `tree`. What then waits on the stack
binds at least as tightly as `floor`; it completes the output with the post-order of the tree. -/
def ReadAs (floor : Nat) (ts : List Token) (tree : Tree) (output stack : List Token)
    (frames : List Frame) : Prop :=
  ∃ out waiting, Steps ⟨output, stack, frames, true⟩ ts ⟨out, waiting ++ stack, frames, false⟩ ∧
    Pending floor waiting ∧ out.reverse ++ waiting = output.reverse ++ tree.postorder

/-- The arguments before the last one are read from the parenthesis that opens their call. -/
def ReadAsArguments (ts : List Token) (args : List Tree) (callee opening : Token)
    (output stack : List Token) (frames : List Frame) : Prop :=
  Steps ⟨output, opening :: callee :: stack, ⟨some callee, 0⟩ :: frames, true⟩ ts
    ⟨(postorders args).reverse ++ output, opening :: callee :: stack,
      ⟨some callee, args.length⟩ :: frames, true⟩

section
variable {output stack ts us : List Token} {frames : List Frame} {tree : Tree}

theorem readAs_of_steps {floor : Nat} (out : List Token)
    (h : Steps ⟨output, stack, frames, true⟩ ts ⟨out, stack, frames, false⟩)
    (hout : out.reverse = output.reverse ++ tree.postorder) :
    ReadAs floor ts tree output stack frames :=
  ⟨out, [], h, pending_nil, by simpa using hout⟩

theorem readAs_leaf {floor : Nat} {token : Token}
    (hk : token.kind = .number ∨ token.kind = .identifier) (hpost : tree.postorder = [token]) :
    ReadAs floor [token] tree output stack frames := by
  have hstep : Step ⟨output, stack, frames, true⟩ [token]
      ⟨token :: output, stack, frames, false⟩ := .operand hk rfl
  exact readAs_of_steps (token :: output) hstep.steps (by simp [hpost])

theorem readAs_group {opening closing : Token} {floor : Nat} (ho : opening.kind = .openParen)
    (hc : closing.kind = .closeParen)
    (h : ReadAs Level.sum.floor ts tree output (opening :: stack) (⟨none, 0⟩ :: frames)) :
    ReadAs floor (opening :: ts ++ [closing]) tree output stack frames := by
  obtain ⟨out, waiting, hsteps, hw, hout⟩ := h
  have hopen : Step ⟨output, stack, frames, true⟩ [opening]
      ⟨output, opening :: stack, ⟨none, 0⟩ :: frames, true⟩ := .openParen ho rfl
  have hclose : Step ⟨out, waiting ++ opening :: stack, ⟨none, 0⟩ :: frames, false⟩ [closing]
      ⟨waiting.reverse ++ out, stack, frames, false⟩ := .closeParen hc (closeParen_group hw ho)
  exact readAs_of_steps _ ((hopen.steps.trans hsteps).trans hclose.steps) (by simpa using hout)

theorem steps_plus {signs : List Token} (h : ∀ sign ∈ signs, sign.IsSign "+") :
    Steps ⟨output, stack, frames, true⟩ signs ⟨output, stack, frames, true⟩ := by
  induction signs with
  | nil => exact .refl _
  | cons sign signs ih =>
    have hsign := h sign (by simp)
    exact .cons (.operator hsign.1 (operator_plus hsign))
      (ih (fun sign hs => h sign (List.mem_cons_of_mem _ hs)))

theorem readAs_emptyCall {callee opening closing : Token} {signs : List Token} {floor : Nat}
    (hn : callee.kind = .identifier) (hc : closing.kind = .closeParen)
    (ho : opening.kind = .openParen) (hsigns : ∀ sign ∈ signs, sign.IsSign "+") :
    ReadAs floor (callee :: opening :: signs ++ [closing]) (.call callee closing hn hc []) output
      stack frames := by
  have hopen : Step ⟨output, stack, frames, true⟩ [callee, opening]
      ⟨output, opening :: callee :: stack, ⟨some callee, 0⟩ :: frames, true⟩ :=
    .openCall hn ho rfl
  have hclose : Step ⟨output, opening :: callee :: stack, ⟨some callee, 0⟩ :: frames, true⟩
      [closing] ⟨callee.toCall closing 0 :: output, stack, frames, false⟩ :=
    .closeParen hc (closeParen_emptyCall ho)
  exact readAs_of_steps _ ((hopen.steps.trans (steps_plus hsigns)).trans hclose.steps)
    (by simp [Token.toCall])

theorem readAsArguments_concat {callee opening comma : Token} {args : List Tree}
    (ho : opening.kind = .openParen) (hc : comma.kind = .comma)
    (hargs : ReadAsArguments ts args callee opening output stack frames)
    (h : ReadAs Level.sum.floor us tree ((postorders args).reverse ++ output)
      (opening :: callee :: stack) (⟨some callee, args.length⟩ :: frames)) :
    ReadAsArguments (ts ++ us ++ [comma]) (args ++ [tree]) callee opening output stack frames := by
  obtain ⟨out, waiting, hsteps, hw, hout⟩ := h
  have hrev : waiting.reverse ++ out = (postorders (args ++ [tree])).reverse ++ output := by
    apply List.reverse_inj.mp
    simpa using hout
  have hcomma : Step ⟨out, waiting ++ opening :: callee :: stack,
      ⟨some callee, args.length⟩ :: frames, false⟩ [comma]
      ⟨waiting.reverse ++ out, opening :: callee :: stack,
        ⟨some callee, args.length + 1⟩ :: frames, true⟩ := .comma hc (comma_argument hw ho)
  rw [hrev] at hcomma
  unfold ReadAsArguments at hargs ⊢
  rw [List.length_append, List.length_singleton]
  exact (hargs.trans hsteps).trans hcomma.steps

theorem readAs_call {callee opening closing : Token} {args : List Tree} {floor : Nat}
    (hn : callee.kind = .identifier) (hc : closing.kind = .closeParen)
    (ho : opening.kind = .openParen)
    (hargs : ReadAsArguments ts args callee opening output stack frames)
    (h : ReadAs Level.sum.floor us tree ((postorders args).reverse ++ output)
      (opening :: callee :: stack) (⟨some callee, args.length⟩ :: frames)) :
    ReadAs floor (callee :: opening :: ts ++ us ++ [closing])
      (.call callee closing hn hc (args ++ [tree])) output stack frames := by
  obtain ⟨out, waiting, hsteps, hw, hout⟩ := h
  have hopen : Step ⟨output, stack, frames, true⟩ [callee, opening]
      ⟨output, opening :: callee :: stack, ⟨some callee, 0⟩ :: frames, true⟩ :=
    .openCall hn ho rfl
  have hclose : Step ⟨out, waiting ++ opening :: callee :: stack,
      ⟨some callee, args.length⟩ :: frames, false⟩ [closing]
      ⟨callee.toCall closing (args.length + 1) :: (waiting.reverse ++ out), stack, frames,
        false⟩ := .closeParen hc (closeParen_call hw ho)
  have hpost : out.reverse ++ waiting = output.reverse ++ postorders (args ++ [tree]) := by
    simpa using hout
  refine readAs_of_steps _
    (((hopen.steps.trans hargs).trans hsteps).trans hclose.steps) ?_
  simp [Token.toCall, hpost, ← List.append_assoc]

/-- A factorial mark goes to its operand at once, which has left nothing waiting. -/
theorem readAs_factorial {sign : Token} (hs : sign.IsSign "!")
    (h : ReadAs Level.marked.floor ts tree output stack frames) :
    ReadAs Level.marked.floor (ts ++ [sign]) (.factorial sign hs tree) output stack frames := by
  obtain ⟨out, waiting, hsteps, hw, hout⟩ := h
  cases hw.eq_nil
  have hmark : Step ⟨out, stack, frames, false⟩ [sign] ⟨sign :: out, stack, frames, false⟩ :=
    .operator hs.1 (operator_factorial hs)
  have hpost : out.reverse = output.reverse ++ tree.postorder := by simpa using hout
  exact readAs_of_steps _ (hsteps.trans hmark.steps) (by simp [hpost])

theorem readAs_binary (op : BinarySign) {sign : Token} {left right : Tree}
    (hs : sign.IsSign op.text) (hstack : Below op.level.ceiling stack)
    (hl : ReadAs op.leftLevel.floor ts left output stack frames)
    (hr : ∀ out, ReadAs op.rightLevel.floor us right out (sign :: stack) frames) :
    ReadAs op.level.floor (ts ++ sign :: us) (.binary op sign hs left right) output stack
      frames := by
  obtain ⟨out, waiting, hsteps, hw, hout⟩ := hl
  obtain ⟨out', waiting', hsteps', hw', hout'⟩ := hr (waiting.reverse ++ out)
  have hbelow : Below op.leftLevel.floor stack := hstack.mono (by cases op <;> decide)
  have hsign : Step ⟨out, waiting ++ stack, frames, false⟩ [sign]
      ⟨waiting.reverse ++ out, sign :: stack, frames, true⟩ :=
    .operator hs.1 (operator_binary hs hw hbelow)
  -- the operator waits above the old stack, and what its right operand leaves waits above it
  refine ⟨out', waiting' ++ [sign], ?_, ?_, ?_⟩
  · simpa using hsteps.trans (hsign.steps.trans hsteps')
  · exact (hw'.mono (by cases op <;> decide)).append (.sign hs)
  · rw [← List.append_assoc, hout', List.reverse_append, List.reverse_reverse, hout]
    simp

theorem readAs_negation {sign : Token} (hs : sign.IsSign "-")
    (h : ReadAs Level.signed.floor ts tree output (sign.toNegation :: stack) frames) :
    ReadAs Level.signed.floor (sign :: ts) (.negation sign hs tree) output stack frames := by
  obtain ⟨out, waiting, hsteps, hw, hout⟩ := h
  refine ⟨out, waiting ++ [sign.toNegation], ?_, hw.append (.negation sign), ?_⟩
  · simpa using Steps.cons (.operator hs.1 (operator_negation hs)) hsteps
  · rw [← List.append_assoc, hout]
    simp [Token.toNegation, negationKey]

theorem readAs_plus {sign : Token} {floor : Nat} (hs : sign.IsSign "+")
    (h : ReadAs floor ts tree output stack frames) :
    ReadAs floor (sign :: ts) tree output stack frames := by
  obtain ⟨out, waiting, hsteps, hw, hout⟩ := h
  exact ⟨out, waiting, .cons (.operator hs.1 (operator_plus hs)) hsteps, hw, hout⟩

theorem ReadAs.loosen {floor bound : Nat} (hle : bound ≤ floor)
    (h : ReadAs floor ts tree output stack frames) :
    ReadAs bound ts tree output stack frames := by
  obtain ⟨out, waiting, hsteps, hw, hout⟩ := h
  exact ⟨out, waiting, hsteps, hw.mono hle, hout⟩

end

mutual

theorem readAs_of_spells {lenient : Bool} {level : Level} {ts : List Token} {tree : Tree} :
    Spells lenient level ts tree → ∀ (output : List Token) {stack : List Token}
      (frames : List Frame), Below level.ceiling stack →
      ReadAs level.floor ts tree output stack frames
  | .number token hk => by
    intro output stack frames _
    exact readAs_leaf (.inl hk) rfl
  | .name token hk => by
    intro output stack frames _
    exact readAs_leaf (.inr hk) rfl
  | .group ho hc hs => by
    intro output stack frames _
    exact readAs_group ho hc (readAs_of_spells hs _ _ (below_openParen ho))
  | .emptyCall hn hc ho hsigns => by
    intro output stack frames _
    exact readAs_emptyCall hn hc ho (fun sign h => (hsigns sign h).2)
  | .call hn hc ho ha hs => by
    intro output stack frames _
    exact readAs_call hn hc ho (readAsArguments_of_spells ha ho output stack frames)
      (readAs_of_spells hs _ _ (below_openParen ho))
  | .factorial hsign hs => by
    intro output stack frames hbelow
    exact readAs_factorial hsign (readAs_of_spells hs output frames hbelow)
  | .binary op hsign hl hr => by
    intro output stack frames hbelow
    have hleft : Below op.leftLevel.ceiling stack := hbelow.mono (by cases op <;> decide)
    have habove : Below op.rightLevel.ceiling (_ :: stack) :=
      .inr ⟨_, hsign.waits, by cases op <;> decide⟩
    exact readAs_binary op hsign hbelow (readAs_of_spells hl output frames hleft)
      (fun out => readAs_of_spells hr out frames habove)
  | .negation hsign hs => by
    intro output stack frames _
    exact readAs_negation hsign
      (readAs_of_spells hs output frames (.inr ⟨3, waits_toNegation _, by decide⟩))
  | .plus hsign hs => by
    intro output stack frames hbelow
    exact readAs_plus hsign (readAs_of_spells hs output frames hbelow)
  | .loosen hle hs => by
    intro output stack frames hbelow
    have htight := readAs_of_spells hs output frames (hbelow.mono (Level.ceiling_mono hle))
    exact htight.loosen (Level.floor_mono hle)

theorem readAsArguments_of_spells {lenient : Bool} {ts : List Token} {args : List Tree} :
    SpellsArguments lenient ts args → ∀ {callee opening : Token}, opening.kind = .openParen →
      ∀ (output stack : List Token) (frames : List Frame),
      ReadAsArguments ts args callee opening output stack frames
  | .nil => by
    intro _ output stack frames
    exact .refl _
  | .concat ha hs hc => by
    intro ho output stack frames
    exact readAsArguments_concat ho hc (readAsArguments_of_spells ha ho output stack frames)
      (readAs_of_spells hs _ _ (below_openParen ho))

end

theorem run_of_spells {lenient : Bool} {ts : List Token} {tree : Tree} {stop : Token}
    (h : Spells lenient .sum ts tree) (hk : stop.kind = .endOfInput) :
    Conversion.start.run (ts ++ [stop]) = .ok tree.postorder := by
  have hbelow : Below Level.sum.ceiling [] := trivial
  obtain ⟨out, waiting, hsteps, hw, hout⟩ := readAs_of_spells h [] [] hbelow
  rw [List.append_nil] at hsteps
  rw [Conversion.start, run_of_steps hsteps (follows_cons (by rw [hk]; decide)),
    run_endOfInput hk, finish_operand hw, hout]
  rfl

/-- An expression does not start with a name and an assignment sign. -/
theorem splitTarget_of_spells {lenient : Bool} {ts : List Token} {tree : Tree} {stop : Token}
    (h : Spells lenient .sum ts tree) (hk : stop.kind = .endOfInput) :
    splitTarget (ts ++ [stop]) = (none, ts ++ [stop]) := by
  have hinner := h.inner
  match ts with
  | [] => rfl
  | [first] =>
    have hne : ¬ (first.kind = .identifier ∧ stop.kind = .operator ∧ stop.value = "=") := by
      rw [hk]
      simp
    simp only [List.cons_append, List.nil_append, splitTarget, if_neg hne]
  | first :: second :: rest =>
    have hne : ¬ (first.kind = .identifier ∧ second.kind = .operator ∧ second.value = "=") :=
      fun hand => (hinner second (by simp)).2 hand.2
    simp only [List.cons_append, splitTarget, if_neg hne]

theorem Sentence.split {lenient : Bool} {tokens : List Token} {target : Option Token} {tree : Tree}
    (h : Sentence lenient tokens target tree) :
    ∃ ts stop, splitTarget tokens = (target, ts ++ [stop]) ∧ Spells lenient .sum ts tree ∧
      stop.kind = .endOfInput := by
  cases h with
  | expression hs hk => exact ⟨_, _, splitTarget_of_spells hs hk, hs, hk⟩
  | assignment hn hsign hs hk =>
    refine ⟨_, _, ?_, hs, hk⟩
    simp only [List.cons_append, splitTarget, if_pos (show _ ∧ _ ∧ _ from ⟨hn, hsign.1, hsign.2⟩)]

/-- The conversion of a text in which there is more than its target. -/
theorem ofTokens_of_body {source : String} {tokens body : List Token} {first : Token}
    {target : Option Token} (hsplit : splitTarget tokens = (target, first :: body))
    (hfirst : first.kind ≠ .endOfInput) :
    Expression.ofTokens source tokens =
      (Conversion.start.run (first :: body)).map fun program => ⟨source, program, target⟩ := by
  rw [Expression.ofTokens, hsplit]
  exact if_neg hfirst

theorem ofTokens_of_split {source : String} {tokens body program : List Token} {first : Token}
    {target : Option Token} (hsplit : splitTarget tokens = (target, first :: body))
    (hfirst : first.kind ≠ .endOfInput)
    (hrun : Conversion.start.run (first :: body) = .ok program) :
    Expression.ofTokens source tokens = .ok ⟨source, program, target⟩ := by
  rw [ofTokens_of_body hsplit hfirst, hrun]
  rfl

theorem ofTokens_of_sentence {lenient : Bool} {tokens : List Token} {target : Option Token}
    {tree : Tree} (h : Sentence lenient tokens target tree) (source : String) :
    Expression.ofTokens source tokens = .ok ⟨source, tree.postorder, target⟩ := by
  obtain ⟨ts, stop, hsplit, hs, hk⟩ := h.split
  have hrun := run_of_spells hs hk
  cases ts with
  | nil => exact absurd rfl hs.ne_nil
  | cons first ts => exact ofTokens_of_split hsplit (hs.inner first (by simp)).1 hrun

/-- Every tree can be spelled, and from each of its spellings, whatever parentheses and plus signs
it has, the conversion yields the post-order of the tree. -/
theorem every_sentence_converted (tree : Tree) (source : String) :
    (∃ tokens, Sentence false tokens none tree) ∧
      ∀ {lenient : Bool} {tokens : List Token} {target : Option Token},
        Sentence lenient tokens target tree →
        Expression.ofTokens source tokens = .ok ⟨source, tree.postorder, target⟩ := by
  constructor
  · obtain ⟨ts, hs⟩ := exists_spells false tree
    have hk : (Token.written .endOfInput "" 0).kind = .endOfInput := rfl
    exact ⟨_, .expression (.loosen (by decide) hs) hk⟩
  · intro lenient tokens target h
    exact ofTokens_of_sentence h source

/-- The product of a power whose exponent is a signed call. -/
theorem signed_call_spells {two three four name callee power minus plus times opening comma
    closing : Token} (h2 : two.kind = .number) (h3 : three.kind = .number)
    (h4 : four.kind = .number) (hn : name.kind = .identifier) (hf : callee.kind = .identifier)
    (hpower : power.IsSign "^") (hminus : minus.IsSign "-") (hplus : plus.IsSign "+")
    (htimes : times.IsSign "*") (ho : opening.kind = .openParen) (hcomma : comma.kind = .comma)
    (hc : closing.kind = .closeParen) :
    Spells false .sum
      [two, power, minus, callee, opening, name, comma, plus, three, closing, times, four]
      (.binary .times times htimes
        (.binary .power power hpower (.number two h2)
          (.negation minus hminus
            (.call callee closing hf hc [.name name hn, .number three h3])))
        (.number four h4)) := by
  have first : SpellsArguments false [name, comma] [.name name hn] :=
    .concat .nil (.loosen (by decide) (.name name hn)) hcomma
  have second : Spells false .signed [plus, three] (.number three h3) :=
    .plus hplus (.loosen (by decide) (.number three h3))
  have call : Spells false .primary [callee, opening, name, comma, plus, three, closing]
      (.call callee closing hf hc [.name name hn, .number three h3]) :=
    .call hf hc ho first (.loosen (by decide) second)
  have exponent : Spells false .signed
      [minus, callee, opening, name, comma, plus, three, closing] _ :=
    .negation hminus (.loosen (by decide) call)
  have factor : Spells false .power
      [two, power, minus, callee, opening, name, comma, plus, three, closing] _ :=
    .binary .power hpower (.loosen (by decide) (.number two h2)) exponent
  exact .loosen (by decide)
    (.binary .times htimes (.loosen (by decide) factor) (.loosen (by decide) (.number four h4)))

/-- The tokens of `x = 2^-max(y,+3)*4`. -/
def signedCallTokens : List Token :=
  [.written .identifier "x" 0, .written .operator "=" 2, .written .number "2" 4,
   .written .operator "^" 5, .written .operator "-" 6, .written .identifier "max" 7,
   .written .openParen "(" 10, .written .identifier "y" 11, .written .comma "," 12,
   .written .operator "+" 13, .written .number "3" 14, .written .closeParen ")" 15,
   .written .operator "*" 16, .written .number "4" 17, .written .endOfInput "" 18]

theorem signed_call_converted :
    (∃ tree, Sentence false signedCallTokens (some (.written .identifier "x" 0)) tree) ∧
      Expression.ofTokens "x = 2^-max(y,+3)*4" signedCallTokens =
        .ok ⟨"x = 2^-max(y,+3)*4",
          [.written .number "2" 4, .written .identifier "y" 11, .written .number "3" 14,
           ⟨.call, "max", "max", ⟨⟨1, 8, 7⟩, ⟨1, 17, 16⟩⟩, 2⟩,
           ⟨.negation, "neg", "-", ⟨⟨1, 7, 6⟩, ⟨1, 8, 7⟩⟩, 0⟩, .written .operator "^" 5,
           .written .number "4" 17, .written .operator "*" 16],
          some (.written .identifier "x" 0)⟩ := by
  have h : Sentence false signedCallTokens (some (.written .identifier "x" 0)) _ :=
    .assignment rfl (by decide) (signed_call_spells (by rfl) rfl rfl rfl rfl (by decide)
      (by decide) (by decide) (by decide) rfl rfl rfl) (by rfl)
  exact ⟨⟨_, h⟩, (every_sentence_converted _ _).2 h⟩

end Reckoner
