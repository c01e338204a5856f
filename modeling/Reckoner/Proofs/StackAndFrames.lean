import Reckoner.Proofs.OpenParentheses
import Reckoner.Proofs.Program
import Reckoner.Proofs.Sentences
import Reckoner.Proofs.Substitution

namespace Reckoner

/-- A conversion of `tokens` comes to a state between two steps, with `rest` still to be read. A
name is an operand only where no parenthesis comes after it. -/
inductive Passes (tokens : List Token) : List Token → Conversion → Prop
  | start : Passes tokens tokens .start
  | step {taken rest : List Token} {s next : Conversion} :
      Passes tokens (taken ++ rest) s → Step s taken next →
      (∀ name ∈ taken.getLast?, name.kind = .identifier → Follows rest) → Passes tokens rest next

/-- An operator that waits on a stack for its last operand. -/
def Token.IsPending (token : Token) : Prop :=
  token.kind = .negation ∨ ∃ op : BinarySign, token.IsSign op.text

/-- The name directly below each open parenthesis of a stack, if there is one; the innermost
parenthesis comes first. -/
def calleesOn : List Token → List (Option Token)
  | [] => []
  | top :: stack =>
    if top.kind = .openParen then
      stack.head?.filter (·.kind == .identifier) :: calleesOn stack
    else calleesOn stack

/-- A stack in order with its frames: there are as many open parentheses as frames, the name below
each is that of its frame, and there is no other name; all other tokens are operators. -/
structure InOrder (frames : List Frame) (stack : List Token) : Prop where
  parens : (openOn stack).length = frames.length
  callees : calleesOn stack = frames.map Frame.callee
  names : ∀ above name below, stack = above ++ name :: below → name.kind = .identifier →
    ∃ opening ∈ above.getLast?, opening.kind = .openParen
  others : ∀ token ∈ stack,
    token.kind = .openParen ∨ token.kind = .identifier ∨ token.IsPending

def namesIn (ts : List Token) : List Token :=
  ts.filter (·.kind == .identifier)

def operandNames : List Token → List Token
  | [] => []
  | token :: rest =>
    if token.kind = .identifier ∧ rest.head?.any (·.kind == .openParen) = false then
      token :: operandNames rest
    else operandNames rest

theorem Token.IsPending.isNode {token : Token} (h : token.IsPending) : token.IsNode := by
  rcases h with hk | ⟨op, hs⟩
  · exact .negation hk
  · exact .binary op hs

section
variable {frames : List Frame} {stack : List Token}

@[simp] theorem calleesOn_cons_other {top : Token} (h : top.kind ≠ .openParen) :
    calleesOn (top :: stack) = calleesOn stack := by
  rw [calleesOn, if_neg h]

/-- No name lies on top: it would have to lie below its parenthesis. -/
theorem Stacked.head_not_name (h : Stacked frames stack) :
    stack.head?.filter (·.kind == .identifier) = none := by
  cases h with
  | nil => rfl
  | operator hw _ => rcases hw.1 with hk | hk <;> simp [hk]
  | group ho _ => simp [ho]
  | arguments ho _ _ => simp [ho]

theorem Stacked.calleesOn_eq (h : Stacked frames stack) :
    calleesOn stack = frames.map Frame.callee := by
  induction h with
  | nil => rfl
  | operator hw h ih => rw [calleesOn_cons_other hw.not_openParen, ih]
  | group ho h ih => rw [calleesOn, if_pos ho, h.head_not_name, ih, List.map_cons]
  | arguments ho hc h ih =>
    rw [calleesOn, if_pos ho, calleesOn_cons_other (by rw [hc]; decide), ih, List.map_cons]
    simp [hc]

theorem Stacked.opening_above (h : Stacked frames stack) {above below : List Token} {name : Token}
    (hstack : stack = above ++ name :: below) (hk : name.kind = .identifier) :
    ∃ opening ∈ above.getLast?, opening.kind = .openParen := by
  induction h generalizing above with
  | nil => simp at hstack
  | @operator frames stack token precedence hw h ih =>
    cases above with
    | nil =>
      cases hstack
      rcases hw.1 with ho | ho <;> cases ho.symm.trans hk
    | cons top above =>
      obtain ⟨opening, hmem, ho⟩ := ih (List.cons.inj hstack).2
      exact ⟨opening, List.mem_getLast?_cons hmem, ho⟩
  | @group frames stack opening commas ho h ih =>
    cases above with
    | nil =>
      cases hstack
      cases ho.symm.trans hk
    | cons top above =>
      obtain ⟨inner, hmem, hi⟩ := ih (List.cons.inj hstack).2
      exact ⟨inner, List.mem_getLast?_cons hmem, hi⟩
  | @arguments frames stack callee opening commas ho hc h ih =>
    -- This frame stands for two tokens: the parenthesis, and the name that it lies on.
    match above with
    | [] =>
      cases hstack
      cases ho.symm.trans hk
    | [top] =>
      cases hstack
      exact ⟨opening, rfl, ho⟩
    | top :: second :: above =>
      obtain ⟨inner, hmem, hi⟩ := ih (List.cons.inj (List.cons.inj hstack).2).2
      exact ⟨inner, List.mem_getLast?_cons (List.mem_getLast?_cons hmem), hi⟩

theorem Stacked.split {frame : Frame} (h : Stacked (frame :: frames) stack) :
    ∃ released opening below, stack = released ++ opening :: below ∧
      (∀ token ∈ released, token.kind ≠ .openParen ∧ token.kind ≠ .identifier) ∧
      opening.kind = .openParen ∧ Stacked (frame :: frames) (opening :: below) := by
  generalize hall : frame :: frames = all at h
  induction h with
  | nil => cases hall
  | @operator _ stack token precedence hw h ih =>
    obtain ⟨released, opening, below, rfl, hreleased, ho, hbelow⟩ := ih hall
    refine ⟨token :: released, opening, below, rfl, ?_, ho, hbelow⟩
    intro t ht
    rcases List.mem_cons.mp ht with rfl | ht
    · rcases hw.1 with hk | hk <;> rw [hk] <;> decide
    · exact hreleased t ht
  | group ho h _ => exact ⟨[], _, _, rfl, by simp, ho, .group ho h⟩
  | arguments ho hc h _ => exact ⟨[], _, _, rfl, by simp, ho, .arguments ho hc h⟩

theorem releaseBefore_released {current : Operator} {output out rest : List Token}
    (h : releaseBefore current output stack = .ok (out, rest)) :
    ∃ released, stack = released ++ rest ∧ out = released.reverse ++ output ∧
      ∀ token ∈ released, token.kind ≠ .openParen ∧ token.kind ≠ .identifier := by
  induction stack generalizing output with
  | nil =>
    cases h
    exact ⟨[], rfl, rfl, by simp⟩
  | cons top stack ih =>
    rw [releaseBefore] at h
    split at h
    next hkind =>
      split at h
      · cases h
      · split at h
        · obtain ⟨released, rfl, rfl, hreleased⟩ := ih h
          refine ⟨top :: released, rfl, by simp, ?_⟩
          intro t ht
          rcases List.mem_cons.mp ht with rfl | ht
          · rcases hkind with hk | hk <;> rw [hk] <;> decide
          · exact hreleased t ht
        · cases h
          exact ⟨[], rfl, rfl, by simp⟩
    · cases h
      exact ⟨[], rfl, rfl, by simp⟩

end

section
variable {token : Token} {rest : List Token}

@[simp] theorem operandNames_other (h : token.kind ≠ .identifier) :
    operandNames (token :: rest) = operandNames rest := by
  rw [operandNames, if_neg fun hc => h hc.1]

@[simp] theorem operandNames_operand (hk : token.kind = .identifier) (hrest : Follows rest) :
    operandNames (token :: rest) = token :: operandNames rest := by
  have hnext : rest.head?.any (·.kind == .openParen) = false := by
    cases rest with
    | nil => rfl
    | cons next rest => exact beq_eq_false_iff_ne.mpr (hrest next rfl)
  rw [operandNames, if_pos ⟨hk, hnext⟩]

@[simp] theorem operandNames_callee {opening : Token} (ho : opening.kind = .openParen) :
    operandNames (token :: opening :: rest) = operandNames rest := by
  rw [operandNames, if_neg, operandNames_other (by rw [ho]; decide)]
  simp [ho]

end

/-- What a step does to the stack and to the output: tokens from the stack that are neither names
nor parentheses go out, then a node of its own, if it has one; and only names, parentheses and
operators that wait are put on the stack. -/
structure Effect (taken : List Token) (s next : Conversion) (released added : List Token) :
    Prop where
  output_eq : next.output = added ++ released.reverse ++ s.output
  of_released : ∀ token ∈ released,
    token ∈ s.stack ∧ token.kind ≠ .openParen ∧ token.kind ≠ .identifier
  of_added : ∀ node ∈ added, node.IsNode
  of_stack : ∀ token ∈ next.stack, token ∈ s.stack ∨
    token.kind = .openParen ∨ token.kind = .identifier ∨ token.IsPending
  names_eq : ∀ rest, (∀ name ∈ taken.getLast?, name.kind = .identifier → Follows rest) →
    operandNames (taken ++ rest) = namesIn added.reverse ++ operandNames rest

section
variable {s next : Conversion} {token : Token}

theorem operand_effect (hk : token.kind = .number ∨ token.kind = .identifier)
    (hn : s.operand token = .ok next) : Effect [token] s next [] [token] := by
  unfold Conversion.operand at hn
  split at hn <;> cases hn
  refine ⟨rfl, by simp, ?_, fun t ht => .inl ht, ?_⟩
  · intro node hnode
    rw [List.mem_singleton.mp hnode]
    rcases hk with hk | hk
    · exact .number hk
    · exact .name hk
  · intro rest hrest
    rcases hk with hk | hk
    · simp [namesIn, hk]
    · simp [namesIn, hk, hrest token rfl hk]

theorem openCall_effect {opening : Token} (hc : token.kind = .identifier)
    (ho : opening.kind = .openParen) (hn : s.openCall token opening = .ok next) :
    Effect [token, opening] s next [] [] := by
  unfold Conversion.openCall at hn
  split at hn <;> cases hn
  refine ⟨rfl, by simp, by simp, ?_, fun rest _ => by simp [namesIn, ho]⟩
  intro t ht
  rcases List.mem_cons.mp ht with rfl | ht
  · exact .inr (.inl ho)
  rcases List.mem_cons.mp ht with rfl | ht
  · exact .inr (.inr (.inl hc))
  · exact .inl ht

theorem openParen_effect (hk : token.kind = .openParen) (hn : s.openParen token = .ok next) :
    Effect [token] s next [] [] := by
  unfold Conversion.openParen at hn
  split at hn <;> cases hn
  refine ⟨rfl, by simp, by simp, ?_, fun rest _ => by simp [namesIn, hk]⟩
  intro t ht
  rcases List.mem_cons.mp ht with rfl | ht
  · exact .inr (.inl hk)
  · exact .inl ht

theorem operator_effect (hk : token.kind = .operator) (hkey : token.value ≠ negationKey)
    (hn : s.operator token = .ok next) : ∃ released added, Effect [token] s next released added := by
  have hname : ∀ rest, operandNames (token :: rest) = operandNames rest := by
    simp [hk]
  unfold Conversion.operator at hn
  split at hn
  · cases hn
  next hassign =>
  split at hn
  next hmark =>
    split at hn <;> cases hn
    refine ⟨[], [token], rfl, by simp, ?_, fun t ht => .inl ht, fun rest _ => ?_⟩
    · intro node hnode
      rw [List.mem_singleton.mp hnode]
      exact .factorial ⟨hk, hmark⟩
    · rw [List.singleton_append, hname]
      simp [namesIn, hk]
  next hmark =>
  split at hn
  · split at hn
    · cases hn
      refine ⟨[], [], rfl, by simp, by simp, ?_, fun rest _ => hname rest⟩
      intro t ht
      rcases List.mem_cons.mp ht with rfl | ht
      · exact .inr (.inr (.inr (.inl rfl)))
      · exact .inl ht
    split at hn <;> cases hn
    exact ⟨[], [], rfl, by simp, by simp, fun t ht => .inl ht, fun rest _ => hname rest⟩
  · split at hn
    · cases hn
    next current hfind =>
      obtain ⟨⟨out, kept⟩, hrelease, hn⟩ := bind_eq_ok hn
      cases hn
      obtain ⟨released, hstack, rfl, hreleased⟩ := releaseBefore_released hrelease
      refine ⟨released, [], rfl, ?_, by simp, ?_, fun rest _ => hname rest⟩
      · exact fun t ht => ⟨by rw [hstack]; exact List.mem_append_left _ ht, hreleased t ht⟩
      · intro t ht
        rcases List.mem_cons.mp ht with rfl | ht
        · obtain ⟨op, hop⟩ := binarySign_of_findOperator hfind hassign hmark hkey
          exact .inr (.inr (.inr (.inr ⟨op, hk, hop⟩)))
        · exact .inl (by rw [hstack]; exact List.mem_append_right _ ht)

theorem closeParen_effect (hk : token.kind = .closeParen) (h : Stacked s.frames s.stack)
    (hn : s.closeParen token = .ok next) :
    ∃ released added, Effect [token] s next released added := by
  have hname : ∀ rest, operandNames (token :: rest) = operandNames rest := by
    simp [hk]
  unfold Conversion.closeParen at hn
  split at hn
  · cases hn
  next frame frames hframes =>
    rw [hframes] at h
    obtain ⟨released, opening, below, hstack, hreleased, ho, hbelow⟩ := h.split
    obtain ⟨count, _, hn⟩ := bind_eq_ok hn
    rw [hstack, releaseToParen_of_releaseAll (fun t ht => (hreleased t ht).1) ho] at hn
    have hout : ∀ t ∈ released, t ∈ s.stack ∧ t.kind ≠ .openParen ∧ t.kind ≠ .identifier :=
      fun t ht => ⟨by rw [hstack]; exact List.mem_append_left _ ht, hreleased t ht⟩
    have hkept : ∀ t ∈ below, t ∈ s.stack := by
      intro t ht
      rw [hstack]
      exact List.mem_append_right _ (List.mem_cons_of_mem _ ht)
    obtain ⟨hnone, _⟩ | ⟨callee, rest, hsome, _, rfl, _⟩ := hbelow.under ho
    · simp only [hnone, List.drop_one] at hn
      cases hn
      exact ⟨released, [], rfl, hout, by simp, fun t ht => .inl (hkept t ht),
        fun rest _ => hname rest⟩
    · simp only [hsome, List.drop_one] at hn
      cases hn
      refine ⟨released, [callee.toCall token count], rfl, hout, ?_,
        fun t ht => .inl (hkept t (List.mem_cons_of_mem _ ht)), fun rest _ => ?_⟩
      · intro node hnode
        rw [List.mem_singleton.mp hnode]
        exact .call rfl
      · rw [List.singleton_append, hname]
        rfl

theorem comma_effect (hk : token.kind = .comma) (h : Stacked s.frames s.stack)
    (hn : s.comma token = .ok next) : ∃ released added, Effect [token] s next released added := by
  unfold Conversion.comma at hn
  split at hn
  next callee commas frames hframes =>
    rw [hframes] at h
    split at hn
    · cases hn
    obtain ⟨released, opening, below, hstack, hreleased, ho, _⟩ := h.split
    rw [hstack, releaseToParen_of_releaseAll (fun t ht => (hreleased t ht).1) ho] at hn
    cases hn
    refine ⟨released, [], rfl, ?_, by simp, ?_,
      fun rest _ => by simp [namesIn, hk]⟩
    · exact fun t ht => ⟨by rw [hstack]; exact List.mem_append_left _ ht, hreleased t ht⟩
    · exact fun t ht => .inl (by rw [hstack]; exact List.mem_append_right _ ht)
  · cases hn

end

theorem Step.effect {s next : Conversion} {taken : List Token} (hstep : Step s taken next)
    (hkey : NoKey taken) (h : Stacked s.frames s.stack) :
    ∃ released added, Effect taken s next released added := by
  cases hstep with
  | operand hk hn => exact ⟨_, _, operand_effect hk hn⟩
  | openCall hc ho hn => exact ⟨_, _, openCall_effect hc ho hn⟩
  | operator hk hn => exact operator_effect hk (hkey _ (by simp) hk) hn
  | openParen hk hn => exact ⟨_, _, openParen_effect hk hn⟩
  | closeParen hk hn => exact closeParen_effect hk h hn
  | comma hk hn => exact comma_effect hk h hn

theorem ScanShape.drop {taken rest : List Token} (h : ScanShape (taken ++ rest))
    (htaken : ∀ token ∈ taken, token.kind ≠ .endOfInput) : ScanShape rest := by
  induction taken with
  | nil => exact h
  | cons token taken ih =>
    exact ih (h.tail (htaken token (by simp))).2 fun t ht => htaken t (List.mem_cons_of_mem _ ht)

/-- What holds of a conversion between two steps: the output is a program with the operands of the
tokens read so far. -/
structure Underway (tokens rest : List Token) (s : Conversion) : Prop where
  shape : ScanShape rest
  stacked : Stacked s.frames s.stack
  waiting : ∀ token ∈ s.stack,
    token.kind = .openParen ∨ token.kind = .identifier ∨ token.IsPending
  nodes : ∀ node ∈ s.output, node.IsNode
  names : namesIn s.output.reverse ++ operandNames rest = operandNames tokens

section
variable {tokens rest taken : List Token} {s next : Conversion}

theorem Effect.namesIn_output {released added : List Token}
    (h : Effect taken s next released added) :
    namesIn next.output.reverse = namesIn s.output.reverse ++ namesIn added.reverse := by
  have hnone : namesIn released = [] :=
    List.filter_eq_nil_iff.mpr fun t ht => by simpa using (h.of_released t ht).2.2
  rw [h.output_eq]
  simp only [namesIn, List.reverse_append, List.reverse_reverse, List.filter_append] at hnone ⊢
  rw [hnone, List.nil_append]

theorem Underway.step (h : Underway tokens (taken ++ rest) s) (hstep : Step s taken next)
    (hname : ∀ name ∈ taken.getLast?, name.kind = .identifier → Follows rest) :
    Underway tokens rest next := by
  have hkey : NoKey taken := fun t ht => h.shape.noKey t (List.mem_append_left _ ht)
  obtain ⟨released, added, heffect⟩ := hstep.effect hkey h.stacked
  refine ⟨h.shape.drop hstep.not_endOfInput, hstep.stacked h.stacked, ?_, ?_, ?_⟩
  · intro t ht
    rcases heffect.of_stack t ht with ht | hnew
    · exact h.waiting t ht
    · exact hnew
  · intro node hnode
    rw [heffect.output_eq, List.append_assoc] at hnode
    rcases List.mem_append.mp hnode with hnode | hnode
    · exact heffect.of_added node hnode
    rcases List.mem_append.mp hnode with hnode | hnode
    · obtain ⟨hmem, hparen, hident⟩ := heffect.of_released node (List.mem_reverse.mp hnode)
      rcases h.waiting node hmem with hk | hk | hpending
      · exact absurd hk hparen
      · exact absurd hk hident
      · exact hpending.isNode
    · exact h.nodes node hnode
  · rw [heffect.namesIn_output, List.append_assoc, ← heffect.names_eq rest hname]
    exact h.names

theorem Passes.underway (h : Passes tokens rest s) (hshape : ScanShape tokens) :
    Underway tokens rest s := by
  induction h with
  | start => exact ⟨hshape, .nil, by simp [Conversion.start], by simp [Conversion.start], rfl⟩
  | step _ hstep hname ih => exact ih.step hstep hname

/-- The conversion goes on from each state that it comes to. -/
theorem Passes.run (h : Passes tokens rest s) : Conversion.start.run tokens = s.run rest := by
  induction h with
  | start => rfl
  | step _ hstep hname ih => rw [ih, run_of_step hstep hname]

theorem Passes.steps {last : Conversion} (h : Passes tokens (taken ++ rest) s)
    (hsteps : Steps s taken last) (hrest : Follows rest) : Passes tokens rest last := by
  induction hsteps with
  | refl => exact h
  | @cons s next last taken ts hstep hsteps ih =>
    rw [List.append_assoc] at h
    have hname : ∀ name ∈ taken.getLast?, name.kind = .identifier → Follows (ts ++ rest) :=
      fun name hlast hk => hsteps.follows (hstep.complete_of_name name hlast hk) hrest
    exact ih (h.step hstep hname)

theorem Underway.inOrder (h : Underway tokens rest s) : InOrder s.frames s.stack :=
  ⟨h.stacked.length_openOn, h.stacked.calleesOn_eq, fun _ _ _ => h.stacked.opening_above,
    h.waiting⟩

/-- Where a frame is open, all above the innermost parenthesis can be released. -/
theorem Underway.releaseToParen (h : Underway tokens rest s) (hframes : s.frames ≠ []) :
    ∃ out opening below, releaseToParen s.output s.stack = .ok (out, opening :: below) ∧
      opening.kind = .openParen := by
  obtain ⟨frame, frames, heq⟩ := List.exists_cons_of_ne_nil hframes
  obtain ⟨out, opening, below, hrelease, ho, _⟩ := (heq ▸ h.stacked).releaseToParen s.output
  exact ⟨out, opening, below, hrelease, ho⟩

theorem Stacked.namesIn_eq_nil {frames : List Frame} {stack : List Token}
    (h : Stacked frames stack) (hno : ∀ token ∈ stack, token.kind ≠ .openParen) :
    namesIn stack = [] := by
  refine List.filter_eq_nil_iff.mpr fun name hmem hk => ?_
  obtain ⟨above, below, hstack⟩ := List.append_of_mem hmem
  obtain ⟨opening, habove, ho⟩ := h.opening_above hstack (by simpa using hk)
  have hopening : opening ∈ stack := by
    rw [hstack]
    exact List.mem_append_left _ (List.mem_of_getLast? habove)
  exact hno opening hopening ho

/-- The end of the input adds to the program what waits on the stack, which is neither a parenthesis
nor a name. -/
theorem Underway.finish {stop : Token} {others program : List Token}
    (h : Underway tokens (stop :: others) s) (hstop : stop.kind = .endOfInput)
    (hfinish : s.finish stop = .ok program) :
    (∀ node ∈ program, node.IsNode) ∧ namesIn program = operandNames tokens := by
  obtain ⟨_, hno, rfl⟩ := finish_eq_ok_iff.mp hfinish
  have hnames := h.stacked.namesIn_eq_nil hno
  constructor
  · intro node hnode
    rcases List.mem_append.mp hnode with hnode | hnode
    · exact h.nodes node (List.mem_reverse.mp hnode)
    rcases h.waiting node hnode with hk | hk | hpending
    · exact absurd hk (hno node hnode)
    · have hmem : node ∈ namesIn s.stack := List.mem_filter.mpr ⟨hnode, beq_iff_eq.mpr hk⟩
      rw [hnames] at hmem
      cases hmem
    · exact hpending.isNode
  · have hothers : others = [] := by
      obtain ⟨body, last, hbody, _, hscanned⟩ := h.shape
      exact end_unique (List.nil_append (stop :: others) ▸ hbody) hstop
        fun t ht => (hscanned t ht).inner
    have hall := h.names
    rw [hothers, operandNames_other (by rw [hstop]; decide), operandNames, List.append_nil] at hall
    rw [← hall, namesIn, List.filter_append]
    exact (congrArg _ hnames).trans (List.append_nil _)

end

/-- While the tokens of a text are converted, the stack is in order with the frames between any two
steps, whatever comes of the text. Where a frame is open, what lies above the innermost parenthesis
can be released; nothing is ever missing from a stack, and no operator from the table. What goes out
are nodes, and the names among them are those that no parenthesis comes after. -/
theorem conversion_in_order {source : String} {tokens : List Token}
    (h : tokenize source = .ok tokens) :
    (∀ {rest : List Token} {s : Conversion}, Passes (splitTarget tokens).2 rest s →
      InOrder s.frames s.stack ∧
      (s.frames ≠ [] → ∃ out opening below,
        releaseToParen s.output s.stack = .ok (out, opening :: below) ∧
          opening.kind = .openParen) ∧
      (∀ f, s.run rest ≠ .error (.fault f)) ∧
      (∀ node ∈ s.output, node.IsNode) ∧
      namesIn s.output.reverse ++ operandNames rest = operandNames (splitTarget tokens).2) ∧
    (∀ f, Expression.ofTokens source tokens ≠ .error (.fault f)) ∧
    ∀ e, Expression.ofTokens source tokens = .ok e →
      (∀ node ∈ e.program, node.IsNode) ∧
        namesIn e.program = operandNames (splitTarget tokens).2 := by
  have hshape := tokenize_shape h
  refine ⟨@fun rest s hpasses => ?_, fun f => ofTokens_not_fault f hshape, fun e he => ?_⟩
  · have hunderway := hpasses.underway hshape.body
    -- From each of its states a conversion ends as it does from its start, which never is a fault.
    have hend : ∀ f, s.run rest ≠ .error (.fault f) := by
      intro f
      rw [← hpasses.run]
      exact run_not_fault f hshape.body .nil
    exact ⟨hunderway.inOrder, hunderway.releaseToParen, hend, hunderway.nodes, hunderway.names⟩
  · obtain ⟨_, hrun⟩ := run_of_ofTokens he
    obtain ⟨body, stop, others, last, htokens, hstop, hsteps, hfinish⟩ := steps_of_run hrun
    have hfollows : Follows (stop :: others) := follows_cons (by rw [hstop]; decide)
    -- The state before the end of the input is one that the conversion comes to.
    have hpasses : Passes (splitTarget tokens).2 (stop :: others) last :=
      Passes.steps (htokens ▸ .start) hsteps hfollows
    exact (hpasses.underway hshape.body).finish hstop hfinish

def nestedStart : List Token :=
  [.written .identifier "max" 0, .written .openParen "(" 3, .written .number "2" 4,
   .written .comma "," 5, .written .operator "-" 7, .written .openParen "(" 8,
   .written .identifier "x" 9]

def nestedEnd : List Token :=
  [.written .closeParen ")" 10, .written .closeParen ")" 11, .written .endOfInput "" 12]

def nestedConversion : Conversion :=
  ⟨[.written .identifier "x" 9, .written .number "2" 4],
   [.written .openParen "(" 8, (Token.written .operator "-" 7).toNegation,
    .written .openParen "(" 3, .written .identifier "max" 0],
   [⟨none, 0⟩, ⟨some (.written .identifier "max" 0), 1⟩], false⟩

def nestedExpression : Expression :=
  ⟨"max(2, -(x))",
   [.written .number "2" 4, .written .identifier "x" 9,
    (Token.written .operator "-" 7).toNegation,
    (Token.written .identifier "max" 0).toCall (.written .closeParen ")" 11) 2], none⟩

theorem nestedConversion_in_order :
    tokenize "max(2, -(x))" = .ok (nestedStart ++ nestedEnd) ∧
      Passes (nestedStart ++ nestedEnd) nestedEnd nestedConversion ∧
      InOrder nestedConversion.frames nestedConversion.stack ∧
      (∀ f, nestedConversion.run nestedEnd ≠ .error (.fault f)) ∧
      Expression.ofTokens "max(2, -(x))" (nestedStart ++ nestedEnd) = .ok nestedExpression ∧
      namesIn nestedExpression.program = [.written .identifier "x" 9] := by
  have htokens : tokenize "max(2, -(x))" = .ok (nestedStart ++ nestedEnd) :=
    eq_ok_of_toOption (by decide +kernel)
  have hsteps : Steps .start nestedStart nestedConversion :=
    .cons (.openCall rfl rfl rfl) (.cons (.operand (.inl rfl) rfl) (.cons (.comma rfl rfl)
      (.cons (.operator rfl rfl) (.cons (.openParen rfl rfl)
        (.cons (.operand (.inr rfl) rfl) (.refl _))))))
  have hpasses : Passes (nestedStart ++ nestedEnd) nestedEnd nestedConversion :=
    Passes.steps .start hsteps (follows_cons (by decide))
  obtain ⟨hpassed, _, haccepted⟩ := conversion_in_order htokens
  obtain ⟨hinOrder, _, hrun, _⟩ := hpassed hpasses
  have hexpression : Expression.ofTokens "max(2, -(x))" (nestedStart ++ nestedEnd) =
      .ok nestedExpression := eq_ok_of_toOption (by decide +kernel)
  exact ⟨htokens, hpasses, hinOrder, hrun, hexpression, (haccepted _ hexpression).2⟩

end Reckoner
