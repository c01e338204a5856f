import Reckoner.Proofs.OperatorStack
import Reckoner.Proofs.Scanning
import Reckoner.Proofs.Steps

namespace Reckoner

inductive Stacked : List Frame → List Token → Prop
  | nil : Stacked [] []
  | operator {frames : List Frame} {stack : List Token} {token : Token} {precedence : Nat} :
      token.Waits precedence → Stacked frames stack → Stacked frames (token :: stack)
  | group {frames : List Frame} {stack : List Token} {opening : Token} {commas : Nat} :
      opening.kind = .openParen → Stacked frames stack →
      Stacked (⟨none, commas⟩ :: frames) (opening :: stack)
  | arguments {frames : List Frame} {stack : List Token} {callee opening : Token} {commas : Nat} :
      opening.kind = .openParen → callee.kind = .identifier → Stacked frames stack →
      Stacked (⟨some callee, commas⟩ :: frames) (opening :: callee :: stack)

/-- A step ends in a conversion whose stack fits its parentheses, or rejects its token. -/
def Orderly (token : Token) : Except ConversionError Conversion → Prop
  | .ok next => Stacked next.frames next.stack
  | .error (.rejected e) => e.span = token.span
  | .error (.fault _) => False

theorem Orderly.stacked {token : Token} {result : Except ConversionError Conversion}
    {next : Conversion} (h : Orderly token result) (hn : result = .ok next) :
    Stacked next.frames next.stack := by
  rw [hn] at h
  exact h

section
variable {frames : List Frame} {stack : List Token}

theorem Stacked.releaseBefore (h : Stacked frames stack) (current : Operator)
    (output : List Token) :
    ∃ out rest, releaseBefore current output stack = .ok (out, rest) ∧ Stacked frames rest := by
  induction h generalizing output with
  | nil => exact ⟨output, [], rfl, .nil⟩
  | @operator frames stack token precedence hw h ih =>
    have ⟨hkind, o, ho, _⟩ := hw
    rw [Reckoner.releaseBefore, if_pos hkind, ho]
    by_cases hbinds : o.bindsBefore current = true
    · simp only [hbinds, if_true]
      exact ih (token :: output)
    · simp only [hbinds]
      exact ⟨output, token :: stack, rfl, .operator hw h⟩
  | @group frames stack opening commas ho h ih =>
    rw [Reckoner.releaseBefore, if_neg (by simp [ho])]
    exact ⟨output, opening :: stack, rfl, .group ho h⟩
  | @arguments frames stack callee opening commas ho hc h ih =>
    rw [Reckoner.releaseBefore, if_neg (by simp [ho])]
    exact ⟨output, opening :: callee :: stack, rfl, .arguments ho hc h⟩

/-- Where a parenthesis is open, the release stops at one, and the stack still fits from there. -/
theorem Stacked.releaseToParen {frame : Frame} (h : Stacked (frame :: frames) stack)
    (output : List Token) :
    ∃ out opening rest, releaseToParen output stack = .ok (out, opening :: rest) ∧
      opening.kind = .openParen ∧ Stacked (frame :: frames) (opening :: rest) := by
  generalize hall : frame :: frames = all at h
  induction h generalizing output with
  | nil => cases hall
  | @operator _ stack token precedence hw h ih =>
    rw [Reckoner.releaseToParen, if_neg hw.not_openParen]
    exact ih (token :: output) hall
  | @group _ stack opening commas ho h ih =>
    rw [Reckoner.releaseToParen, if_pos ho]
    exact ⟨output, opening, stack, rfl, ho, .group ho h⟩
  | @arguments _ stack callee opening commas ho hc h ih =>
    rw [Reckoner.releaseToParen, if_pos ho]
    exact ⟨output, opening, callee :: stack, rfl, ho, .arguments ho hc h⟩

/-- What lies below an open parenthesis that fits: for a call its name, and then a stack that fits
the parentheses around it. -/
theorem Stacked.under {frame : Frame} {opening : Token}
    (h : Stacked (frame :: frames) (opening :: stack)) (ho : opening.kind = .openParen) :
    (frame.callee = none ∧ Stacked frames stack) ∨
      ∃ callee rest, frame.callee = some callee ∧ callee.kind = .identifier ∧
        stack = callee :: rest ∧ Stacked frames rest := by
  cases h with
  | operator hw _ => exact absurd ho hw.not_openParen
  | group _ h => exact .inl ⟨rfl, h⟩
  | arguments _ hc h => exact .inr ⟨_, _, rfl, hc, rfl, h⟩

theorem Stacked.ne_nil {frame : Frame} (h : Stacked (frame :: frames) stack) : stack ≠ [] := by
  generalize hall : frame :: frames = all at h
  cases h with
  | nil => cases hall
  | operator => simp
  | group => simp
  | arguments => simp

/-- The open parentheses on a stack, the innermost first. -/
def openOn (stack : List Token) : List Token :=
  stack.filter (·.kind == .openParen)

theorem openOn_eq_nil_iff : openOn stack = [] ↔ ∀ token ∈ stack, token.kind ≠ .openParen := by
  simp [openOn]

@[simp] theorem openOn_cons_open {top : Token} (h : top.kind = .openParen) :
    openOn (top :: stack) = top :: openOn stack := by
  simp [openOn, h]

@[simp] theorem openOn_cons_other {top : Token} (h : top.kind ≠ .openParen) :
    openOn (top :: stack) = openOn stack := by
  simp [openOn, h]

theorem Stacked.length_openOn (h : Stacked frames stack) :
    (openOn stack).length = frames.length := by
  induction h with
  | nil => rfl
  | operator hw h ih => rw [openOn_cons_other hw.not_openParen, ih]
  | group ho h ih => rw [openOn_cons_open ho, List.length_cons, List.length_cons, ih]
  | arguments ho hc h ih =>
    rw [openOn_cons_open ho, openOn_cons_other (by rw [hc]; decide), List.length_cons,
      List.length_cons, ih]

/-- A stack without open parentheses fits no frame. -/
theorem Stacked.frames_eq_nil (h : Stacked frames stack)
    (hno : ∀ token ∈ stack, token.kind ≠ .openParen) : frames = [] := by
  have hlength := h.length_openOn
  rw [openOn_eq_nil_iff.mpr hno] at hlength
  exact List.eq_nil_of_length_eq_zero hlength.symm

/-- A stack that fits no frame has no open parentheses. -/
theorem Stacked.not_openParen (h : Stacked [] stack) :
    ∀ token ∈ stack, token.kind ≠ .openParen :=
  openOn_eq_nil_iff.mp (List.eq_nil_of_length_eq_zero h.length_openOn)

@[simp] theorem releaseAll_not_fault (output : List Token) (f : Fault) :
    releaseAll output stack ≠ .error (.fault f) := by
  induction stack generalizing output with
  | nil => simp [releaseAll]
  | cons top stack ih =>
    rw [releaseAll]
    split
    · simp [reject]
    · exact ih (top :: output)

end

section
variable {s : Conversion} {token : Token}

theorem operand_orderly (h : Stacked s.frames s.stack) : Orderly token (s.operand token) := by
  unfold Conversion.operand
  split
  · exact h
  · rfl

theorem openCall_orderly {opening : Token} (h : Stacked s.frames s.stack)
    (hk : token.kind = .identifier) (ho : opening.kind = .openParen) :
    Orderly token (s.openCall token opening) := by
  unfold Conversion.openCall
  split
  · exact Stacked.arguments ho hk h
  · rfl

theorem openParen_orderly (h : Stacked s.frames s.stack) (hk : token.kind = .openParen) :
    Orderly token (s.openParen token) := by
  unfold Conversion.openParen
  split
  · exact Stacked.group hk h
  · rfl

theorem operator_orderly (h : Stacked s.frames s.stack) (hk : token.kind = .operator)
    (hknown : s.operator token ≠ .error (.fault .unknownOperator)) :
    Orderly token (s.operator token) := by
  unfold Conversion.operator at hknown ⊢
  split
  · rfl
  split
  · split
    · rfl
    · exact h
  split
  · split
    · exact Stacked.operator (waits_toNegation token) h
    split
    · exact h
    · rfl
  next hassign hmark hwanted =>
    cases hfind : findOperator? token.value with
    | none => simp [hassign, hmark, hwanted, hfind] at hknown
    | some current =>
      obtain ⟨out, rest, hrelease, hrest⟩ := h.releaseBefore current s.output
      have hkey : token.operatorKey = token.value := by simp [Token.operatorKey, hk]
      have hwaits : token.Waits current.precedence :=
        ⟨.inl hk, current, by rw [hkey, hfind], rfl⟩
      simp only [hrelease]
      exact Stacked.operator hwaits hrest

/-- An operator of the table is never unknown. -/
theorem operator_known {o : Operator} (hfind : findOperator? token.value = some o)
    (h : Stacked s.frames s.stack) : s.operator token ≠ .error (.fault .unknownOperator) := by
  unfold Conversion.operator
  split
  · simp [reject]
  split
  · split <;> simp [reject]
  split
  · split
    · simp
    split <;> simp [reject]
  · obtain ⟨out, rest, hrelease, _⟩ := h.releaseBefore o s.output
    simp [hfind, hrelease, pure, Except.pure]

/-- The number of arguments is found, or the parenthesis is rejected. -/
theorem closingCount_cases (frame : Frame) (token : Token) (hne : s.stack ≠ []) :
    (∃ count, s.closingCount frame token = .ok count) ∨
      ∃ e, s.closingCount frame token = .error (.rejected e) ∧ e.span = token.span := by
  unfold Conversion.closingCount
  split
  · split
    · split
      next hnil => exact absurd hnil hne
      next =>
        split
        · exact .inl ⟨0, rfl⟩
        · exact .inr ⟨_, rfl, rfl⟩
    · exact .inr ⟨_, rfl, rfl⟩
  · exact .inl ⟨_, rfl⟩

theorem closeParen_orderly (h : Stacked s.frames s.stack) :
    Orderly token (s.closeParen token) := by
  unfold Conversion.closeParen
  cases hframes : s.frames with
  | nil => rfl
  | cons frame frames =>
    rw [hframes] at h
    obtain ⟨count, hcount⟩ | ⟨e, hcount, hspan⟩ := closingCount_cases frame token h.ne_nil
    · obtain ⟨out, opening, rest, hrelease, ho, hrest⟩ := h.releaseToParen s.output
      simp only [hcount, hrelease, ok_bind, List.drop_one, List.tail_cons]
      obtain ⟨hnone, hbelow⟩ | ⟨callee, below, hsome, _, rfl, hbelow⟩ := hrest.under ho
      · rw [hnone]
        exact hbelow
      · rw [hsome]
        exact hbelow
    · simp only [hcount, error_bind]
      exact hspan

theorem comma_orderly (h : Stacked s.frames s.stack) : Orderly token (s.comma token) := by
  unfold Conversion.comma
  split
  next callee commas frames hframes =>
    rw [hframes] at h
    split
    · rfl
    · obtain ⟨out, opening, rest, hrelease, ho, hrest⟩ := h.releaseToParen s.output
      rw [hrelease]
      obtain ⟨hnone, _⟩ | ⟨name, below, hsome, hc, rfl, hbelow⟩ := hrest.under ho
      · cases hnone
      · cases hsome
        exact Stacked.arguments ho hc hbelow
  · rfl

end

theorem Step.stacked {s next : Conversion} {taken : List Token} (hstep : Step s taken next)
    (h : Stacked s.frames s.stack) : Stacked next.frames next.stack := by
  cases hstep with
  | operand _ hn => exact (operand_orderly h).stacked hn
  | openCall hk ho hn => exact (openCall_orderly h hk ho).stacked hn
  | operator hk hn => exact (operator_orderly h hk (by rw [hn]; simp)).stacked hn
  | openParen hk hn => exact (openParen_orderly h hk).stacked hn
  | closeParen _ hn => exact (closeParen_orderly h).stacked hn
  | comma _ hn => exact (comma_orderly h).stacked hn

theorem Steps.stacked {s last : Conversion} {ts : List Token} (hsteps : Steps s ts last)
    (h : Stacked s.frames s.stack) : Stacked last.frames last.stack := by
  induction hsteps with
  | refl => exact h
  | cons hstep _ ih => exact ih (hstep.stacked h)

/-- The rest of a run is free of faults where each step is orderly. -/
theorem bind_not_fault {token : Token} {result : Except ConversionError Conversion}
    {rest : List Token} {f : Fault} (h : Orderly token result)
    (hrest : ∀ next : Conversion, Stacked next.frames next.stack →
      next.run rest ≠ .error (.fault f)) :
    (result >>= fun next => next.run rest) ≠ .error (.fault f) := by
  match result, h with
  | .ok next, h => exact hrest next h
  | .error (.rejected e), _ => exact fun heq => by cases heq

theorem run_not_fault {s : Conversion} {tokens : List Token} (f : Fault)
    (hshape : ScanShape tokens) (h : Stacked s.frames s.stack) :
    s.run tokens ≠ .error (.fault f) := by
  fun_induction Conversion.run s tokens with
  | case1 s =>
    obtain ⟨body, stop, hnil, _⟩ := hshape
    simp at hnil
  | case2 s token rest hk =>
    unfold Conversion.finish
    split
    · simp [reject]
    · intro hmap
      cases hall : releaseAll s.output s.stack with
      | ok out => simp [hall] at hmap
      | error e =>
        rw [hall] at hmap
        cases hmap
        exact releaseAll_not_fault s.output f hall
  | case3 s token rest hk ih =>
    have hrest := (hshape.tail (by rw [hk]; decide)).2
    exact bind_not_fault (operand_orderly h) fun next hn => ih next hrest hn
  | case4 s token hk ih =>
    have hrest := (hshape.tail (by rw [hk]; decide)).2
    exact bind_not_fault (operand_orderly h) fun next hn => ih next hrest hn
  | case5 s token hk opening rest ho ih =>
    have hrest := (hshape.tail (by rw [hk]; decide)).2
    exact bind_not_fault (openCall_orderly h hk ho)
      fun next hn => ih next (hrest.tail (by rw [ho]; decide)).2 hn
  | case6 s token hk other rest ho ih =>
    have hrest := (hshape.tail (by rw [hk]; decide)).2
    exact bind_not_fault (operand_orderly h) fun next hn => ih next hrest hn
  | case7 s token rest hk ih =>
    obtain ⟨hscanned, hrest⟩ := hshape.tail (by rw [hk]; decide)
    obtain ⟨c, hc, hvalue⟩ := hscanned.sign hk
    obtain ⟨o, ho⟩ := findOperator_sign hc
    have hfind : findOperator? token.value = some o := by rw [hvalue, ho]
    have hknown := operator_known hfind h
    exact bind_not_fault (operator_orderly h hk hknown) fun next hn => ih next hrest hn
  | case8 s token rest hk ih =>
    have hrest := (hshape.tail (by rw [hk]; decide)).2
    exact bind_not_fault (openParen_orderly h hk) fun next hn => ih next hrest hn
  | case9 s token rest hk ih =>
    have hrest := (hshape.tail (by rw [hk]; decide)).2
    exact bind_not_fault (closeParen_orderly h) fun next hn => ih next hrest hn
  | case10 s token rest hk ih =>
    have hrest := (hshape.tail (by rw [hk]; decide)).2
    exact bind_not_fault (comma_orderly h) fun next hn => ih next hrest hn
  | case11 s token rest hk => simp [reject]
  | case12 s token rest hk => simp [reject]

end Reckoner
