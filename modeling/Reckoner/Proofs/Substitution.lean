import Reckoner.Proofs.Acceptance
import Reckoner.Proofs.Conversion
import Reckoner.Proofs.OpenParentheses

namespace Reckoner

def Span.moved (g : Position → Position) (span : Span) : Span :=
  ⟨g span.start, g span.stop⟩

def Token.moved (g : Position → Position) (token : Token) : Token :=
  { token with span := token.span.moved g }

def Frame.moved (g : Position → Position) (frame : Frame) : Frame :=
  { frame with callee := frame.callee.map (Token.moved g) }

section
variable (g : Position → Position) (token : Token)

@[simp] theorem moved_kind : (token.moved g).kind = token.kind :=
  rfl

@[simp] theorem moved_value : (token.moved g).value = token.value :=
  rfl

@[simp] theorem moved_operatorKey : (token.moved g).operatorKey = token.operatorKey :=
  rfl

@[simp] theorem map_moved_id (tokens : List Token) : tokens.map (Token.moved id) = tokens :=
  List.map_id'' (fun _ => rfl) tokens

@[simp] theorem map_frame_id (frames : List Frame) : frames.map (Frame.moved id) = frames :=
  List.map_id'' (fun frame => by cases frame with | mk callee _ => cases callee <;> rfl) frames

end

/-- What a conversion may stand on: the stack and frames below its own. An operator that is released
stops at the base, which therefore is empty or starts with a parenthesis. -/
structure Base where
  stack : List Token
  frames : List Frame
  settled : ∀ top ∈ stack.head?, top.kind = .openParen

/-- A conversion of tokens that stand at other places, with another output, on a base. -/
def Conversion.placed (s : Conversion) (g : Position → Position) (output : List Token)
    (base : Base) : Conversion :=
  ⟨output, s.stack.map (Token.moved g) ++ base.stack, s.frames.map (Frame.moved g) ++ base.frames,
    s.expectsOperand⟩

section
variable {output out stack rest : List Token}

theorem releaseBefore_placed {current : Operator}
    (h : releaseBefore current output stack = .ok (out, rest)) :
    ∃ written, out = written ++ output ∧ ∀ g others (base : Base),
      releaseBefore current others (stack.map (Token.moved g) ++ base.stack) =
        .ok (written.map (Token.moved g) ++ others, rest.map (Token.moved g) ++ base.stack) := by
  induction stack generalizing output with
  | nil =>
    cases h
    refine ⟨[], rfl, fun g others base => ?_⟩
    rw [List.map_nil, List.nil_append]
    cases hbase : base.stack with
    | nil => rfl
    | cons top below =>
      have htop : top.kind = .openParen := base.settled top (by rw [hbase]; rfl)
      rw [releaseBefore, if_neg (by simp [htop])]
      rfl
  | cons top stack ih =>
    rw [releaseBefore] at h
    split at h
    next hkind =>
      cases hfind : findOperator? top.operatorKey with
      | none => simp [hfind] at h
      | some operator =>
        simp only [hfind] at h
        split at h
        next hbinds =>
          obtain ⟨written, rfl, hwritten⟩ := ih h
          refine ⟨written ++ [top], by simp, fun g others base => ?_⟩
          rw [List.map_cons, List.cons_append, releaseBefore, moved_kind, moved_operatorKey,
            if_pos hkind, hfind]
          simp [hbinds, hwritten]
        next hbinds =>
          cases h
          refine ⟨[], rfl, fun g others base => ?_⟩
          rw [List.map_cons, List.cons_append, releaseBefore, moved_kind, moved_operatorKey,
            if_pos hkind, hfind]
          simp [hbinds]
    next hkind =>
      cases h
      refine ⟨[], rfl, fun g others base => ?_⟩
      rw [List.map_cons, List.cons_append, releaseBefore, moved_kind, if_neg hkind]
      rfl

theorem releaseToParen_placed (h : releaseToParen output stack = .ok (out, rest)) :
    ∃ written opening below, out = written ++ output ∧ rest = opening :: below ∧
      ∀ g others (base : Base),
        releaseToParen others (stack.map (Token.moved g) ++ base.stack) =
          .ok (written.map (Token.moved g) ++ others,
            opening.moved g :: (below.map (Token.moved g) ++ base.stack)) := by
  induction stack generalizing output with
  | nil => cases h
  | cons top stack ih =>
    rw [releaseToParen] at h
    split at h
    next hopen =>
      cases h
      refine ⟨[], top, stack, rfl, rfl, fun g others base => ?_⟩
      rw [List.map_cons, List.cons_append, releaseToParen, moved_kind, if_pos hopen]
      rfl
    next hopen =>
      obtain ⟨written, opening, below, rfl, rfl, hwritten⟩ := ih h
      refine ⟨written ++ [top], opening, below, by simp, rfl, fun g others base => ?_⟩
      rw [List.map_cons, List.cons_append, releaseToParen, moved_kind, if_neg hopen, hwritten]
      simp

end

/-- A handler that leads from `s` to `next` adds to the output, and does so wherever its tokens
stand, and on every base. -/
def Local (s next : Conversion)
    (handler : (Position → Position) → Conversion → Except ConversionError Conversion) : Prop :=
  ∃ written, next.output = written ++ s.output ∧ ∀ g output base,
    handler g (s.placed g output base) =
      .ok (next.placed g (written.map (Token.moved g) ++ output) base)

section
variable {s next : Conversion} {token : Token}

theorem operand_local (h : s.operand token = .ok next) :
    Local s next fun g t => t.operand (token.moved g) := by
  unfold Conversion.operand at h
  split at h
  next hwanted =>
    cases h
    refine ⟨[token], rfl, fun g output base => ?_⟩
    simp [Conversion.operand, Conversion.placed, hwanted]
  · cases h

theorem openCall_local {opening : Token} (h : s.openCall token opening = .ok next) :
    Local s next fun g t => t.openCall (token.moved g) (opening.moved g) := by
  unfold Conversion.openCall at h
  split at h
  next hwanted =>
    cases h
    refine ⟨[], rfl, fun g output base => ?_⟩
    simp [Conversion.openCall, Conversion.placed, Frame.moved, hwanted]
  · cases h

theorem openParen_local (h : s.openParen token = .ok next) :
    Local s next fun g t => t.openParen (token.moved g) := by
  unfold Conversion.openParen at h
  split at h
  next hwanted =>
    cases h
    refine ⟨[], rfl, fun g output base => ?_⟩
    simp [Conversion.openParen, Conversion.placed, Frame.moved, hwanted]
  · cases h

theorem operator_local (h : s.operator token = .ok next) :
    Local s next fun g t => t.operator (token.moved g) := by
  obtain ⟨own, stack, frames, expectsOperand⟩ := s
  simp only [Conversion.operator] at h
  split at h
  · cases h
  next hassign =>
    cases expectsOperand with
    | true =>
      simp only [if_true] at h
      split at h
      · cases h
      next hmark =>
        split at h
        next hminus =>
          cases h
          refine ⟨[], rfl, fun g output base => ?_⟩
          simp [Conversion.operator, Conversion.placed, hminus]
          rfl
        next hminus =>
          split at h
          next hplus =>
            cases h
            refine ⟨[], rfl, fun g output base => ?_⟩
            simp [Conversion.operator, Conversion.placed, hplus]
          · cases h
    | false =>
      simp only [Bool.false_eq_true, if_false] at h
      split at h
      next hmark =>
        cases h
        refine ⟨[token], rfl, fun g output base => ?_⟩
        simp [Conversion.operator, Conversion.placed, hmark]
      next hmark =>
        cases hfind : findOperator? token.value with
        | none => simp [hfind] at h
        | some current =>
          simp only [hfind] at h
          obtain ⟨⟨out, rest⟩, hrelease, h⟩ := bind_eq_ok h
          cases h
          obtain ⟨written, rfl, hwritten⟩ := releaseBefore_placed hrelease
          refine ⟨written, rfl, fun g output base => ?_⟩
          simp [Conversion.operator, Conversion.placed, hassign, hmark, hfind, hwritten]

/-- The number of arguments depends on the top of the stack only. -/
theorem closingCount_placed {frame : Frame} {count : Nat}
    (h : s.closingCount frame token = .ok count) (g : Position → Position) (output : List Token)
    (base : Base) :
    (s.placed g output base).closingCount (frame.moved g) (token.moved g) = .ok count := by
  obtain ⟨own, stack, frames, expectsOperand⟩ := s
  have hcallee : (frame.moved g).callee.isSome = frame.callee.isSome := Option.isSome_map
  have hcommas : (frame.moved g).commas = frame.commas := rfl
  cases expectsOperand with
  | false => exact h
  | true =>
    simp only [Conversion.closingCount, Conversion.placed, hcallee, hcommas, if_true] at h ⊢
    split at h
    next hempty =>
      rw [if_pos hempty]
      cases stack with
      | nil => cases h
      | cons top below =>
        simp only [List.map_cons, List.cons_append] at h ⊢
        split at h
        next hopen =>
          have hmoved : (top.moved g).kind = .openParen := hopen
          rw [if_pos hmoved]
          exact h
        · cases h
    · cases h

theorem closeParen_local (h : s.closeParen token = .ok next) :
    Local s next fun g t => t.closeParen (token.moved g) := by
  simp only [Conversion.closeParen] at h
  cases hframes : s.frames with
  | nil =>
    rw [hframes] at h
    cases h
  | cons frame frames =>
    simp only [hframes] at h
    obtain ⟨count, hcount, h⟩ := bind_eq_ok h
    obtain ⟨⟨out, rest⟩, hrelease, h⟩ := bind_eq_ok h
    obtain ⟨written, opening, below, rfl, rfl, hwritten⟩ := releaseToParen_placed hrelease
    have hreleased : ∀ g output (base : Base),
        releaseToParen (s.placed g output base).output (s.placed g output base).stack =
          .ok (written.map (Token.moved g) ++ output,
            opening.moved g :: (below.map (Token.moved g) ++ base.stack)) := hwritten
    have hopened : ∀ g output (base : Base), (s.placed g output base).frames =
        frame.moved g :: (frames.map (Frame.moved g) ++ base.frames) := by
      intro g output base
      rw [Conversion.placed, hframes]
      rfl
    simp only [List.drop_one, List.tail_cons] at h
    cases hcallee : frame.callee with
    | none =>
      simp only [hcallee] at h
      cases h
      refine ⟨written, rfl, fun g output base => ?_⟩
      have hmoved : (frame.moved g).callee = none := by rw [Frame.moved, hcallee]; rfl
      simp [Conversion.closeParen, hopened, closingCount_placed hcount, hreleased, hmoved]
      rfl
    | some callee =>
      cases below with
      | nil => simp [hcallee] at h
      | cons name below =>
        simp only [hcallee] at h
        cases h
        refine ⟨callee.toCall token count :: written, rfl, fun g output base => ?_⟩
        have hmoved : (frame.moved g).callee = some (callee.moved g) := by
          rw [Frame.moved, hcallee]
          rfl
        simp [Conversion.closeParen, hopened, closingCount_placed hcount, hreleased, hmoved]
        rfl

theorem comma_local (h : s.comma token = .ok next) :
    Local s next fun g t => t.comma (token.moved g) := by
  obtain ⟨own, stack, frames, expectsOperand⟩ := s
  simp only [Conversion.comma] at h
  split at h
  next callee commas frames =>
    split at h
    · cases h
    next hwanted =>
      obtain ⟨⟨out, rest⟩, hrelease, h⟩ := bind_eq_ok h
      obtain ⟨written, opening, below, rfl, rfl, hwritten⟩ := releaseToParen_placed hrelease
      cases h
      refine ⟨written, rfl, fun g output base => ?_⟩
      simp only [Conversion.comma, Conversion.placed, Frame.moved, List.map_cons, Option.map_some,
        List.cons_append, if_neg hwanted, hwritten]
      rfl
  · cases h

theorem Step.placed {taken : List Token} (h : Step s taken next) :
    ∃ written, next.output = written ++ s.output ∧ ∀ g output base,
      Step (s.placed g output base) (taken.map (Token.moved g))
        (next.placed g (written.map (Token.moved g) ++ output) base) := by
  cases h with
  | operand hk hn =>
    obtain ⟨written, hout, hwritten⟩ := operand_local hn
    exact ⟨written, hout, fun g output base => .operand hk (hwritten g output base)⟩
  | openCall hk ho hn =>
    obtain ⟨written, hout, hwritten⟩ := openCall_local hn
    exact ⟨written, hout, fun g output base => .openCall hk ho (hwritten g output base)⟩
  | operator hk hn =>
    obtain ⟨written, hout, hwritten⟩ := operator_local hn
    exact ⟨written, hout, fun g output base => .operator hk (hwritten g output base)⟩
  | openParen hk hn =>
    obtain ⟨written, hout, hwritten⟩ := openParen_local hn
    exact ⟨written, hout, fun g output base => .openParen hk (hwritten g output base)⟩
  | closeParen hk hn =>
    obtain ⟨written, hout, hwritten⟩ := closeParen_local hn
    exact ⟨written, hout, fun g output base => .closeParen hk (hwritten g output base)⟩
  | comma hk hn =>
    obtain ⟨written, hout, hwritten⟩ := comma_local hn
    exact ⟨written, hout, fun g output base => .comma hk (hwritten g output base)⟩

end

/-- Steps do the same wherever their tokens stand, and whatever was written before them and lies
below them. -/
theorem Steps.placed {s last : Conversion} {ts : List Token} (h : Steps s ts last) :
    ∃ written, last.output = written ++ s.output ∧ ∀ g output base,
      Steps (s.placed g output base) (ts.map (Token.moved g))
        (last.placed g (written.map (Token.moved g) ++ output) base) := by
  induction h with
  | refl s => exact ⟨[], rfl, fun g output base => .refl _⟩
  | cons hstep _ ih =>
    obtain ⟨first, hfirst, hnext⟩ := hstep.placed
    obtain ⟨written, hwritten, hlast⟩ := ih
    refine ⟨written ++ first, by rw [hwritten, hfirst, List.append_assoc], ?_⟩
    intro g output base
    rw [List.map_append, List.map_append, List.append_assoc]
    exact .cons (hnext g output base) (hlast g (first.map (Token.moved g) ++ output) base)

theorem Step.not_endOfInput {s next : Conversion} {taken : List Token} (h : Step s taken next) :
    ∀ token ∈ taken, token.kind ≠ .endOfInput := by
  intro token ht
  cases h with
  | operand hk _ =>
    rw [List.mem_singleton.mp ht]
    rcases hk with hk | hk <;> rw [hk] <;> decide
  | openCall hk ho _ =>
    rcases List.mem_cons.mp ht with rfl | ht
    · rw [hk]
      decide
    · rw [List.mem_singleton.mp ht, ho]
      decide
  | operator hk _ => rw [List.mem_singleton.mp ht, hk]; decide
  | openParen hk _ => rw [List.mem_singleton.mp ht, hk]; decide
  | closeParen hk _ => rw [List.mem_singleton.mp ht, hk]; decide
  | comma hk _ => rw [List.mem_singleton.mp ht, hk]; decide

theorem Steps.not_endOfInput {s last : Conversion} {ts : List Token} (h : Steps s ts last) :
    ∀ token ∈ ts, token.kind ≠ .endOfInput := by
  induction h with
  | refl => simp
  | cons hstep _ ih =>
    intro token ht
    rcases List.mem_append.mp ht with ht | ht
    · exact hstep.not_endOfInput token ht
    · exact ih token ht

/-- The first end of the input of a token list is one place. -/
theorem endOfInput_unique {ts us rest others : List Token} {stop last : Token}
    (h : ts ++ stop :: rest = us ++ last :: others) (hts : ∀ token ∈ ts, token.kind ≠ .endOfInput)
    (hus : ∀ token ∈ us, token.kind ≠ .endOfInput) (hstop : stop.kind = .endOfInput)
    (hlast : last.kind = .endOfInput) : ts = us ∧ stop = last ∧ rest = others := by
  induction ts generalizing us with
  | nil =>
    cases us with
    | nil =>
      cases h
      exact ⟨rfl, rfl, rfl⟩
    | cons token us =>
      cases h
      exact absurd hstop (hus stop (by simp))
  | cons token ts ih =>
    cases us with
    | nil =>
      cases h
      exact absurd hlast (hts last (by simp))
    | cons other us =>
      obtain ⟨rfl, htail⟩ := List.cons.inj h
      obtain ⟨rfl, hrest⟩ := ih htail (fun t ht => hts t (List.mem_cons_of_mem _ ht))
        (fun t ht => hus t (List.mem_cons_of_mem _ ht))
      exact ⟨rfl, hrest⟩

theorem releaseAll_eq_ok_iff {output out stack : List Token} :
    releaseAll output stack = .ok out ↔
      (∀ token ∈ stack, token.kind ≠ .openParen) ∧ out = stack.reverse ++ output := by
  induction stack generalizing output with
  | nil => simp [releaseAll, eq_comm]
  | cons top stack ih =>
    rw [releaseAll]
    split
    next hopen => simp [reject, hopen]
    next hopen => simp [ih, hopen]

/-- Above a parenthesis all of a stack is released that the end of the input would release. -/
theorem releaseToParen_of_releaseAll {stack below : List Token} {opening : Token}
    (h : ∀ token ∈ stack, token.kind ≠ .openParen) (ho : opening.kind = .openParen)
    (output : List Token) :
    releaseToParen output (stack ++ opening :: below) =
      .ok (stack.reverse ++ output, opening :: below) := by
  induction stack generalizing output with
  | nil => rw [List.nil_append, releaseToParen, if_pos ho]; rfl
  | cons top stack ih =>
    rw [List.cons_append, releaseToParen, if_neg (h top (by simp)),
      ih (fun token ht => h token (List.mem_cons_of_mem _ ht))]
    simp

/-- At the end of the input an operand is complete, no parenthesis is open, and what is left of the
stack ends the program. -/
theorem finish_eq_ok_iff {s : Conversion} {stop : Token} {program : List Token} :
    s.finish stop = .ok program ↔ s.expectsOperand = false ∧
      (∀ token ∈ s.stack, token.kind ≠ .openParen) ∧ program = s.output.reverse ++ s.stack := by
  unfold Conversion.finish
  split
  next hwanted => simp [reject, hwanted]
  next hwanted =>
    have hcomplete : s.expectsOperand = false := by simpa using hwanted
    cases hall : releaseAll s.output s.stack with
    | error e =>
      have hnot : ¬ ∀ token ∈ s.stack, token.kind ≠ .openParen := by
        intro hno
        rw [releaseAll_eq_ok_iff.mpr ⟨hno, rfl⟩] at hall
        cases hall
      constructor
      · intro h
        cases h
      · intro h
        exact absurd h.2.1 hnot
    | ok out =>
      obtain ⟨hno, rfl⟩ := releaseAll_eq_ok_iff.mp hall
      constructor
      · intro h
        cases h
        exact ⟨hcomplete, hno, by simp⟩
      · intro h
        simp [h.2.2]

/-- An accepted token list in parentheses is read as one operand, wherever it stands and on every
stack. -/
theorem steps_group {ts rest program output stack : List Token} {frames : List Frame}
    {stop opening closing : Token} (g : Position → Position)
    (hts : ∀ token ∈ ts, token.kind ≠ .endOfInput) (hstop : stop.kind = .endOfInput)
    (ho : opening.kind = .openParen) (hc : closing.kind = .closeParen)
    (h : Conversion.start.run (ts ++ stop :: rest) = .ok program) :
    Steps ⟨output, stack, frames, true⟩ (opening :: ts.map (Token.moved g) ++ [closing])
      ⟨(program.map (Token.moved g)).reverse ++ output, stack, frames, false⟩ := by
  obtain ⟨body, stop', rest', last, htokens, hk, hsteps, hfinish⟩ := steps_of_run h
  obtain ⟨rfl, _⟩ := endOfInput_unique htokens hts hsteps.not_endOfInput hstop hk
  obtain ⟨hcomplete, hno, hprogram⟩ := finish_eq_ok_iff.mp hfinish
  have hframes : last.frames = [] := (hsteps.stacked .nil).frames_eq_nil hno
  obtain ⟨written, hwritten, hplaced⟩ := hsteps.placed
  have hlast : last.output = written := by simpa [Conversion.start] using hwritten
  -- The inner steps stand on the parenthesis and its frame, at which the closing one stops.
  let base : Base := ⟨opening :: stack, ⟨none, 0⟩ :: frames, by simp [ho]⟩
  have hopen : Step ⟨output, stack, frames, true⟩ [opening]
      (Conversion.start.placed g output base) := .openParen ho rfl
  have hmoved : ∀ token ∈ last.stack.map (Token.moved g), token.kind ≠ .openParen := by
    intro token ht
    obtain ⟨original, horiginal, rfl⟩ := List.mem_map.mp ht
    exact hno original horiginal
  have hclose : Step (last.placed g (written.map (Token.moved g) ++ output) base) [closing]
      ⟨(program.map (Token.moved g)).reverse ++ output, stack, frames, false⟩ := by
    refine .closeParen hc ?_
    simp only [Conversion.placed, Conversion.closeParen, Conversion.closingCount, hframes,
      hcomplete, List.map_nil, List.nil_append, base, releaseToParen_of_releaseAll hmoved ho]
    rw [hprogram, hlast, List.map_append, List.map_reverse, List.reverse_append,
      List.reverse_reverse, List.append_assoc]
    rfl
  exact hopen.steps.trans ((hplaced g output base).trans hclose.steps)

theorem Step.taken {s next : Conversion} {taken : List Token} (h : Step s taken next) :
    (∃ token, taken = [token]) ∨
      ∃ callee opening, taken = [callee, opening] ∧ opening.kind = .openParen := by
  cases h with
  | openCall _ ho _ => exact .inr ⟨_, _, rfl, ho⟩
  | _ => exact .inl ⟨_, rfl⟩

theorem Step.name {s next : Conversion} {x : Token} (h : Step s [x] next)
    (hx : x.kind = .identifier) : s.operand x = .ok next := by
  cases h with
  | operand _ hn => exact hn
  | operator hk _ => rw [hx] at hk; cases hk
  | openParen hk _ => rw [hx] at hk; cases hk
  | closeParen hk _ => rw [hx] at hk; cases hk
  | comma hk _ => rw [hx] at hk; cases hk

/-- A name that is an operand is read in a step of its own. -/
theorem Steps.split {s last : Conversion} {before after : List Token} {x : Token}
    (hx : x.kind = .identifier) (hafter : Follows after) (h : Steps s (before ++ x :: after) last) :
    ∃ mid next, Steps s before mid ∧ mid.operand x = .ok next ∧ Steps next after last := by
  generalize hall : before ++ x :: after = all at h
  induction h generalizing before with
  | refl => simp at hall
  | @cons s next last taken ts hstep hsteps ih =>
    obtain ⟨token, rfl⟩ | ⟨callee, opening, rfl, ho⟩ := hstep.taken
    · cases before with
      | nil =>
        cases hall
        exact ⟨s, next, .refl s, hstep.name hx, hsteps⟩
      | cons first before =>
        obtain ⟨rfl, hrest⟩ := List.cons.inj hall
        obtain ⟨mid, after', hmid, hoperand, hlast⟩ := ih hrest
        exact ⟨mid, after', .cons hstep hmid, hoperand, hlast⟩
    · -- The name of a call has its parenthesis behind it, so it is not `x`.
      match before, hall with
      | [], hall =>
        cases hall
        exact absurd ho (hafter opening rfl)
      | [first], hall =>
        cases hall
        rw [hx] at ho
        cases ho
      | first :: second :: before, hall =>
        cases hall
        obtain ⟨mid, after', hmid, hoperand, hlast⟩ := ih rfl
        exact ⟨mid, after', .cons hstep hmid, hoperand, hlast⟩

theorem follows_of_append {ts rest : List Token} {stop : Token}
    (h : Follows (ts ++ stop :: rest)) : Follows ts := by
  cases ts with
  | nil => intro next hnext; cases hnext
  | cons token ts => exact h

/-- A token list up to the first end of its input goes on behind what stands before that end. -/
theorem exists_of_append_eq {before after body rest : List Token} {x stop : Token}
    (h : before ++ x :: after = body ++ stop :: rest)
    (hbefore : ∀ token ∈ before, token.kind ≠ .endOfInput) (hx : x.kind ≠ .endOfInput)
    (hstop : stop.kind = .endOfInput) :
    ∃ middle, body = before ++ x :: middle ∧ after = middle ++ stop :: rest := by
  obtain ⟨others, hbody, hothers⟩ | ⟨others, hsplit, hothers⟩ := List.append_eq_append_iff.mp h
  · cases others with
    | nil =>
      cases hothers
      exact absurd hstop hx
    | cons token middle =>
      cases hothers
      exact ⟨middle, hbody, rfl⟩
  · cases others with
    | nil =>
      cases hothers
      exact absurd hstop hx
    | cons token middle =>
      cases hothers
      exact absurd hstop (hbefore stop (by rw [hsplit]; simp))

/-- A run in which a name is an operand, and the same run with anything else in the place of the
name that is read as one operand. -/
theorem run_substitute {before after program : List Token} {x : Token}
    (hbefore : ∀ token ∈ before, token.kind ≠ .endOfInput) (hx : x.kind = .identifier)
    (hafter : Follows after)
    (h : Conversion.start.run (before ++ x :: after) = .ok program) :
    ∃ pre post, program = pre ++ x :: post ∧ ∀ ts inner : List Token,
      (∀ output stack frames,
        Steps ⟨output, stack, frames, true⟩ ts ⟨inner.reverse ++ output, stack, frames, false⟩) →
      Conversion.start.run (before ++ ts ++ after) = .ok (pre ++ inner ++ post) := by
  obtain ⟨body, stop, rest, last, htokens, hstop, hsteps, hfinish⟩ := steps_of_run h
  obtain ⟨middle, rfl, rfl⟩ := exists_of_append_eq htokens hbefore (by rw [hx]; decide) hstop
  obtain ⟨⟨output, stack, frames, expectsOperand⟩, next, hmid, hoperand, hlast⟩ :=
    hsteps.split hx (follows_of_append hafter)
  obtain ⟨hcomplete, hno, hprogram⟩ := finish_eq_ok_iff.mp hfinish
  obtain ⟨written, hwritten, hplaced⟩ := hlast.placed
  cases expectsOperand with
  | false => cases hoperand
  | true =>
    cases hoperand
    refine ⟨output.reverse, written.reverse ++ last.stack, ?_, ?_⟩
    · rw [hprogram, hwritten]
      simp
    · intro ts inner hts
      -- Nothing lies below the whole run: only the output before the rest of it is another.
      let base : Base := ⟨[], [], by simp⟩
      have hrest : Steps ⟨inner.reverse ++ output, stack, frames, false⟩ middle
          (last.placed id (written ++ (inner.reverse ++ output)) base) := by
        have hsame := hplaced id (inner.reverse ++ output) base
        simpa [Conversion.placed, base] using hsame
      have hall := (hmid.trans (hts output stack frames)).trans hrest
      have hend : (last.placed id (written ++ (inner.reverse ++ output)) base).finish stop =
          .ok (output.reverse ++ inner ++ (written.reverse ++ last.stack)) := by
        rw [finish_eq_ok_iff]
        exact ⟨hcomplete, by simpa [Conversion.placed, base] using hno,
          by simp [Conversion.placed, base]⟩
      rw [← List.append_assoc, run_of_steps hall (follows_cons (by rw [hstop]; decide)),
        run_endOfInput hstop, hend]

/-- The place of a name that is an operand: before the end of the input, without a parenthesis after
it, and not that of the name that is assigned to. -/
structure OperandAt (before : List Token) (x : Token) (after : List Token) : Prop where
  reached : ∀ token ∈ before, token.kind ≠ .endOfInput
  isName : x.kind = .identifier
  noCall : Follows after
  noTarget : before = [] → ∀ sign ∈ after.head?, ¬ sign.IsSign "="

theorem splitTarget_openParen {opening : Token} (ho : opening.kind = .openParen)
    (rest : List Token) : splitTarget (opening :: rest) = (none, opening :: rest) := by
  rcases splitTarget_cases (opening :: rest) with ⟨name, _, _, heq, hname, _⟩ | heq
  · cases heq
    rw [ho] at hname
    cases hname
  · exact heq

/-- Whether a name is assigned to does not depend on what stands for an operand. -/
theorem OperandAt.splitTarget {before after : List Token} {x : Token}
    (h : OperandAt before x after) :
    ∃ target body, (∀ token ∈ body, token.kind ≠ .endOfInput) ∧
      Reckoner.splitTarget (before ++ x :: after) = (target, body ++ x :: after) ∧
      ∀ opening rest, opening.kind = .openParen →
        Reckoner.splitTarget (before ++ opening :: rest) = (target, body ++ opening :: rest) := by
  obtain ⟨hreached, hx, _, htarget⟩ := h
  match before, hreached with
  | [], _ =>
    refine ⟨none, [], by simp, ?_, ?_⟩
    · cases after with
      | nil => rfl
      | cons sign after =>
        have hne : ¬ (x.kind = .identifier ∧ sign.kind = .operator ∧ sign.value = "=") :=
          fun hand => htarget rfl sign rfl hand.2
        simp only [List.nil_append, Reckoner.splitTarget, if_neg hne]
    · intro opening rest ho
      exact splitTarget_openParen ho rest
  | [first], hreached =>
    refine ⟨none, [first], hreached, ?_, ?_⟩
    · have hne : ¬ (first.kind = .identifier ∧ x.kind = .operator ∧ x.value = "=") := by
        simp [hx]
      simp only [List.cons_append, List.nil_append, Reckoner.splitTarget, if_neg hne]
    · intro opening rest ho
      have hne : ¬ (first.kind = .identifier ∧ opening.kind = .operator ∧
          opening.value = "=") := by simp [ho]
      simp only [List.cons_append, List.nil_append, Reckoner.splitTarget, if_neg hne]
  | first :: second :: before, hreached =>
    by_cases hassign : first.kind = .identifier ∧ second.kind = .operator ∧ second.value = "="
    · refine ⟨some first, before, fun token ht => hreached token (by simp [ht]), ?_, ?_⟩
      · simp only [List.cons_append, Reckoner.splitTarget, if_pos hassign]
      · intro opening rest _
        simp only [List.cons_append, Reckoner.splitTarget, if_pos hassign]
    · refine ⟨none, first :: second :: before, hreached, ?_, ?_⟩
      · simp only [List.cons_append, Reckoner.splitTarget, if_neg hassign]
      · intro opening rest _
        simp only [List.cons_append, Reckoner.splitTarget, if_neg hassign]

theorem run_of_untargeted {source : String} {tokens : List Token} {e : Expression}
    (h : Expression.ofTokens source tokens = .ok e) (hnone : e.target = none) :
    Conversion.start.run tokens = .ok e.program := by
  obtain ⟨htarget, hrun⟩ := run_of_ofTokens h
  rcases splitTarget_cases tokens with ⟨name, _, _, _, _, _, heq⟩ | heq
  · rw [heq, hnone] at htarget
    cases htarget
  · rw [heq] at hrun
    exact hrun

/-- In an accepted token list a name that is an operand may be replaced by any accepted token list
without a target in parentheses, and in its program by the program of that list. -/
theorem ofTokens_substitute {source : String} {before after : List Token} {x : Token}
    {e : Expression} (hx : OperandAt before x after)
    (h : Expression.ofTokens source (before ++ x :: after) = .ok e) :
    ∃ pre post, e.program = pre ++ x :: post ∧
      ∀ {whole other : String} {ts rest : List Token} {stop opening closing : Token}
        {t : Expression}, (∀ token ∈ ts, token.kind ≠ .endOfInput) → stop.kind = .endOfInput →
        Expression.ofTokens other (ts ++ stop :: rest) = .ok t → t.target = none →
        opening.kind = .openParen → closing.kind = .closeParen →
        Expression.ofTokens whole (before ++ opening :: ts ++ closing :: after) =
          .ok ⟨whole, pre ++ t.program ++ post, e.target⟩ := by
  obtain ⟨target, body, hbody, hsplit, hsplit'⟩ := hx.splitTarget
  obtain ⟨htarget, hrun⟩ := run_of_ofTokens h
  rw [hsplit] at htarget hrun
  obtain ⟨pre, post, hprogram, hsubstitute⟩ := run_substitute hbody hx.isName hx.noCall hrun
  refine ⟨pre, post, hprogram, ?_⟩
  intro whole other ts rest stop opening closing t hts hstop ht hnone ho hc
  have htrun := run_of_untargeted ht hnone
  have hwhole : before ++ opening :: ts ++ closing :: after =
      before ++ opening :: (ts ++ closing :: after) := by simp
  have hgroup := hsubstitute (opening :: ts ++ [closing]) t.program fun output stack frames => by
    simpa using steps_group id hts hstop ho hc htrun
  have hsplitted := hsplit' opening (ts ++ closing :: after) ho
  rw [hwhole, htarget]
  cases body with
  | nil => exact ofTokens_of_split hsplitted (by rw [ho]; decide) (by simpa using hgroup)
  | cons first body =>
    exact ofTokens_of_split hsplitted (hbody first (by simp)) (by simpa using hgroup)

end Reckoner
