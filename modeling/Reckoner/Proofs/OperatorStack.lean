import Reckoner.Proofs.Grammar

namespace Reckoner

/-- The least precedence of the operators that an operand of a level leaves waiting. -/
def Level.floor : Level → Nat
  | .sum => 1
  | .product => 2
  | .signed => 3
  | .power => 3
  | .marked => 5
  | .primary => 5

/-- What the precedence of an operator stays below that an operand of a level may follow: no
operator inside the operand releases it. -/
def Level.ceiling : Level → Nat
  | .sum => 1
  | .product => 2
  | _ => 5

theorem Level.floor_mono {level tight : Level} (h : level.rank ≤ tight.rank) :
    level.floor ≤ tight.floor := by
  revert h
  cases level <;> cases tight <;> decide

theorem Level.ceiling_mono {level tight : Level} (h : level.rank ≤ tight.rank) :
    level.ceiling ≤ tight.ceiling := by
  revert h
  cases level <;> cases tight <;> decide

def BinarySign.operator : BinarySign → Operator
  | .plus => ⟨"+", 1, .left, .between⟩
  | .minus => ⟨"-", 1, .left, .between⟩
  | .times => ⟨"*", 2, .left, .between⟩
  | .over => ⟨"/", 2, .left, .between⟩
  | .power => ⟨"^", 4, .right, .between⟩

@[simp] theorem findOperator_text (op : BinarySign) : findOperator? op.text = some op.operator := by
  cases op <;> rfl

/-- An operator releases what binds as tightly as the operators of its left operand. -/
theorem bindsBefore_iff (o : Operator) (op : BinarySign) :
    o.bindsBefore op.operator = true ↔ op.leftLevel.floor ≤ o.precedence := by
  simp only [Operator.bindsBefore, Bool.or_eq_true, Bool.and_eq_true, decide_eq_true_eq, beq_iff_eq]
  cases op <;> simp [BinarySign.operator, BinarySign.leftLevel, Level.floor] <;> omega

/-- An operator that waits on the stack for its last operand. -/
def Token.Waits (token : Token) (precedence : Nat) : Prop :=
  (token.kind = .operator ∨ token.kind = .negation) ∧
    ∃ o, findOperator? token.operatorKey = some o ∧ o.precedence = precedence

theorem Token.IsSign.waits {sign : Token} {op : BinarySign} (h : sign.IsSign op.text) :
    sign.Waits op.operator.precedence := by
  refine ⟨.inl h.1, op.operator, ?_, rfl⟩
  have hkey : sign.operatorKey = op.text := by simp [operatorKey, h.1, h.2]
  rw [hkey, findOperator_text]

theorem waits_toNegation (sign : Token) : sign.toNegation.Waits 3 :=
  ⟨.inr rfl, _, rfl, rfl⟩

theorem Token.Waits.not_openParen {token : Token} {p : Nat} (h : token.Waits p) :
    token.kind ≠ .openParen := by
  rcases h.1 with hk | hk <;> rw [hk] <;> decide

/-- Operators on the stack that bind at least as tightly as `floor`. -/
def Pending (floor : Nat) (waiting : List Token) : Prop :=
  ∀ token ∈ waiting, ∃ p, token.Waits p ∧ floor ≤ p ∧ p ≤ 4

theorem pending_nil {floor : Nat} : Pending floor [] := by
  intro token ht
  simp at ht

theorem Pending.mono {floor bound : Nat} {waiting : List Token} (hle : bound ≤ floor)
    (h : Pending floor waiting) : Pending bound waiting := by
  intro token ht
  obtain ⟨p, hw, hf, hp⟩ := h token ht
  exact ⟨p, hw, by omega, hp⟩

theorem Pending.append {floor : Nat} {waiting below : List Token} (h : Pending floor waiting)
    (hb : Pending floor below) : Pending floor (waiting ++ below) := by
  intro token ht
  rcases List.mem_append.mp ht with hl | hr
  · exact h token hl
  · exact hb token hr

/-- Nothing binds more tightly than a power. -/
theorem Pending.eq_nil {waiting : List Token} (h : Pending 5 waiting) : waiting = [] := by
  cases waiting with
  | nil => rfl
  | cons token rest =>
    obtain ⟨p, _, hf, hp⟩ := h token (by simp)
    omega

theorem Pending.sign {sign : Token} {op : BinarySign} (h : sign.IsSign op.text) :
    Pending op.level.floor [sign] := by
  intro token ht
  rw [List.mem_singleton.mp ht]
  refine ⟨_, h.waits, ?_⟩
  cases op <;> decide

theorem Pending.negation (sign : Token) : Pending Level.signed.floor [sign.toNegation] := by
  intro token ht
  rw [List.mem_singleton.mp ht]
  exact ⟨3, waits_toNegation sign, by decide, by decide⟩

/-- The top of a stack, if it is an operator, binds less tightly than `bound`. -/
def Below (bound : Nat) : List Token → Prop
  | [] => True
  | top :: _ =>
    (top.kind ≠ .operator ∧ top.kind ≠ .negation) ∨ ∃ p, top.Waits p ∧ p < bound

theorem Below.mono {bound other : Nat} {stack : List Token} (hle : bound ≤ other)
    (h : Below bound stack) : Below other stack := by
  cases stack with
  | nil => trivial
  | cons top rest =>
    rcases h with hk | ⟨p, hw, hp⟩
    · exact .inl hk
    · exact .inr ⟨p, hw, by omega⟩

theorem below_openParen {bound : Nat} {opening : Token} {stack : List Token}
    (h : opening.kind = .openParen) : Below bound (opening :: stack) := by
  refine .inl ?_
  rw [h]
  decide

theorem releaseBefore_waiting (op : BinarySign) {waiting : List Token}
    (h : Pending op.leftLevel.floor waiting) (output stack : List Token) :
    releaseBefore op.operator output (waiting ++ stack) =
      releaseBefore op.operator (waiting.reverse ++ output) stack := by
  induction waiting generalizing output with
  | nil => rfl
  | cons top rest ih =>
    obtain ⟨p, ⟨hkind, o, ho, hp⟩, hf, _⟩ := h top (by simp)
    have hbinds : o.bindsBefore op.operator = true := (bindsBefore_iff o op).mpr (by omega)
    rw [List.cons_append, releaseBefore, if_pos hkind, ho]
    simp only [hbinds, if_true]
    rw [ih (fun token ht => h token (List.mem_cons_of_mem top ht))]
    simp

theorem releaseBefore_below (op : BinarySign) {stack : List Token}
    (h : Below op.leftLevel.floor stack) (output : List Token) :
    releaseBefore op.operator output stack = .ok (output, stack) := by
  cases stack with
  | nil => rfl
  | cons top rest =>
    rcases h with ⟨ho, hn⟩ | ⟨p, ⟨hkind, o, ho, hp⟩, hlt⟩
    · rw [releaseBefore, if_neg (by simp [ho, hn])]
    · have hbinds : ¬ o.bindsBefore op.operator = true := by
        rw [bindsBefore_iff]
        omega
      rw [releaseBefore, if_pos hkind, ho]
      simp only [hbinds]
      rfl

/-- A sign between operands releases what waits of its left operand, and nothing under that. -/
theorem releaseBefore_operand (op : BinarySign) {waiting stack : List Token}
    (hw : Pending op.leftLevel.floor waiting) (hs : Below op.leftLevel.floor stack)
    (output : List Token) :
    releaseBefore op.operator output (waiting ++ stack) =
      .ok (waiting.reverse ++ output, stack) := by
  rw [releaseBefore_waiting op hw, releaseBefore_below op hs]

theorem releaseToParen_operand {floor : Nat} {waiting stack : List Token} {opening : Token}
    (hw : Pending floor waiting) (ho : opening.kind = .openParen) (output : List Token) :
    releaseToParen output (waiting ++ opening :: stack) =
      .ok (waiting.reverse ++ output, opening :: stack) := by
  induction waiting generalizing output with
  | nil => rw [List.nil_append, releaseToParen, if_pos ho]; rfl
  | cons top rest ih =>
    obtain ⟨p, hp, _⟩ := hw top (by simp)
    rw [List.cons_append, releaseToParen, if_neg hp.not_openParen,
      ih (fun token ht => hw token (List.mem_cons_of_mem top ht))]
    simp

theorem releaseAll_operand {floor : Nat} {waiting : List Token} (hw : Pending floor waiting)
    (output : List Token) : releaseAll output waiting = .ok (waiting.reverse ++ output) := by
  induction waiting generalizing output with
  | nil => rfl
  | cons top rest ih =>
    obtain ⟨p, hp, _⟩ := hw top (by simp)
    rw [releaseAll, if_neg hp.not_openParen,
      ih (fun token ht => hw token (List.mem_cons_of_mem top ht))]
    simp

theorem releaseAll_unclosed {floor : Nat} {waiting stack : List Token} {opening : Token}
    (hw : Pending floor waiting) (ho : opening.kind = .openParen) (output : List Token) :
    releaseAll output (waiting ++ opening :: stack) = reject .unclosedParen opening.span := by
  induction waiting generalizing output with
  | nil => rw [List.nil_append, releaseAll, if_pos ho]
  | cons top rest ih =>
    obtain ⟨p, hp, _⟩ := hw top (by simp)
    rw [List.cons_append, releaseAll, if_neg hp.not_openParen,
      ih (fun token ht => hw token (List.mem_cons_of_mem top ht))]

section
variable {output stack waiting : List Token} {frames : List Frame}

theorem operator_negation {sign : Token} (h : sign.IsSign "-") :
    Conversion.operator ⟨output, stack, frames, true⟩ sign =
      .ok ⟨output, sign.toNegation :: stack, frames, true⟩ := by
  simp [Conversion.operator, h.2]

theorem operator_plus {sign : Token} (h : sign.IsSign "+") :
    Conversion.operator ⟨output, stack, frames, true⟩ sign =
      .ok ⟨output, stack, frames, true⟩ := by
  simp [Conversion.operator, h.2]

theorem operator_factorial {sign : Token} (h : sign.IsSign "!") :
    Conversion.operator ⟨output, stack, frames, false⟩ sign =
      .ok ⟨sign :: output, stack, frames, false⟩ := by
  simp [Conversion.operator, h.2]

theorem operator_binary {op : BinarySign} {sign : Token} (h : sign.IsSign op.text)
    (hw : Pending op.leftLevel.floor waiting) (hs : Below op.leftLevel.floor stack) :
    Conversion.operator ⟨output, waiting ++ stack, frames, false⟩ sign =
      .ok ⟨waiting.reverse ++ output, sign :: stack, frames, true⟩ := by
  have hassign : op.text ≠ "=" := by cases op <;> decide
  have hmark : op.text ≠ "!" := by cases op <;> decide
  simp [Conversion.operator, h.2, hassign, hmark, releaseBefore_operand op hw hs]

theorem comma_argument {opening comma callee : Token} {floor commas : Nat}
    (hw : Pending floor waiting) (ho : opening.kind = .openParen) :
    Conversion.comma ⟨output, waiting ++ opening :: stack, ⟨some callee, commas⟩ :: frames, false⟩
        comma =
      .ok ⟨waiting.reverse ++ output, opening :: stack, ⟨some callee, commas + 1⟩ :: frames,
        true⟩ := by
  simp only [Conversion.comma, releaseToParen_operand hw ho]
  rfl

theorem closeParen_group {opening closing : Token} {floor commas : Nat}
    (hw : Pending floor waiting) (ho : opening.kind = .openParen) :
    Conversion.closeParen ⟨output, waiting ++ opening :: stack, ⟨none, commas⟩ :: frames, false⟩
        closing = .ok ⟨waiting.reverse ++ output, stack, frames, false⟩ := by
  simp only [Conversion.closeParen, Conversion.closingCount, releaseToParen_operand hw ho]
  rfl

theorem closeParen_call {callee opening closing : Token} {floor commas : Nat}
    (hw : Pending floor waiting) (ho : opening.kind = .openParen) :
    Conversion.closeParen ⟨output, waiting ++ opening :: callee :: stack,
        ⟨some callee, commas⟩ :: frames, false⟩ closing =
      .ok ⟨callee.toCall closing (commas + 1) :: (waiting.reverse ++ output), stack, frames,
        false⟩ := by
  simp only [Conversion.closeParen, Conversion.closingCount, releaseToParen_operand hw ho]
  rfl

theorem closeParen_emptyCall {callee opening closing : Token} (ho : opening.kind = .openParen) :
    Conversion.closeParen ⟨output, opening :: callee :: stack, ⟨some callee, 0⟩ :: frames, true⟩
        closing = .ok ⟨callee.toCall closing 0 :: output, stack, frames, false⟩ := by
  simp [Conversion.closeParen, Conversion.closingCount, releaseToParen, ho]

theorem finish_operand {stop : Token} {floor : Nat} (hw : Pending floor waiting) :
    Conversion.finish ⟨output, waiting, frames, false⟩ stop = .ok (output.reverse ++ waiting) := by
  simp [Conversion.finish, releaseAll_operand hw]

theorem finish_unclosed {opening stop : Token} {floor : Nat} (hw : Pending floor waiting)
    (ho : opening.kind = .openParen) :
    Conversion.finish ⟨output, waiting ++ opening :: stack, frames, false⟩ stop =
      reject .unclosedParen opening.span := by
  simp [Conversion.finish, releaseAll_unclosed hw ho, reject]

end

end Reckoner
