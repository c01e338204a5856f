import Reckoner.Proofs.Acceptance
import Reckoner.Proofs.Conversion
import Reckoner.Proofs.TreeEvaluation

namespace Reckoner

/-- The tokens that a program is made of. -/
inductive Token.IsNode (token : Token) : Prop
  | number (hk : token.kind = .number)
  | name (hk : token.kind = .identifier)
  | negation (hk : token.kind = .negation)
  | call (hk : token.kind = .call)
  | factorial (hs : token.IsSign "!")
  | binary (op : BinarySign) (hs : token.IsSign op.text)

/-- How many operands a node takes from the stack. -/
def Token.takes (node : Token) : Nat :=
  match node.kind with
  | .negation => 1
  | .operator => if node.value = "!" then 1 else 2
  | .call => node.argc
  | _ => 0

/-- The depth of the stack after a program, if every node finds the operands that it takes. -/
def depthAfter? (depth : Nat) : List Token → Option Nat
  | [] => some depth
  | node :: rest =>
    if node.takes ≤ depth then depthAfter? (depth - node.takes + 1) rest else none

/-- A run that leaves a stack of the given depth or fails, but does not break its stack. -/
def Yields (depth : Nat) : Except EvaluationError (List Number) → Prop
  | .ok stack => stack.length = depth
  | .error e => ∀ f, e ≠ .program f

theorem yields_mapError {span : Span} {stack : List Number} (x : Except NumericError Number) :
    Yields (stack.length + 1) ((x.map (· :: stack)).mapError (NumericError.at span)) := by
  match x with
  | .ok y => rfl
  | .error (.domain e) => intro f hf; cases hf
  | .error (.range e) => intro f hf; cases hf
  | .error (.fault e) => intro f hf; cases hf

theorem applyUnary_yields {token : Token} {f : Number → Except NumericError Number}
    {stack : List Number} (h : 1 ≤ stack.length) :
    Yields (stack.length - 1 + 1) (applyUnary token f stack) := by
  match stack, h with
  | x :: stack, _ => exact yields_mapError (f x)

theorem applyBinary_yields {token : Token} {f : Number → Number → Except NumericError Number}
    {stack : List Number} (h : 2 ≤ stack.length) :
    Yields (stack.length - 2 + 1) (applyBinary token f stack) := by
  match stack, h with
  | b :: a :: stack, _ => exact yields_mapError (f a b)

theorem applyCall_yields {token : Token} {stack : List Number} (h : token.argc ≤ stack.length) :
    Yields (stack.length - token.argc + 1) (applyCall token stack) := by
  unfold applyCall
  cases findBuiltin? token.value with
  | none => intro f hf; cases hf
  | some builtin =>
    by_cases harity : token.argc = builtin.arity
    · simp only [ne_eq, harity, not_true_eq_false, if_false]
      rw [harity] at h
      unfold Builtin.arity at h ⊢
      cases hrule : builtin.rule with
      | unary f =>
        rw [hrule] at h
        exact applyUnary_yields h
      | binary f =>
        rw [hrule] at h
        exact applyBinary_yields h
    · simp only [ne_eq, harity, not_false_eq_true, if_true]
      intro f hf
      cases hf

/-- A node that finds its operands replaces them by one value, or fails. -/
theorem step_yields {env : Environment} {node : Token} {stack : List Number} (hn : node.IsNode)
    (h : node.takes ≤ stack.length) :
    Yields (stack.length - node.takes + 1) (env.step node stack) := by
  unfold Token.takes at h ⊢
  unfold Environment.step
  cases hn with
  | number hk =>
    simp only [hk]
    cases Number.ofText? node.value with
    | some x => rfl
    | none => intro f hf; cases hf
  | name hk =>
    simp only [hk]
    cases env.value? node.value with
    | some x => rfl
    | none => intro f hf; cases hf
  | negation hk =>
    simp only [hk] at h ⊢
    exact applyUnary_yields h
  | call hk =>
    simp only [hk] at h ⊢
    exact applyCall_yields h
  | factorial hs =>
    simp only [hs.1, if_pos hs.2] at h ⊢
    exact applyUnary_yields h
  | binary op hs =>
    have hmark : node.value ≠ "!" := by
      rw [hs.2]
      cases op <;> decide
    have hop : binaryOperation? env.precision node.value = some (op.apply env.precision) := by
      rw [hs.2, binaryOperation_text]
    simp only [hs.1, if_neg hmark, hop] at h ⊢
    exact applyBinary_yields h

theorem execute_yields {env : Environment} {program : List Token} {stack : List Number}
    {depth : Nat} (hnodes : ∀ node ∈ program, node.IsNode)
    (hd : depthAfter? stack.length program = some depth) :
    Yields depth (env.execute program stack) := by
  induction program generalizing stack with
  | nil => exact Option.some.inj hd
  | cons node rest ih =>
    rw [depthAfter?] at hd
    split at hd
    next htakes =>
      have hstep : Yields _ (env.step node stack) := step_yields (hnodes node (by simp)) htakes
      rw [execute_cons]
      cases hnext : env.step node stack with
      | error e =>
        rw [hnext] at hstep
        exact hstep
      | ok next =>
        rw [hnext] at hstep
        have hlen : next.length = stack.length - node.takes + 1 := hstep
        rw [← hlen] at hd
        exact ih (fun n hn => hnodes n (List.mem_cons_of_mem _ hn)) hd
    next => cases hd

theorem evaluate_of_balanced {program : List Token} (hnodes : ∀ node ∈ program, node.IsNode)
    (hd : depthAfter? 0 program = some 1) (env : Environment) (f : ProgramFault) :
    env.evaluate program ≠ .error (.program f) := by
  have hrun : Yields 1 (env.execute program []) := execute_yields hnodes hd
  unfold Environment.evaluate
  match env.execute program [], hrun with
  | .error e, hrun => exact fun h => hrun f (Except.error.inj h)
  | .ok [x], _ => exact fun h => by cases h

theorem depthAfter_node {node : Token} {depth count : Nat} (rest : List Token)
    (h : node.takes = count) :
    depthAfter? (depth + count) (node :: rest) = depthAfter? (depth + 1) rest := by
  rw [depthAfter?, h, if_pos (Nat.le_add_left count depth), Nat.add_sub_cancel]

theorem takes_number {token : Token} (hk : token.kind = .number) : token.takes = 0 := by
  simp only [Token.takes, hk]

theorem takes_name {token : Token} (hk : token.kind = .identifier) : token.takes = 0 := by
  simp only [Token.takes, hk]

theorem takes_factorial {sign : Token} (hs : sign.IsSign "!") : sign.takes = 1 := by
  simp only [Token.takes, hs.1, if_pos hs.2]

theorem takes_binary {sign : Token} {op : BinarySign} (hs : sign.IsSign op.text) :
    sign.takes = 2 := by
  have hmark : sign.value ≠ "!" := by
    rw [hs.2]
    cases op <;> decide
  simp only [Token.takes, hs.1, if_neg hmark]

mutual

theorem depthAfter_postorder :
    ∀ (tree : Tree) (depth : Nat) (rest : List Token),
      depthAfter? depth (tree.postorder ++ rest) = depthAfter? (depth + 1) rest
  | .number token hk, depth, rest => depthAfter_node rest (takes_number hk)
  | .name token hk, depth, rest => depthAfter_node rest (takes_name hk)
  | .negation sign hs operand, depth, rest => by
    rw [Tree.postorder, List.append_assoc, depthAfter_postorder operand]
    exact depthAfter_node rest rfl
  | .factorial sign hs operand, depth, rest => by
    rw [Tree.postorder, List.append_assoc, depthAfter_postorder operand]
    exact depthAfter_node rest (takes_factorial hs)
  | .binary op sign hs left right, depth, rest => by
    rw [Tree.postorder, List.append_assoc, List.append_assoc, depthAfter_postorder left,
      depthAfter_postorder right]
    exact depthAfter_node rest (takes_binary hs)
  | .call callee closing hn hc args, depth, rest => by
    rw [Tree.postorder, List.append_assoc, depthAfter_postorders args]
    exact depthAfter_node rest rfl

theorem depthAfter_postorders :
    ∀ (trees : List Tree) (depth : Nat) (rest : List Token),
      depthAfter? depth (postorders trees ++ rest) = depthAfter? (depth + trees.length) rest
  | [], depth, rest => rfl
  | tree :: trees, depth, rest => by
    rw [postorders, List.append_assoc, depthAfter_postorder tree, depthAfter_postorders trees,
      List.length_cons, Nat.add_right_comm, Nat.add_assoc]

end

mutual

theorem isNode_of_mem_postorder :
    ∀ (tree : Tree), ∀ node ∈ tree.postorder, node.IsNode
  | .number token hk => by
    intro node hn
    rw [List.mem_singleton.mp hn]
    exact .number hk
  | .name token hk => by
    intro node hn
    rw [List.mem_singleton.mp hn]
    exact .name hk
  | .negation sign hs operand => by
    intro node hn
    rcases List.mem_append.mp hn with hn | hn
    · exact isNode_of_mem_postorder operand node hn
    · rw [List.mem_singleton.mp hn]
      exact .negation rfl
  | .factorial sign hs operand => by
    intro node hn
    rcases List.mem_append.mp hn with hn | hn
    · exact isNode_of_mem_postorder operand node hn
    · rw [List.mem_singleton.mp hn]
      exact .factorial hs
  | .binary op sign hs left right => by
    intro node hn
    rcases List.mem_append.mp hn with hn | hn
    · rcases List.mem_append.mp hn with hn | hn
      · exact isNode_of_mem_postorder left node hn
      · exact isNode_of_mem_postorder right node hn
    · rw [List.mem_singleton.mp hn]
      exact .binary op hs
  | .call callee closing hf hc args => by
    intro node hn
    rcases List.mem_append.mp hn with hn | hn
    · exact isNode_of_mem_postorders args node hn
    · rw [List.mem_singleton.mp hn]
      exact .call rfl

theorem isNode_of_mem_postorders :
    ∀ (trees : List Tree), ∀ node ∈ postorders trees, node.IsNode
  | [] => by simp
  | tree :: trees => by
    intro node hn
    rcases List.mem_append.mp hn with hn | hn
    · exact isNode_of_mem_postorder tree node hn
    · exact isNode_of_mem_postorders trees node hn

end

/-- The call that a name opens, as far as the name tells: where it ends and how many arguments it
has is not known yet. -/
def Token.openedCall (callee : Token) : Token :=
  ⟨.call, callee.value, callee.raw, ⟨callee.span.start, callee.span.start⟩, 0⟩

/-- A node without what only the end of a call tells. -/
def Token.opened (node : Token) : Token :=
  if node.kind = .call then node.openedCall else node

def Token.isOperand (token : Token) : Bool :=
  token.kind == .number || token.kind == .identifier

/-- The nodes that the tokens of an expression stand for, in the order of the text. A sign is a node
of two operands after an operand; before one, a minus sign is a negation and a plus sign nothing. -/
def nodesOf (afterOperand : Bool) : List Token → List Token
  | [] => []
  | token :: rest =>
    match token.kind with
    | .number => token :: nodesOf true rest
    | .identifier =>
      if rest.head?.any (·.kind == .openParen) then token.openedCall :: nodesOf false rest
      else token :: nodesOf true rest
    | .operator =>
      if token.value = "!" then token :: nodesOf true rest
      else if afterOperand then token :: nodesOf false rest
      else if token.value = "-" then token.toNegation :: nodesOf false rest
      else nodesOf false rest
    | .closeParen => nodesOf true rest
    | _ => nodesOf false rest

section
variable {token next : Token} {rest : List Token} {afterOperand : Bool}

attribute [local simp] nodesOf

theorem nodesOf_number (hk : token.kind = .number) :
    nodesOf afterOperand (token :: rest) = token :: nodesOf true rest := by
  simp [hk]

theorem nodesOf_name (hk : token.kind = .identifier) (hrest : Follows rest) :
    nodesOf afterOperand (token :: rest) = token :: nodesOf true rest := by
  have hopen : rest.head?.any (·.kind == .openParen) = false := by
    cases rest with
    | nil => rfl
    | cons next rest => exact beq_eq_false_iff_ne.mpr (hrest next rfl)
  rw [nodesOf, hk]
  simp only [hopen, Bool.false_eq_true, if_false]

theorem nodesOf_call (hk : token.kind = .identifier) (hnext : next.kind = .openParen) :
    nodesOf afterOperand (token :: next :: rest) = token.openedCall :: nodesOf false rest := by
  have hopen : (next :: rest).head?.any (·.kind == .openParen) = true := beq_iff_eq.mpr hnext
  rw [nodesOf, hk]
  simp only [hopen, if_true]
  rw [nodesOf, hnext]

theorem nodesOf_openParen (hk : token.kind = .openParen) :
    nodesOf afterOperand (token :: rest) = nodesOf false rest := by
  simp [hk]

theorem nodesOf_closeParen (hk : token.kind = .closeParen) :
    nodesOf afterOperand (token :: rest) = nodesOf true rest := by
  simp [hk]

theorem nodesOf_comma (hk : token.kind = .comma) :
    nodesOf afterOperand (token :: rest) = nodesOf false rest := by
  simp [hk]

theorem nodesOf_endOfInput (hk : token.kind = .endOfInput) :
    nodesOf afterOperand [token] = [] := by
  simp [hk]

theorem nodesOf_factorial (hs : token.IsSign "!") :
    nodesOf afterOperand (token :: rest) = token :: nodesOf true rest := by
  rw [nodesOf, hs.1]
  simp only [hs.2, if_true]

theorem nodesOf_binary {op : BinarySign} (hs : token.IsSign op.text) :
    nodesOf true (token :: rest) = token :: nodesOf false rest := by
  have hmark : token.value ≠ "!" := by
    rw [hs.2]
    cases op <;> decide
  rw [nodesOf, hs.1]
  simp only [if_neg hmark, if_true]

theorem nodesOf_negation (hs : token.IsSign "-") :
    nodesOf false (token :: rest) = token.toNegation :: nodesOf false rest := by
  have hmark : token.value ≠ "!" := by
    rw [hs.2]
    decide
  rw [nodesOf, hs.1]
  simp only [if_neg hmark, if_pos hs.2, Bool.false_eq_true, if_false]

theorem nodesOf_plus (hs : token.IsSign "+") :
    nodesOf false (token :: rest) = nodesOf false rest := by
  have hmark : token.value ≠ "!" ∧ token.value ≠ "-" := by
    rw [hs.2]
    decide
  rw [nodesOf, hs.1]
  simp only [if_neg hmark.1, if_neg hmark.2, Bool.false_eq_true, if_false]

end

/-- The program holds the nodes, each once, and has their operands in their order. -/
def Holds (program nodes : List Token) : Prop :=
  nodes.Perm (program.map Token.opened) ∧
    nodes.filter Token.isOperand = program.filter Token.isOperand

theorem holds_nil : Holds [] [] :=
  ⟨.refl _, rfl⟩

theorem holds_operand {token : Token} (hk : token.kind ≠ .call) : Holds [token] [token] := by
  refine ⟨?_, rfl⟩
  rw [List.map_singleton, Token.opened, if_neg hk]

theorem Holds.append {xs ys us vs : List Token} (h : Holds xs us) (h' : Holds ys vs) :
    Holds (xs ++ ys) (us ++ vs) := by
  refine ⟨?_, ?_⟩
  · rw [List.map_append]
    exact h.1.append h'.1
  · rw [List.filter_append, List.filter_append, h.2, h'.2]

/-- An operation stands in the text between its operands, before or after them, and in the program
behind them. -/
theorem Holds.operation {xs ys us vs : List Token} {node mark : Token} (h : Holds xs us)
    (h' : Holds ys vs) (hmark : node.opened = mark) (hnode : node.isOperand = false)
    (hm : mark.isOperand = false) : Holds (xs ++ ys ++ [node]) (us ++ mark :: vs) := by
  have hall := h.append h'
  refine ⟨?_, ?_⟩
  · rw [List.map_append, List.map_singleton, hmark]
    have hperm : (us ++ mark :: vs).Perm (mark :: (us ++ vs)) := List.perm_middle
    exact (hperm.trans (hall.1.cons mark)).trans (List.perm_append_singleton mark _).symm
  · rw [List.filter_append, List.filter_cons, hm, List.filter_append _ [node], ← hall.2,
      List.filter_append us]
    simp [hnode]

theorem isOperand_of_isSign {token : Token} {text : String} (hs : token.IsSign text) :
    token.isOperand = false := by
  rw [Token.isOperand, hs.1]
  rfl

theorem opened_of_isSign {token : Token} {text : String} (hs : token.IsSign text) :
    token.opened = token := by
  rw [Token.opened, if_neg]
  rw [hs.1]
  decide

/-- Where an operand is expected, `ts` stands for the nodes of a program, whatever comes next. -/
def StandsFor (ts program : List Token) : Prop :=
  ∀ rest, Follows rest →
    ∃ own, nodesOf false (ts ++ rest) = own ++ nodesOf true rest ∧ Holds program own

/-- As `StandsFor`, of tokens after which an operand is expected again. -/
def StandsForArguments (ts program : List Token) : Prop :=
  ∀ rest, ∃ own, nodesOf false (ts ++ rest) = own ++ nodesOf false rest ∧ Holds program own

section
variable {ts us program arguments : List Token}

theorem standsFor_group {opening closing : Token} (ho : opening.kind = .openParen)
    (hc : closing.kind = .closeParen) (h : StandsFor ts program) :
    StandsFor (opening :: ts ++ [closing]) program := by
  intro rest _
  obtain ⟨own, hown, hholds⟩ := h (closing :: rest) (follows_cons (by rw [hc]; decide))
  refine ⟨own, ?_, hholds⟩
  rw [List.append_assoc, List.cons_append, nodesOf_openParen ho, List.singleton_append, hown,
    nodesOf_closeParen hc]

theorem nodesOf_pluses {signs rest : List Token} (h : ∀ sign ∈ signs, sign.IsSign "+") :
    nodesOf false (signs ++ rest) = nodesOf false rest := by
  induction signs with
  | nil => rfl
  | cons sign signs ih =>
    rw [List.cons_append, nodesOf_plus (h sign (by simp)),
      ih (fun s hs => h s (List.mem_cons_of_mem _ hs))]

theorem standsFor_emptyCall {callee opening closing node : Token} {signs : List Token}
    (hn : callee.kind = .identifier) (ho : opening.kind = .openParen)
    (hc : closing.kind = .closeParen) (hsigns : ∀ sign ∈ signs, sign.IsSign "+")
    (hnode : node.opened = callee.openedCall) (hkind : node.isOperand = false) :
    StandsFor (callee :: opening :: signs ++ [closing]) [node] := by
  intro rest _
  refine ⟨[callee.openedCall], ?_, holds_nil.operation holds_nil hnode hkind rfl⟩
  rw [List.append_assoc, List.cons_append, List.cons_append, nodesOf_call hn ho,
    nodesOf_pluses hsigns, List.singleton_append, nodesOf_closeParen hc]
  rfl

theorem standsForArguments_concat {comma : Token} (hc : comma.kind = .comma)
    (hargs : StandsForArguments ts arguments) (h : StandsFor us program) :
    StandsForArguments (ts ++ us ++ [comma]) (arguments ++ program) := by
  intro rest
  obtain ⟨own, hown, hholds⟩ := hargs (us ++ comma :: rest)
  obtain ⟨own', hown', hholds'⟩ := h (comma :: rest) (follows_cons (by rw [hc]; decide))
  refine ⟨own ++ own', ?_, hholds.append hholds'⟩
  rw [List.append_assoc, List.append_assoc, List.singleton_append, hown, hown', nodesOf_comma hc,
    List.append_assoc]

theorem standsFor_call {callee opening closing node : Token} (hn : callee.kind = .identifier)
    (ho : opening.kind = .openParen) (hc : closing.kind = .closeParen)
    (hnode : node.opened = callee.openedCall) (hkind : node.isOperand = false)
    (hargs : StandsForArguments ts arguments) (h : StandsFor us program) :
    StandsFor (callee :: opening :: ts ++ us ++ [closing]) (arguments ++ program ++ [node]) := by
  intro rest _
  obtain ⟨own, hown, hholds⟩ := hargs (us ++ closing :: rest)
  obtain ⟨own', hown', hholds'⟩ := h (closing :: rest) (follows_cons (by rw [hc]; decide))
  have hall := holds_nil.operation (hholds.append hholds') hnode hkind rfl
  refine ⟨callee.openedCall :: (own ++ own'), ?_, hall⟩
  rw [List.append_assoc, List.append_assoc, List.cons_append, List.cons_append,
    nodesOf_call hn ho, List.singleton_append, hown, hown', nodesOf_closeParen hc,
    List.cons_append, List.append_assoc]

theorem standsFor_factorial {sign : Token} (hs : sign.IsSign "!") (h : StandsFor ts program) :
    StandsFor (ts ++ [sign]) (program ++ [sign]) := by
  intro rest _
  obtain ⟨own, hown, hholds⟩ := h (sign :: rest) (follows_cons (by rw [hs.1]; decide))
  have hall := hholds.operation holds_nil (opened_of_isSign hs) (isOperand_of_isSign hs)
    (isOperand_of_isSign hs)
  rw [List.append_nil] at hall
  refine ⟨own ++ [sign], ?_, hall⟩
  rw [List.append_assoc, List.singleton_append, hown, nodesOf_factorial hs, List.append_assoc,
    List.singleton_append]

theorem standsFor_binary {op : BinarySign} {sign : Token} {program' : List Token}
    (hs : sign.IsSign op.text) (hl : StandsFor ts program) (hr : StandsFor us program') :
    StandsFor (ts ++ sign :: us) (program ++ program' ++ [sign]) := by
  intro rest hrest
  obtain ⟨own, hown, hholds⟩ := hl (sign :: (us ++ rest)) (follows_cons (by rw [hs.1]; decide))
  obtain ⟨own', hown', hholds'⟩ := hr rest hrest
  have hall := hholds.operation hholds' (opened_of_isSign hs) (isOperand_of_isSign hs)
    (isOperand_of_isSign hs)
  refine ⟨own ++ sign :: own', ?_, hall⟩
  rw [List.append_assoc, List.cons_append, hown, nodesOf_binary hs, hown', List.append_assoc,
    List.cons_append]

theorem standsFor_negation {sign : Token} (hs : sign.IsSign "-") (h : StandsFor ts program) :
    StandsFor (sign :: ts) (program ++ [sign.toNegation]) := by
  intro rest hrest
  obtain ⟨own, hown, hholds⟩ := h rest hrest
  refine ⟨sign.toNegation :: own, ?_, holds_nil.operation hholds rfl rfl rfl⟩
  rw [List.cons_append, nodesOf_negation hs, hown, List.cons_append]

theorem standsFor_plus {sign : Token} (hs : sign.IsSign "+") (h : StandsFor ts program) :
    StandsFor (sign :: ts) program := by
  intro rest hrest
  obtain ⟨own, hown, hholds⟩ := h rest hrest
  refine ⟨own, ?_, hholds⟩
  rw [List.cons_append, nodesOf_plus hs, hown]

end

mutual

theorem standsFor_of_spells {lenient : Bool} {level : Level} {ts : List Token} {tree : Tree} :
    Spells lenient level ts tree → StandsFor ts tree.postorder
  | .number token hk => by
    intro rest _
    exact ⟨[token], nodesOf_number hk, holds_operand (by rw [hk]; decide)⟩
  | .name token hk => by
    intro rest hrest
    exact ⟨[token], nodesOf_name hk hrest, holds_operand (by rw [hk]; decide)⟩
  | .group ho hc hs => standsFor_group ho hc (standsFor_of_spells hs)
  | .emptyCall hn hc ho hsigns =>
    standsFor_emptyCall hn ho hc (fun sign h => (hsigns sign h).2) rfl rfl
  | .call hn hc ho ha hs => by
    rw [Tree.postorder, postorders_concat]
    exact standsFor_call hn ho hc rfl rfl (standsForArguments_of_spells ha)
      (standsFor_of_spells hs)
  | .factorial hsign hs => standsFor_factorial hsign (standsFor_of_spells hs)
  | .binary _ hsign hl hr =>
    standsFor_binary hsign (standsFor_of_spells hl) (standsFor_of_spells hr)
  | .negation hsign hs => standsFor_negation hsign (standsFor_of_spells hs)
  | .plus hsign hs => standsFor_plus hsign (standsFor_of_spells hs)
  | .loosen _ hs => standsFor_of_spells hs

theorem standsForArguments_of_spells {lenient : Bool} {ts : List Token} {args : List Tree} :
    SpellsArguments lenient ts args → StandsForArguments ts (postorders args)
  | .nil => fun _ => ⟨[], rfl, holds_nil⟩
  | .concat ha hs hc => by
    rw [postorders_concat]
    exact standsForArguments_concat hc (standsForArguments_of_spells ha) (standsFor_of_spells hs)

end

theorem holds_of_sentence {lenient : Bool} {tokens : List Token} {target : Option Token}
    {tree : Tree} (h : Sentence lenient tokens target tree) :
    Holds tree.postorder (nodesOf false (splitTarget tokens).2) := by
  obtain ⟨ts, stop, hsplit, hs, hk⟩ := h.split
  obtain ⟨own, hown, hholds⟩ := standsFor_of_spells hs [stop] (follows_cons (by rw [hk]; decide))
  rw [hsplit, hown, nodesOf_endOfInput hk, List.append_nil]
  exact hholds

/-- The program of a text that is accepted holds what the tokens of the text stand for, each once
and nothing else, with the operands in their order; it is balanced, and so its evaluation never
breaks the stack. -/
theorem program_of_accepted {source : String} {e : Expression}
    (h : Expression.parse source = .ok e) :
    ∃ tokens, tokenize source = .ok tokens ∧
      (nodesOf false (splitTarget tokens).2).Perm (e.program.map Token.opened) ∧
      (nodesOf false (splitTarget tokens).2).filter Token.isOperand =
        e.program.filter Token.isOperand ∧
      depthAfter? 0 e.program = some 1 ∧
      ∀ (env : Environment) (f : ProgramFault), env.evaluate e.program ≠ .error (.program f) := by
  obtain ⟨tokens, tree, htokens, hsentence, hprogram⟩ := sentence_of_parse h
  have hholds := holds_of_sentence hsentence
  have hdepth := depthAfter_postorder tree 0 []
  rw [List.append_nil] at hdepth
  rw [hprogram]
  exact ⟨tokens, htokens, hholds.1, hholds.2, hdepth,
    evaluate_of_balanced (isNode_of_mem_postorder tree) hdepth⟩

/-- The expression that the text `y = 2+max(x, -3)!` is converted to. -/
def signedMaximum : Expression :=
  ⟨"y = 2+max(x, -3)!",
    [.written .number "2" 4, .written .identifier "x" 10, .written .number "3" 14,
     ⟨.negation, "neg", "-", ⟨⟨1, 14, 13⟩, ⟨1, 15, 14⟩⟩, 0⟩,
     ⟨.call, "max", "max", ⟨⟨1, 7, 6⟩, ⟨1, 17, 16⟩⟩, 2⟩, .written .operator "!" 16,
     .written .operator "+" 5],
    some (.written .identifier "y" 0)⟩

theorem signedMaximum_accepted :
    Expression.parse "y = 2+max(x, -3)!" = .ok signedMaximum ∧
      (∃ tokens, tokenize "y = 2+max(x, -3)!" = .ok tokens ∧
        (nodesOf false (splitTarget tokens).2).Perm (signedMaximum.program.map Token.opened)) ∧
      depthAfter? 0 signedMaximum.program = some 1 := by
  have haccepted : Expression.parse "y = 2+max(x, -3)!" = .ok signedMaximum :=
    eq_ok_of_toOption (by decide +kernel)
  obtain ⟨tokens, htokens, hperm, _, hdepth, _⟩ := program_of_accepted haccepted
  exact ⟨haccepted, ⟨tokens, htokens, hperm⟩, hdepth⟩

end Reckoner
