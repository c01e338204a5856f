import Reckoner.Proofs.Grammar
import Reckoner.Proofs.Steps
import Reckoner.Report

namespace Reckoner

def BinarySign.apply (precision : Nat) : BinarySign → Number → Number → Except NumericError Number
  | .plus => Number.add
  | .minus => Number.sub
  | .times => Number.mul
  | .over => Number.div precision
  | .power => Number.pow

/-- The value of a call whose arguments have values. -/
def callValue (name : String) (span : Span) (args : List Number) :
    Except EvaluationError Number :=
  match findBuiltin? name with
  | none => .error (.failed ⟨.undefinedFunction name, span⟩)
  | some builtin =>
    match builtin.apply? args with
    | none => .error (.failed ⟨.arity name builtin.arity args.length, span⟩)
    | some outcome => outcome.mapError (NumericError.at span)

mutual

/-- The operands of a node are evaluated from left to right, and then the node. A name means its
variable, and where there is none the constant. -/
def Tree.eval (env : Environment) : Tree → Except EvaluationError Number
  | .number token _ =>
    match Number.ofText? token.value with
    | some x => .ok x
    | none => .error (.malformed token.value)
  | .name token _ =>
    match env.lookup token.value, findConstant? token.value with
    | some x, _ => .ok x
    | none, some x => .ok x
    | none, none => .error (.failed ⟨.undefinedVariable token.value, token.span⟩)
  | .negation _ _ operand => do
    let x ← operand.eval env
    return x.neg
  | .factorial sign _ operand => do
    let x ← operand.eval env
    x.factorial.mapError (NumericError.at sign.span)
  | .binary op sign _ left right => do
    let x ← left.eval env
    let y ← right.eval env
    (op.apply env.precision x y).mapError (NumericError.at sign.span)
  | .call callee closing _ _ args => do
    let xs ← evalAll env args
    callValue callee.value ⟨callee.span.start, closing.span.stop⟩ xs

def evalAll (env : Environment) : List Tree → Except EvaluationError (List Number)
  | [] => .ok []
  | tree :: trees => do
    let x ← tree.eval env
    let xs ← evalAll env trees
    return x :: xs

end

section
variable {env : Environment}

theorem eval_binary {op : BinarySign} {sign : Token} {hs : sign.IsSign op.text}
    {left right : Tree} {x : Number} (h : (Tree.binary op sign hs left right).eval env = .ok x) :
    ∃ y z, left.eval env = .ok y ∧ right.eval env = .ok z ∧
      op.apply env.precision y z = .ok x := by
  rw [Tree.eval] at h
  obtain ⟨y, hy, h⟩ := bind_eq_ok h
  obtain ⟨z, hz, h⟩ := bind_eq_ok h
  exact ⟨y, z, hy, hz, mapError_eq_ok h⟩

theorem eval_call {callee closing : Token} {hn : callee.kind = .identifier}
    {hc : closing.kind = .closeParen} {args : List Tree} {x : Number}
    (h : (Tree.call callee closing hn hc args).eval env = .ok x) :
    ∃ xs, evalAll env args = .ok xs ∧
      callValue callee.value ⟨callee.span.start, closing.span.stop⟩ xs = .ok x := by
  rw [Tree.eval] at h
  exact bind_eq_ok h

theorem evalAll_cons {tree : Tree} {trees : List Tree} {xs : List Number}
    (h : evalAll env (tree :: trees) = .ok xs) :
    ∃ x ys, tree.eval env = .ok x ∧ evalAll env trees = .ok ys ∧ xs = x :: ys := by
  rw [evalAll] at h
  obtain ⟨x, hx, h⟩ := bind_eq_ok h
  obtain ⟨ys, hys, h⟩ := bind_eq_ok h
  cases h
  exact ⟨x, ys, hx, hys, rfl⟩

theorem evalAll_length {trees : List Tree} {xs : List Number} (h : evalAll env trees = .ok xs) :
    xs.length = trees.length := by
  induction trees generalizing xs with
  | nil =>
    cases h
    rfl
  | cons tree trees ih =>
    obtain ⟨x, ys, _, hys, rfl⟩ := evalAll_cons h
    rw [List.length_cons, List.length_cons, ih hys]

end

section
variable {env : Environment} {stack : List Number}

theorem execute_cons (token : Token) (rest : List Token) :
    env.execute (token :: rest) stack = env.step token stack >>= env.execute rest := by
  rw [Environment.execute]
  cases env.step token stack <;> rfl

/-- A node that pushes one value: the rest of the program goes on with it. -/
theorem execute_node {token : Token} {rest : List Token} {held : List Number}
    {value : Except EvaluationError Number}
    (h : env.step token held = value.map (· :: stack)) :
    env.execute (token :: rest) held = value >>= fun x => env.execute rest (x :: stack) := by
  rw [execute_cons, h]
  cases value <;> rfl

theorem step_number {token : Token} (hk : token.kind = .number) :
    env.step token stack = ((Tree.number token hk).eval env).map (· :: stack) := by
  unfold Environment.step Tree.eval
  simp only [hk]
  cases Number.ofText? token.value <;> rfl

theorem step_name {token : Token} (hk : token.kind = .identifier) :
    env.step token stack = ((Tree.name token hk).eval env).map (· :: stack) := by
  unfold Environment.step Environment.value? Tree.eval
  simp only [hk]
  cases env.lookup token.value with
  | some x => rfl
  | none => cases findConstant? token.value <;> rfl

theorem applyUnary_cons (token : Token) (f : Number → Except NumericError Number) (x : Number) :
    applyUnary token f (x :: stack) =
      ((f x).mapError (NumericError.at token.span)).map (· :: stack) :=
  map_mapError _ _ _

theorem applyBinary_cons (token : Token) (f : Number → Number → Except NumericError Number)
    (x y : Number) :
    applyBinary token f (y :: x :: stack) =
      ((f x y).mapError (NumericError.at token.span)).map (· :: stack) :=
  map_mapError _ _ _

theorem step_negation (raw : String) (span : Span) (x : Number) :
    env.step ⟨.negation, "neg", raw, span, 0⟩ (x :: stack) =
      (Except.ok x.neg).map (· :: stack) :=
  rfl

theorem step_factorial {sign : Token} (hs : sign.IsSign "!") (x : Number) :
    env.step sign (x :: stack) =
      (x.factorial.mapError (NumericError.at sign.span)).map (· :: stack) := by
  unfold Environment.step
  simp only [hs.1, if_pos hs.2]
  exact applyUnary_cons sign Number.factorial x

@[simp] theorem binaryOperation_text (precision : Nat) (op : BinarySign) :
    binaryOperation? precision op.text = some (op.apply precision) := by
  cases op <;> rfl

theorem step_binary {sign : Token} {op : BinarySign} (hs : sign.IsSign op.text) (x y : Number) :
    env.step sign (y :: x :: stack) =
      ((op.apply env.precision x y).mapError (NumericError.at sign.span)).map (· :: stack) := by
  have hmark : sign.value ≠ "!" := by
    rw [hs.2]
    cases op <;> decide
  have hop : binaryOperation? env.precision sign.value = some (op.apply env.precision) := by
    rw [hs.2, binaryOperation_text]
  unfold Environment.step
  simp only [hs.1, if_neg hmark, hop]
  exact applyBinary_cons sign (op.apply env.precision) x y

theorem apply_eq_none_iff (builtin : Builtin) (args : List Number) :
    builtin.apply? args = none ↔ args.length ≠ builtin.arity := by
  unfold Builtin.apply? Builtin.arity
  cases builtin.rule with
  | unary f =>
    match args with
    | [] => simp
    | [x] => simp
    | x :: y :: args => simp
  | binary f =>
    match args with
    | [] => simp
    | [x] => simp
    | [x, y] => simp
    | x :: y :: z :: args => simp

/-- The arguments of a call lie on the stack, the last one on top. -/
theorem step_call (name raw : String) (span : Span) (args : List Number) :
    env.step ⟨.call, name, raw, span, args.length⟩ (args.reverse ++ stack) =
      (callValue name span args).map (· :: stack) := by
  unfold Environment.step applyCall callValue
  cases findBuiltin? name with
  | none => rfl
  | some builtin =>
    by_cases harity : args.length = builtin.arity
    · simp only [ne_eq, harity, not_true_eq_false, if_false]
      unfold Builtin.apply?
      unfold Builtin.arity at harity
      cases hrule : builtin.rule with
      | unary f =>
        rw [hrule] at harity
        match args, harity with
        | [x], _ => exact applyUnary_cons _ f x
      | binary f =>
        rw [hrule] at harity
        match args, harity with
        | [x, y], _ => exact applyBinary_cons _ f x y
    · have happly := (apply_eq_none_iff builtin args).mpr harity
      simp only [ne_eq, harity, not_false_eq_true, if_true, happly]
      rfl

end

mutual

/-- The post-order of a tree runs as its value does, whatever the stack holds and whatever comes
next. -/
theorem execute_postorder (env : Environment) :
    ∀ (tree : Tree) (rest : List Token) (stack : List Number),
      env.execute (tree.postorder ++ rest) stack =
        tree.eval env >>= fun x => env.execute rest (x :: stack)
  | .number token hk, rest, stack => execute_node (step_number hk)
  | .name token hk, rest, stack => execute_node (step_name hk)
  | .negation sign hs operand, rest, stack => by
    rw [Tree.postorder, List.append_assoc, execute_postorder env operand, Tree.eval]
    cases operand.eval env with
    | error e => rfl
    | ok x => exact execute_node (step_negation sign.raw sign.span x)
  | .factorial sign hs operand, rest, stack => by
    rw [Tree.postorder, List.append_assoc, execute_postorder env operand, Tree.eval]
    cases operand.eval env with
    | error e => rfl
    | ok x => exact execute_node (step_factorial hs x)
  | .binary op sign hs left right, rest, stack => by
    rw [Tree.postorder, List.append_assoc, List.append_assoc, execute_postorder env left, Tree.eval]
    cases left.eval env with
    | error e => rfl
    | ok x =>
      have hright := execute_postorder env right ([sign] ++ rest) (x :: stack)
      cases hy : right.eval env with
      | error e =>
        rw [hy] at hright
        exact hright
      | ok y =>
        rw [hy] at hright
        exact hright.trans (execute_node (step_binary hs x y))
  | .call callee closing hn hc args, rest, stack => by
    rw [Tree.postorder, List.append_assoc, execute_postorders env args, Tree.eval]
    cases hargs : evalAll env args with
    | error e => rfl
    | ok xs =>
      have hlen : xs.length = args.length := evalAll_length hargs
      rw [← hlen]
      exact execute_node (step_call callee.value callee.raw _ xs)

theorem execute_postorders (env : Environment) :
    ∀ (trees : List Tree) (rest : List Token) (stack : List Number),
      env.execute (postorders trees ++ rest) stack =
        evalAll env trees >>= fun xs => env.execute rest (xs.reverse ++ stack)
  | [], rest, stack => rfl
  | tree :: trees, rest, stack => by
    rw [postorders, List.append_assoc, execute_postorder env tree, evalAll]
    cases tree.eval env with
    | error e => rfl
    | ok x =>
      have htrees := execute_postorders env trees rest (x :: stack)
      cases hxs : evalAll env trees with
      | error e =>
        rw [hxs] at htrees
        exact htrees
      | ok xs =>
        rw [hxs] at htrees
        refine htrees.trans ?_
        show env.execute rest (xs.reverse ++ x :: stack) =
          env.execute rest ((x :: xs).reverse ++ stack)
        rw [List.reverse_cons, List.append_assoc, List.singleton_append]

end

theorem evaluate_eq_eval (env : Environment) (tree : Tree) :
    env.evaluate tree.postorder = tree.eval env := by
  have hrun := execute_postorder env tree [] []
  rw [List.append_nil] at hrun
  rw [Environment.evaluate, hrun]
  cases tree.eval env <;> rfl

theorem mapError_at_span {α : Type} {span : Span} {x : Except NumericError α} {e : EvalError}
    (h : x.mapError (NumericError.at span) = .error (.failed e)) : e.span = span := by
  match x, h with
  | .error (.domain d), h => cases h; rfl
  | .error (.range r), h => cases h; rfl

theorem applyUnary_span {token : Token} {f : Number → Except NumericError Number}
    {stack : List Number} {e : EvalError} (h : applyUnary token f stack = .error (.failed e)) :
    e.span = token.span := by
  match stack, h with
  | x :: stack, h => exact mapError_at_span h

theorem applyBinary_span {token : Token} {f : Number → Number → Except NumericError Number}
    {stack : List Number} {e : EvalError} (h : applyBinary token f stack = .error (.failed e)) :
    e.span = token.span := by
  match stack, h with
  | b :: a :: stack, h => exact mapError_at_span h

/-- An error is blamed on the token whose step fails. -/
theorem step_span {env : Environment} {token : Token} {stack : List Number} {e : EvalError}
    (h : env.step token stack = .error (.failed e)) : e.span = token.span := by
  unfold Environment.step at h
  split at h
  next => split at h <;> cases h
  next =>
    split at h
    · cases h
    · cases h
      rfl
  next => exact applyUnary_span h
  next =>
    split at h
    · exact applyUnary_span h
    · split at h
      · exact applyBinary_span h
      · cases h
  next =>
    unfold applyCall at h
    split at h
    · cases h
      rfl
    · split at h
      · cases h
        rfl
      · split at h
        · exact applyUnary_span h
        · exact applyBinary_span h
  next => cases h

/-- A run that fails has run up to a token whose step fails. -/
theorem execute_error {env : Environment} {program : List Token} {stack : List Number}
    {e : EvaluationError} (h : env.execute program stack = .error e) :
    ∃ done node rest held, program = done ++ node :: rest ∧
      env.execute done stack = .ok held ∧ env.step node held = .error e := by
  induction program generalizing stack with
  | nil => cases h
  | cons token program ih =>
    rw [execute_cons] at h
    cases hstep : env.step token stack with
    | error e' =>
      rw [hstep] at h
      cases h
      exact ⟨[], token, program, stack, rfl, rfl, hstep⟩
    | ok next =>
      rw [hstep] at h
      obtain ⟨done, node, rest, held, hprogram, hdone, hnode⟩ := ih h
      refine ⟨token :: done, node, rest, held, by rw [hprogram, List.cons_append], ?_, hnode⟩
      rw [execute_cons, hstep]
      exact hdone

/-- A post-order is worth what its tree is worth; where that is an error, it is the error of the
first node that fails, it carries the span of that node and is shown there in the source. -/
theorem evaluation_of_postorder (env : Environment) (tree : Tree) :
    env.evaluate tree.postorder = tree.eval env ∧
      ∀ e : EvalError, tree.eval env = .error (.failed e) →
        ∃ done node rest held, tree.postorder = done ++ node :: rest ∧
          env.execute done [] = .ok held ∧ env.step node held = .error (.failed e) ∧
          e.span = node.span ∧
          ∀ sourceName source, e.report sourceName source =
            showInSource e.fault.message sourceName source node.span := by
  refine ⟨evaluate_eq_eval env tree, fun e he => ?_⟩
  have hrun := execute_postorder env tree [] []
  rw [List.append_nil, he] at hrun
  obtain ⟨done, node, rest, held, hprogram, hdone, hnode⟩ := execute_error hrun
  have hspan := step_span hnode
  refine ⟨done, node, rest, held, hprogram, hdone, hnode, hspan, fun sourceName source => ?_⟩
  rw [EvalError.report, hspan, EvalError.message]

/-- The call `f(1÷0, y)`, of an unknown function and a name without a value. -/
def quotientCall : Tree :=
  .call (.written .identifier "f" 0) (.written .closeParen ")" 8) rfl rfl
    [.binary .over (.at .operator ['/'] ['÷'] ⟨1, 4, 3⟩) (by decide)
      (.number (.written .number "1" 2) rfl) (.number (.written .number "0" 4) rfl),
     .name (.written .identifier "y" 7) rfl]

theorem quotientCall_fails_at_quotient :
    quotientCall.eval ⟨28, fun _ => none⟩ =
        .error (.failed ⟨.domain .divisionByZero, ⟨⟨1, 4, 3⟩, ⟨1, 5, 4⟩⟩⟩) ∧
      ∃ done node rest held, quotientCall.postorder = done ++ node :: rest ∧
        Environment.execute ⟨28, fun _ => none⟩ done [] = .ok held ∧
        node.span = ⟨⟨1, 4, 3⟩, ⟨1, 5, 4⟩⟩ := by
  have heval : quotientCall.eval ⟨28, fun _ => none⟩ =
      .error (.failed ⟨.domain .divisionByZero, ⟨⟨1, 4, 3⟩, ⟨1, 5, 4⟩⟩⟩) := rfl
  obtain ⟨done, node, rest, held, hprogram, hdone, _, hspan, _⟩ :=
    (evaluation_of_postorder _ _).2 _ heval
  exact ⟨heval, done, node, rest, held, hprogram, hdone, hspan.symm⟩

end Reckoner
