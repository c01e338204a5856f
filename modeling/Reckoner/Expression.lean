import Reckoner.Number.Error
import Reckoner.Scan

namespace Reckoner

inductive ParseFault where
  | emptyExpression
  | missingExpression (target : String)
  | strayToken (raw : String)
  | missingLastOperand
  | unclosedParen
  | unmatchedParen
  | missingOperator (raw : String)
  | missingOperatorBeforeParen
  | misplacedAssignment
  | missingFactorialOperand
  | missingLeftOperand (raw : String)
  | missingOperandBeforeParen
  | strayComma
  | missingArgument
deriving DecidableEq, Repr

def ParseFault.message : ParseFault → String
  | .emptyExpression => "empty expression"
  | .missingExpression target => "missing expression after '" ++ target ++ " ='"
  | .strayToken raw => "unexpected token " ++ quoted raw
  | .missingLastOperand => "unexpected end of expression: missing operand"
  | .unclosedParen => "unclosed '('"
  | .unmatchedParen => "unmatched ')'"
  | .missingOperator raw => "missing operator before " ++ quoted raw
  | .missingOperatorBeforeParen => "missing operator before '('"
  | .misplacedAssignment => "assignment is only allowed as 'name = expression'"
  | .missingFactorialOperand => "'!' needs a left operand"
  | .missingLeftOperand raw => "missing left operand for '" ++ raw ++ "'"
  | .missingOperandBeforeParen => "missing operand before ')'"
  | .strayComma => "',' outside function arguments"
  | .missingArgument => "missing argument before ','"

def ParseFault.isUnbalanced : ParseFault → Bool
  | .unclosedParen => true
  | .unmatchedParen => true
  | _ => false

structure ParseError where
  fault : ParseFault
  span : Span
deriving DecidableEq, Repr

def ParseError.message (e : ParseError) : String :=
  e.fault.message

/-- A token list is rejected with an error, or breaks off with a fault that no text causes. -/
inductive ConversionError where
  | rejected (e : ParseError)
  | fault (f : Fault)
deriving DecidableEq, Repr

structure Frame where
  callee : Option Token
  commas : Nat
deriving DecidableEq, Repr

/-- A conversion under way. The output and the stack have their newest token in front; the stack
holds operators, open parentheses and the names of calls below theirs. -/
structure Conversion where
  output : List Token
  stack : List Token
  frames : List Frame
  expectsOperand : Bool
deriving DecidableEq, Repr

def Conversion.start : Conversion :=
  ⟨[], [], [], true⟩

def reject (fault : ParseFault) (span : Span) : Except ConversionError α :=
  .error (.rejected ⟨fault, span⟩)

def Token.operatorKey (token : Token) : String :=
  if token.kind = .negation then negationKey else token.value

/-- An operator on the stack takes its operands before the operator that comes next. -/
def Operator.bindsBefore (top current : Operator) : Bool :=
  current.precedence < top.precedence ||
    (top.precedence == current.precedence && current.associativity == .left)

def releaseBefore (current : Operator) (output : List Token) :
    List Token → Except ConversionError (List Token × List Token)
  | [] => .ok (output, [])
  | top :: stack =>
    if top.kind = .operator ∨ top.kind = .negation then
      match findOperator? top.operatorKey with
      | none => .error (.fault .unknownOperator)
      | some operator =>
        if operator.bindsBefore current then releaseBefore current (top :: output) stack
        else .ok (output, top :: stack)
    else .ok (output, top :: stack)

/-- Moves all above the innermost open parenthesis to the output; that parenthesis stays. -/
def releaseToParen (output : List Token) :
    List Token → Except ConversionError (List Token × List Token)
  | [] => .error (.fault .brokenStack)
  | top :: stack =>
    if top.kind = .openParen then .ok (output, top :: stack)
    else releaseToParen (top :: output) stack

def releaseAll (output : List Token) : List Token → Except ConversionError (List Token)
  | [] => .ok output
  | top :: stack =>
    if top.kind = .openParen then reject .unclosedParen top.span
    else releaseAll (top :: output) stack

def Conversion.operand (s : Conversion) (token : Token) : Except ConversionError Conversion :=
  if s.expectsOperand then
    .ok { s with output := token :: s.output, expectsOperand := false }
  else reject (.missingOperator token.raw) token.span

def Conversion.openCall (s : Conversion) (token paren : Token) :
    Except ConversionError Conversion :=
  if s.expectsOperand then
    .ok { s with stack := paren :: token :: s.stack, frames := ⟨some token, 0⟩ :: s.frames }
  else reject (.missingOperator token.raw) token.span

def Conversion.openParen (s : Conversion) (token : Token) : Except ConversionError Conversion :=
  if s.expectsOperand then
    .ok { s with stack := token :: s.stack, frames := ⟨none, 0⟩ :: s.frames }
  else reject .missingOperatorBeforeParen token.span

def Token.toNegation (token : Token) : Token :=
  ⟨.negation, negationKey, token.raw, token.span, 0⟩

/-- A sign: where an operand is expected only a minus and a plus may stand, and the plus leaves no
trace; elsewhere a factorial goes out at once and any other operator waits on the stack. -/
def Conversion.operator (s : Conversion) (token : Token) : Except ConversionError Conversion :=
  if token.value = "=" then reject .misplacedAssignment token.span
  else if token.value = "!" then
    if s.expectsOperand then reject .missingFactorialOperand token.span
    else .ok { s with output := token :: s.output }
  else if s.expectsOperand then
    if token.value = "-" then .ok { s with stack := token.toNegation :: s.stack }
    else if token.value = "+" then .ok s
    else reject (.missingLeftOperand token.raw) token.span
  else
    match findOperator? token.value with
    | none => .error (.fault .unknownOperator)
    | some current => do
      let (output, stack) ← releaseBefore current s.output s.stack
      return { s with output, stack := token :: stack, expectsOperand := true }

/-- The number of arguments that a closing parenthesis ends; a call has none only when its
parenthesis closes at once. -/
def Conversion.closingCount (s : Conversion) (frame : Frame) (token : Token) :
    Except ConversionError Nat :=
  if s.expectsOperand then
    if frame.callee.isSome && frame.commas == 0 then
      match s.stack with
      | [] => .error (.fault .brokenStack)
      | top :: _ =>
        if top.kind = .openParen then .ok 0 else reject .missingOperandBeforeParen token.span
    else reject .missingOperandBeforeParen token.span
  else .ok (frame.commas + 1)

/-- The call that a closing parenthesis completes, from its name to that parenthesis. -/
def Token.toCall (callee paren : Token) (argc : Nat) : Token :=
  ⟨.call, callee.value, callee.raw, ⟨callee.span.start, paren.span.stop⟩, argc⟩

def Conversion.closeParen (s : Conversion) (token : Token) : Except ConversionError Conversion :=
  match s.frames with
  | [] => reject .unmatchedParen token.span
  | frame :: frames => do
    let argc ← s.closingCount frame token
    let (output, stack) ← releaseToParen s.output s.stack
    match frame.callee, stack.drop 1 with
    | none, stack => return ⟨output, stack, frames, false⟩
    | some _, [] => .error (.fault .brokenStack)
    | some callee, _ :: stack => return ⟨callee.toCall token argc :: output, stack, frames, false⟩

def Conversion.comma (s : Conversion) (token : Token) : Except ConversionError Conversion :=
  match s.frames with
  | ⟨some callee, commas⟩ :: frames =>
    if s.expectsOperand then reject .missingArgument token.span
    else do
      let (output, stack) ← releaseToParen s.output s.stack
      return ⟨output, stack, ⟨some callee, commas + 1⟩ :: frames, true⟩
  | _ => reject .strayComma token.span

/-- The program, once the token that marks the end of the input is reached. -/
def Conversion.finish (s : Conversion) (token : Token) : Except ConversionError (List Token) :=
  if s.expectsOperand then reject .missingLastOperand token.span
  else (releaseAll s.output s.stack).map List.reverse

/-- Takes the tokens one by one up to the end of the input; a name is taken together with the
parenthesis that follows it. -/
def Conversion.run (s : Conversion) : List Token → Except ConversionError (List Token)
  | [] => .error (.fault .outOfTokens)
  | token :: rest =>
    match token.kind with
    | .endOfInput => s.finish token
    | .number => do (← s.operand token).run rest
    | .identifier =>
      match rest with
      | [] => do (← s.operand token).run []
      | next :: rest =>
        if next.kind = .openParen then do (← s.openCall token next).run rest
        else do (← s.operand token).run (next :: rest)
    | .operator => do (← s.operator token).run rest
    | .openParen => do (← s.openParen token).run rest
    | .closeParen => do (← s.closeParen token).run rest
    | .comma => do (← s.comma token).run rest
    | .call => reject (.strayToken token.raw) token.span
    | .negation => reject (.strayToken token.raw) token.span

/-- The name before a leading assignment sign, and the tokens after it. -/
def splitTarget : List Token → Option Token × List Token
  | first :: second :: rest =>
    if first.kind = .identifier ∧ second.kind = .operator ∧ second.value = "=" then
      (some first, rest)
    else (none, first :: second :: rest)
  | tokens => (none, tokens)

/-- A converted expression: its program, and the name that its value is assigned to, if any. -/
structure Expression where
  source : String
  program : List Token
  target : Option Token
deriving DecidableEq, Repr

def Expression.ofTokens (source : String) (tokens : List Token) :
    Except ConversionError Expression :=
  let (target, body) := splitTarget tokens
  match body with
  | [] => .error (.fault .outOfTokens)
  | first :: _ =>
    if first.kind = .endOfInput then
      match target with
      | some name => reject (.missingExpression name.value) first.span
      | none => reject .emptyExpression first.span
    else (Conversion.start.run body).map fun program => ⟨source, program, target⟩

inductive SyntaxError where
  | lexical (e : LexError)
  | grammatical (e : ConversionError)
deriving DecidableEq, Repr

def Expression.parse (source : String) : Except SyntaxError Expression :=
  match tokenize source with
  | .error e => .error (.lexical e)
  | .ok tokens =>
    match Expression.ofTokens source tokens with
    | .error e => .error (.grammatical e)
    | .ok expression => .ok expression

def Token.word (token : Token) : String :=
  if token.kind = .call then token.value ++ "/" ++ intText token.argc else token.value

def programText (program : List Token) : String :=
  " ".intercalate (program.map Token.word)

end Reckoner
