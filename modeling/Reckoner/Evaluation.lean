import Reckoner.Builtin
import Reckoner.Expression
import Reckoner.Number.Reading

namespace Reckoner

inductive EvalFault where
  | undefinedVariable (name : String)
  | undefinedFunction (name : String)
  | arity (name : String) (expected got : Nat)
  | domain (e : DomainError)
  | range (e : RangeError)
deriving DecidableEq

def arityMessage (name : String) (expected got : Nat) : String :=
  "function '" ++ name ++ "' expects " ++ intText expected ++ " argument" ++
    (if expected = 1 then "" else "s") ++ ", got " ++ intText got

def EvalFault.message : EvalFault → String
  | .undefinedVariable name => "undefined variable '" ++ name ++ "'"
  | .undefinedFunction name => "undefined function '" ++ name ++ "'"
  | .arity name expected got => arityMessage name expected got
  | .domain e => e.message
  | .range e => e.message

structure EvalError where
  fault : EvalFault
  span : Span
deriving DecidableEq

def EvalError.message (e : EvalError) : String :=
  e.fault.message

/-- A program that leaves the stack in a state that no converted expression leads to. -/
inductive ProgramFault where
  | leftover (count : Nat)
  | strayOperator (value : String)
  | strayToken (kind : TokenKind)
  | missingOperands (raw : String) (count held : Nat)
deriving DecidableEq

def ProgramFault.message : ProgramFault → String
  | .leftover count => "expected one value on the stack, found " ++ intText count
  | .strayOperator value => "operator " ++ quoted value ++ " in postfix output"
  | .strayToken kind => "unexpected " ++ kind.name ++ " token in postfix output"
  | .missingOperands raw count held =>
    quoted raw ++ " needs " ++ intText count ++ " operand(s), stack holds " ++ intText held

inductive EvaluationError where
  | failed (e : EvalError)
  | program (e : ProgramFault)
  | malformed (text : String)
  | fault (f : Fault)
deriving DecidableEq

/-- An error of the numbers, at the token whose operation it is. -/
def NumericError.at (span : Span) : NumericError → EvaluationError
  | .domain e => .failed ⟨.domain e, span⟩
  | .range e => .failed ⟨.range e, span⟩
  | .fault f => .fault f

/-- What a program is run with: the digits that an inexact quotient keeps, and the variables. -/
structure Environment where
  precision : Nat
  lookup : String → Option Number

/-- A name means its variable, and where there is none the constant. -/
def Environment.value? (env : Environment) (name : String) : Option Number :=
  match env.lookup name with
  | some x => some x
  | none => findConstant? name

def binaryOperation? (precision : Nat) (sign : String) :
    Option (Number → Number → Except NumericError Number) :=
  if sign = "+" then some Number.add
  else if sign = "-" then some Number.sub
  else if sign = "*" then some Number.mul
  else if sign = "/" then some (Number.div precision)
  else if sign = "^" then some Number.pow
  else none

def applyUnary (token : Token) (f : Number → Except NumericError Number) :
    List Number → Except EvaluationError (List Number)
  | [] => .error (.program (.missingOperands token.raw 1 0))
  | x :: stack => (f x).map (· :: stack) |>.mapError (NumericError.at token.span)

/-- Applies an operation to the two topmost values; the right operand is on top. -/
def applyBinary (token : Token) (f : Number → Number → Except NumericError Number) :
    List Number → Except EvaluationError (List Number)
  | b :: a :: stack => (f a b).map (· :: stack) |>.mapError (NumericError.at token.span)
  | stack => .error (.program (.missingOperands token.raw 2 stack.length))

/-- Calls a function: it has to exist, then to take as many arguments as the call has. -/
def applyCall (token : Token) (stack : List Number) : Except EvaluationError (List Number) :=
  match findBuiltin? token.value with
  | none => .error (.failed ⟨.undefinedFunction token.value, token.span⟩)
  | some builtin =>
    if token.argc ≠ builtin.arity then
      .error (.failed ⟨.arity token.value builtin.arity token.argc, token.span⟩)
    else
      match builtin.rule with
      | .unary f => applyUnary token f stack
      | .binary f => applyBinary token f stack

def Environment.step (env : Environment) (token : Token) (stack : List Number) :
    Except EvaluationError (List Number) :=
  match token.kind with
  | .number =>
    match Number.ofText? token.value with
    | some x => .ok (x :: stack)
    | none => .error (.malformed token.value)
  | .identifier =>
    match env.value? token.value with
    | some x => .ok (x :: stack)
    | none => .error (.failed ⟨.undefinedVariable token.value, token.span⟩)
  | .negation => applyUnary token (fun x => .ok x.neg) stack
  | .operator =>
    if token.value = "!" then applyUnary token Number.factorial stack
    else
      match binaryOperation? env.precision token.value with
      | some f => applyBinary token f stack
      | none => .error (.program (.strayOperator token.value))
  | .call => applyCall token stack
  | kind => .error (.program (.strayToken kind))

def Environment.execute (env : Environment) :
    List Token → List Number → Except EvaluationError (List Number)
  | [], stack => .ok stack
  | token :: rest, stack =>
    match env.step token stack with
    | .error e => .error e
    | .ok stack => env.execute rest stack

def Environment.evaluate (env : Environment) (program : List Token) :
    Except EvaluationError Number :=
  match env.execute program [] with
  | .error e => .error e
  | .ok [x] => .ok x
  | .ok stack => .error (.program (.leftover stack.length))

end Reckoner
