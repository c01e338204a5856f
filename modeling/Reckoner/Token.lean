import Reckoner.Position
import Reckoner.Text.Letter

namespace Reckoner

inductive TokenKind where
  | number
  | identifier
  | operator
  | openParen
  | closeParen
  | comma
  | call
  | negation
  | endOfInput
deriving DecidableEq, Repr

def TokenKind.all : List TokenKind :=
  [.number, .identifier, .operator, .openParen, .closeParen, .comma, .call, .negation, .endOfInput]

def TokenKind.name : TokenKind → String
  | .number => "NUMBER"
  | .identifier => "IDENTIFIER"
  | .operator => "OPERATOR"
  | .openParen => "LPAREN"
  | .closeParen => "RPAREN"
  | .comma => "COMMA"
  | .call => "FUNCTION"
  | .negation => "NEGATE"
  | .endOfInput => "EOF"

/-- A token: `raw` is the text it was written as and `value` the text it stands for. The number of
arguments `argc` has a meaning for calls only. -/
structure Token where
  kind : TokenKind
  value : String
  raw : String
  span : Span
  argc : Nat := 0
deriving DecidableEq, Repr

inductive Associativity where
  | left
  | right
deriving DecidableEq, Repr

def Associativity.name : Associativity → String
  | .left => "LEFT"
  | .right => "RIGHT"

/-- Where an operator stands: before its operand, between its operands or after its operand. -/
inductive Placement where
  | before
  | between
  | after
deriving DecidableEq, Repr

def Placement.name : Placement → String
  | .before => "PREFIX"
  | .between => "INFIX"
  | .after => "POSTFIX"

def Placement.arity : Placement → Nat
  | .between => 2
  | _ => 1

structure Operator where
  symbol : String
  precedence : Nat
  associativity : Associativity
  placement : Placement
deriving DecidableEq, Repr

def Operator.arity (o : Operator) : Nat :=
  o.placement.arity

/-- The key of the unary minus, whose symbol is that of the difference. -/
def negationKey : String :=
  "neg"

def operators : List (String × Operator) :=
  [("=", ⟨"=", 0, .right, .between⟩),
   ("+", ⟨"+", 1, .left, .between⟩),
   ("-", ⟨"-", 1, .left, .between⟩),
   ("*", ⟨"*", 2, .left, .between⟩),
   ("/", ⟨"/", 2, .left, .between⟩),
   (negationKey, ⟨"-", 3, .right, .before⟩),
   ("^", ⟨"^", 4, .right, .between⟩),
   ("!", ⟨"!", 5, .left, .after⟩)]

def findOperator? (key : String) : Option Operator :=
  (operators.find? fun entry => entry.1 == key).map (·.2)

def operatorAliases : List (Char × Char) :=
  [('×', '*'), ('÷', '/')]

def operatorSign? (c : Char) : Option Char :=
  if "+-*/^!=".toList.contains c then some c
  else (operatorAliases.find? fun entry => entry.1 == c).map (·.2)

/-- The characters that spell operators, by code point. -/
def operatorCharacters : List Char :=
  "!*+-/=^".toList ++ operatorAliases.map (·.1)

def isDigit (c : Char) : Bool :=
  '0' ≤ c && c ≤ '9'

/-- Names go on with letters, digits and low lines. -/
def isNameChar (c : Char) : Bool :=
  isLetter c || isDigit c || c == '_'

def punctuation? (c : Char) : Option TokenKind :=
  if c = '(' then some .openParen
  else if c = ')' then some .closeParen
  else if c = ',' then some .comma
  else none

end Reckoner
