import Reckoner.Number.Basic

namespace Reckoner

inductive DomainError where
  | notFinite (text : String)
  | notANumber
  | divisionByZero
  | undefinedPower (base exponent : Number)
  | noFactorial (x : Number)
  | notInteger (x : Number)
  | undefinedCall (name : String) (args : List Number)
  | outsideUnitInterval (name : String) (x : Number)
  | nonPositive (name : String) (x : Number)
  | negativeRoot (x : Number)
deriving DecidableEq

def commaSeparated (words : List String) : String :=
  ", ".intercalate words

def DomainError.message : DomainError → String
  | .notFinite text => "not a finite decimal: " ++ text
  | .notANumber => "result is not a number"
  | .divisionByZero => "division by zero"
  | .undefinedPower base exponent => base.toText ++ " ^ " ++ exponent.toText ++ " is undefined"
  | .noFactorial x => "factorial requires a non-negative integer, got " ++ x.toText
  | .notInteger x => x.toText ++ " is not an integer"
  | .undefinedCall name args =>
    name ++ "(" ++ commaSeparated (args.map Number.toText) ++ ") is undefined"
  | .outsideUnitInterval name x => name ++ "(" ++ x.toText ++ ") is undefined outside [-1, 1]"
  | .nonPositive name x => name ++ "(" ++ x.toText ++ ") is undefined for non-positive values"
  | .negativeRoot x => "sqrt(" ++ x.toText ++ ") has no real result"

inductive RangeError where
  | floatOverflow
  | tooWide (x : Number) (bits : Nat)
  | powerTooLarge (base exponent : Number)
  | powerRefused
  | factorialRefused (n : Int)
  | tooLargeForFloat (x : Number)
  | callTooLarge (name : String)
deriving DecidableEq

def RangeError.message : RangeError → String
  | .floatOverflow => "floating point overflow"
  | .tooWide x bits =>
    x.toText ++ " does not fit in a " ++ intText bits ++ "-bit integer"
  | .powerTooLarge base exponent => base.toText ++ " ^ " ++ exponent.toText ++ " is too large"
  | .powerRefused => "power result is too large"
  | .factorialRefused n => integerText n ++ "! is too large"
  | .tooLargeForFloat x => x.toText ++ " is too large for a float"
  | .callTooLarge name => name ++ "() result is too large"

inductive Fault where
  /-- A divisor that is not zero became zero as a float. -/
  | zeroDivisor
  /-- A decimal result is beyond the limits of decimal arithmetic. -/
  | decimalTooLarge
  /-- An integer width below one bit was asked for. -/
  | negativeShift
  /-- A fraction is beyond the range of floats. -/
  | fractionTooLarge
  /-- A precision is beyond what decimal arithmetic allows. -/
  | precisionTooLarge
  /-- A precision is beyond what a machine word holds. -/
  | precisionTooWide
  /-- A name is not bound. -/
  | unboundName
  /-- An operator sign is in no table. -/
  | unknownOperator
  /-- A token list ends without its end mark. -/
  | outOfTokens
  /-- An operator stack is shorter than its open parentheses say. -/
  | brokenStack
deriving DecidableEq, Repr

/-- A fault has no message and ends whatever runs. -/
inductive NumericError where
  | domain (e : DomainError)
  | range (e : RangeError)
  | fault (f : Fault)
deriving DecidableEq

end Reckoner
