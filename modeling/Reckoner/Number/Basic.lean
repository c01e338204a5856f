import Reckoner.Number.Decimal
import Reckoner.Number.DoubleText

namespace Reckoner

inductive Number where
  | natural (n : Int)
  | decimal (d : Decimal)
  | float (x : Double)
deriving DecidableEq

/-- The three kinds, in the order in which a mixed operation widens its operands. -/
inductive Kind where
  | natural
  | decimal
  | float
deriving DecidableEq, Repr

def Kind.all : List Kind :=
  [.natural, .decimal, .float]

def Kind.name : Kind → String
  | .natural => "NATURAL"
  | .decimal => "DECIMAL"
  | .float => "FLOAT"

def Kind.rank : Kind → Nat
  | .natural => 0
  | .decimal => 1
  | .float => 2

def Number.kind : Number → Kind
  | .natural _ => .natural
  | .decimal _ => .decimal
  | .float _ => .float

def Number.toRat : Number → Rat
  | .natural n => n
  | .decimal d => d.toRat
  | .float x => x.toRat

def Number.isZero (x : Number) : Bool :=
  x.toRat = 0

def Number.isNegative (x : Number) : Bool :=
  x.toRat < 0

/-- Equality of size: kind, scale and the sign of zero do not count. -/
def Number.sameSize (a b : Number) : Bool :=
  a.toRat = b.toRat

def Number.integer? (x : Number) : Option Int :=
  if x.toRat.den = 1 then some x.toRat.num else none

def Number.truncate (x : Number) : Int :=
  x.toRat.num.tdiv x.toRat.den

def intChars (n : Int) : List Char :=
  if n < 0 then '-' :: natChars n.natAbs else natChars n.natAbs

def intText (n : Int) : String :=
  String.ofList (intChars n)

/-- The most bits of an integer that is written as such; a longer one is written as a decimal. -/
def shortBits : Nat :=
  1900

def integerText (n : Int) : String :=
  if bitLength n.natAbs ≤ shortBits then intText n else (Decimal.ofInt n).toText

def Number.toText : Number → String
  | .natural n => integerText n
  | .decimal d => d.toText
  | .float x => x.toText

/-- The form in which logs show a value. -/
def Number.describe (x : Number) : String :=
  "Number(" ++ x.kind.name ++ ", " ++ x.toText ++ ")"

end Reckoner
