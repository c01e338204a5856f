import Reckoner.Number.Rounding

namespace Reckoner

/-- A signed coefficient and a power of ten: `1.50` and `1.5` are of equal size and differ. -/
structure Decimal where
  negative : Bool
  coefficient : Nat
  exponent : Int
deriving DecidableEq, Repr

def tenPow (exponent : Int) : Rat :=
  if exponent < 0 then mkRat 1 (tenTo exponent.natAbs) else (tenTo exponent.natAbs : Nat)

def Decimal.signed (d : Decimal) : Int :=
  if d.negative then -(d.coefficient : Int) else d.coefficient

def Decimal.toRat (d : Decimal) : Rat :=
  d.signed * tenPow d.exponent

def Decimal.ofInt (n : Int) : Decimal :=
  ⟨decide (n < 0), n.natAbs, 0⟩

def Decimal.isZero (d : Decimal) : Bool :=
  d.coefficient = 0

/-- The power of ten that the first digit counts. -/
def Decimal.leadingPlace (d : Decimal) : Int :=
  d.exponent + digitCount d.coefficient - 1

def Decimal.signedAt (d : Decimal) (exponent : Int) : Int :=
  d.signed * tenTo (d.exponent - exponent).toNat

/-- A sum keeps the smaller exponent; one that is zero is negative only when both operands are. -/
def Decimal.add (a b : Decimal) : Decimal :=
  let exponent := min a.exponent b.exponent
  let sum := a.signedAt exponent + b.signedAt exponent
  ⟨if sum = 0 then a.negative && b.negative else decide (sum < 0), sum.natAbs, exponent⟩

def Decimal.flip (d : Decimal) : Decimal :=
  { d with negative := !d.negative }

def Decimal.sub (a b : Decimal) : Decimal :=
  a.add b.flip

def Decimal.mul (a b : Decimal) : Decimal :=
  ⟨a.negative != b.negative, a.coefficient * b.coefficient, a.exponent + b.exponent⟩

/-- The difference from zero, so that no zero becomes negative. -/
def Decimal.neg (d : Decimal) : Decimal :=
  if d.isZero then { d with negative := false } else d.flip

def Decimal.abs (d : Decimal) : Decimal :=
  { d with negative := false }

/-- The number of decimals that a fraction with this denominator needs, if finitely many do. -/
def decimalPlaces? (den : Nat) : Option Nat :=
  let (twos, rest) := removeFactor 2 den
  let (fives, rest) := removeFactor 5 rest
  if rest = 1 then some (max twos fives) else none

/-- A fraction with a finite expansion, written with as few decimals as it needs. -/
def Decimal.ofFinite? (r : Rat) : Option Decimal :=
  (decimalPlaces? r.den).map fun (places : Nat) =>
    ⟨decide (r < 0), r.num.natAbs * tenTo places / r.den, -(places : Int)⟩

/-- A decimal with a smaller exponent, rounded half even to this one. A number of fewer digits than
are cut off is nearer to zero, which needs no power of ten. -/
def Decimal.roundAt (d : Decimal) (exponent : Int) : Decimal :=
  let places := (exponent - d.exponent).toNat
  ⟨d.negative, if digitCount d.coefficient < places then 0
    else roundHalfEven d.coefficient (tenTo places), exponent⟩

/-- How many digits the results of decimal arithmetic keep, and between which places the first one
has to stand. -/
structure DecimalContext where
  precision : Nat
  lowest : Int
  highest : Int

/-- The context of sums, differences and products. -/
def exactContext : DecimalContext :=
  ⟨999999999999999999, -999999999999999999, 999999999999999999⟩

/-- The context of quotients without a finite expansion. -/
def quotientContext (precision : Nat) : DecimalContext :=
  ⟨precision, -999999, 999999⟩

namespace DecimalContext

def leastExponent (c : DecimalContext) : Int :=
  c.lowest - ((c.precision : Int) - 1)

def exponentAt (c : DecimalContext) (place : Int) : Int :=
  max (place - c.precision) c.leastExponent

/-- A digit more than the precision allows is a zero that rounding up has brought about. -/
def shorten (c : DecimalContext) (d : Decimal) : Decimal :=
  if c.precision < digitCount d.coefficient then
    ⟨d.negative, d.coefficient / 10, d.exponent + 1⟩
  else d

def settle (c : DecimalContext) (d : Decimal) : Option Decimal :=
  let d := c.shorten d
  if !d.isZero && decide (c.highest < d.leadingPlace) then none else some d

/-- A decimal within the limits, rounded where it has to be. -/
def fit (c : DecimalContext) (d : Decimal) : Option Decimal :=
  if d.isZero then some { d with exponent := max c.leastExponent (min d.exponent c.highest) }
  else
    let exponent := c.exponentAt (d.leadingPlace + 1)
    c.settle (if exponent ≤ d.exponent then d else d.roundAt exponent)

def round (c : DecimalContext) (r : Rat) : Option Decimal :=
  let exponent := c.exponentAt (pointPlace r.num.natAbs r.den)
  c.settle ⟨decide (r < 0), roundHalfEven (r.num.natAbs * tenTo (-exponent).toNat)
    (r.den * tenTo exponent.toNat), exponent⟩

end DecimalContext

/-- A fraction as a decimal, if it is not too large: exact when its expansion is finite, else rounded
to `precision` digits. -/
def Decimal.ofRat? (precision : Nat) (r : Rat) : Option Decimal :=
  match Decimal.ofFinite? r with
  | some d => some d
  | none => (quotientContext precision).round r

def Decimal.pow (d : Decimal) (n : Nat) : Decimal :=
  (Decimal.ofFinite? (d.toRat ^ n)).getD (Decimal.ofInt 0)

def Decimal.integer? (d : Decimal) : Option Int :=
  let r := d.toRat
  if r.den = 1 then some r.num else none

def Decimal.floor (d : Decimal) : Int :=
  d.signed * tenTo d.exponent.toNat / tenTo (-d.exponent).toNat

def Decimal.ceil (d : Decimal) : Int :=
  -(-(d.signed * tenTo d.exponent.toNat) / tenTo (-d.exponent).toNat)

/-- Positional text with as many decimals as the exponent says. -/
def Decimal.toChars (d : Decimal) : List Char :=
  let unsigned :=
    if d.exponent ≥ 0 then
      natChars d.coefficient ++
        (if d.isZero then [] else List.replicate d.exponent.toNat '0')
    else
      let places := d.exponent.natAbs
      let digits := natChars d.coefficient
      let padded := List.replicate (places + 1 - digits.length) '0' ++ digits
      padded.take (padded.length - places) ++ '.' :: padded.drop (padded.length - places)
  if d.negative then '-' :: unsigned else unsigned

def Decimal.toText (d : Decimal) : String :=
  String.ofList d.toChars

end Reckoner
