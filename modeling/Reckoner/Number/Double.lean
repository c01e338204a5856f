import Reckoner.Number.Rounding

namespace Reckoner

/-- A significand of 53 bits whose highest bit is set unless the unit is the smallest one. -/
def Canonical (significand unit : Nat) : Prop :=
  significand < twoTo 53 ∧ (twoTo 52 ≤ significand ∨ unit = 0) ∧ unit ≤ 2045

instance (significand unit : Nat) : Decidable (Canonical significand unit) :=
  inferInstanceAs (Decidable (_ ∧ _ ∧ _))

structure Double where
  negative : Bool
  significand : Nat
  unit : Nat
  canonical : Canonical significand unit
deriving DecidableEq

/-- What a 64 bit floating point word can hold. -/
inductive ExtendedDouble where
  | finite (x : Double)
  | infinite (negative : Bool)
  | notANumber
deriving DecidableEq

def Double.zero (negative : Bool) : Double :=
  ⟨negative, 0, 0, by decide⟩

def Double.one : Double :=
  ⟨false, twoTo 52, 1022, by decide⟩

def Double.magnitude (x : Double) : Rat :=
  mkRat (x.significand * twoTo x.unit : Nat) (twoTo 1074)

def Double.toRat (x : Double) : Rat :=
  if x.negative then -x.magnitude else x.magnitude

/-- How many of the smallest positive doubles a double is. -/
def Double.units (x : Double) : Int :=
  if x.negative then -(x.significand * twoTo x.unit : Nat) else (x.significand * twoTo x.unit : Nat)

def Double.ofRatio (negative : Bool) (num den : Nat) : Option Double :=
  let scaled := num * twoTo 1074
  let unit := (scaled / den).log2 - 52
  let rounded := roundHalfEven scaled (den * twoTo unit)
  let (significand, unit) :=
    if rounded = twoTo 53 then (twoTo 52, unit + 1) else (rounded, unit)
  if h : Canonical significand unit then some ⟨negative, significand, unit, h⟩ else none

/-- The double nearest to `r`; `zeroSign` is the sign of an exact zero. -/
def Double.ofRat (zeroSign : Bool) (r : Rat) : Option Double :=
  Double.ofRatio (if r = 0 then zeroSign else decide (r < 0)) r.num.natAbs r.den

def Double.neg (x : Double) : Double :=
  { x with negative := !x.negative }

def Double.abs (x : Double) : Double :=
  { x with negative := false }

/-- A sum that is exactly zero is negative only when both operands are. -/
def Double.add (x y : Double) : Option Double :=
  Double.ofRat (x.negative && y.negative) (x.toRat + y.toRat)

def Double.sub (x y : Double) : Option Double :=
  x.add y.neg

def Double.mul (x y : Double) : Option Double :=
  Double.ofRat (x.negative != y.negative) (x.toRat * y.toRat)
    |>.map fun z => { z with negative := x.negative != y.negative }

def Double.div (x y : Double) : Option Double :=
  Double.ofRat (x.negative != y.negative) (x.toRat / y.toRat)
    |>.map fun z => { z with negative := x.negative != y.negative }

/-- The square root of a double that is not negative; that of a zero is the zero itself. Of a root
between two integers only the half between them is kept, which rounds as the root does. -/
def Double.sqrt (x : Double) : Option Double :=
  let scaled := x.significand * twoTo x.unit * twoTo 1074
  let root := floorSqrt scaled
  Double.ofRatio x.negative (if root * root = scaled then 2 * root else 2 * root + 1)
    (2 * twoTo 1074)

def Double.isZero (x : Double) : Bool :=
  x.significand = 0

def Double.isOdd (x : Double) : Bool :=
  x.toRat.den = 1 && x.toRat.num % 2 = 1

def Double.floor (x : Double) : Int :=
  x.units / twoTo 1074

def Double.ceil (x : Double) : Int :=
  -(-x.units / twoTo 1074)

/-- The word that holds a double: sign, eleven bits of exponent, 52 bits of significand. -/
def Double.toBits (x : Double) : UInt64 :=
  let sign := if x.negative then twoTo 63 else 0
  let rest :=
    if x.significand < twoTo 52 then x.significand
    else (x.unit + 1) * twoTo 52 + (x.significand - twoTo 52)
  UInt64.ofNat (sign + rest)

def Double.toFloat (x : Double) : Float :=
  Float.ofBits x.toBits

theorem twoTo_fifty_three : twoTo 53 = 2 * twoTo 52 :=
  rfl

theorem canonical_subnormal (word : Nat) : Canonical (word % twoTo 52) 0 := by
  have := Nat.mod_lt word (show 0 < twoTo 52 by decide)
  have := twoTo_fifty_three
  unfold Canonical
  omega

theorem canonical_normal (word : Nat) {exponent : Nat} (h : exponent < 2047) :
    Canonical (twoTo 52 + word % twoTo 52) (exponent - 1) := by
  have := Nat.mod_lt word (show 0 < twoTo 52 by decide)
  have := twoTo_fifty_three
  unfold Canonical
  omega

def ExtendedDouble.ofBits (bits : UInt64) : ExtendedDouble :=
  let word := bits.toNat
  let negative := decide (twoTo 63 ≤ word)
  let exponent := word / twoTo 52 % 2048
  let fraction := word % twoTo 52
  if h : exponent < 2047 then
    if exponent = 0 then
      .finite ⟨negative, fraction, 0, canonical_subnormal word⟩
    else
      .finite ⟨negative, twoTo 52 + fraction, exponent - 1, canonical_normal word h⟩
  else if fraction = 0 then .infinite negative
  else .notANumber

end Reckoner
