import Reckoner.Number.Comparison
import Reckoner.Number.Error

namespace Reckoner

/-- Powers and factorials beyond this many bits are refused. -/
def maxResultBits : Nat :=
  twoTo 24

/-- The largest number whose factorial has at most `maxResultBits` bits. -/
def largestFactorial : Nat :=
  913846

def Number.ofDouble? : Option Double → Except NumericError Number
  | some x => .ok (.float x)
  | none => .error (.range .floatOverflow)

def Number.ofDecimal? : Option Decimal → Except NumericError Number
  | some d => .ok (.decimal d)
  | none => .error (.fault .decimalTooLarge)

def ExtendedDouble.toNumber : ExtendedDouble → Except NumericError Number
  | .finite x => .ok (.float x)
  | .infinite _ => .error (.range .floatOverflow)
  | .notANumber => .error (.domain .notANumber)

/-- The number that a hardware float holds, with the errors for an infinite one and for none. -/
def Number.ofFloat (overflow undefined : NumericError) (f : Float) : Except NumericError Number :=
  match ExtendedDouble.ofBits f.toBits with
  | .finite x => .ok (.float x)
  | .infinite _ => .error overflow
  | .notANumber => .error undefined

/-- The nearest double, if it is in range; a decimal zero keeps its sign. -/
def Number.toDouble? : Number → Option Double
  | .natural n => Double.ofRat false n
  | .decimal d => Double.ofRat d.negative d.toRat
  | .float x => some x

def Number.toDouble (x : Number) : Except NumericError Double :=
  match x.toDouble? with
  | some y => .ok y
  | none => .error (.range (.tooLargeForFloat x))

def Number.toExtended (x : Number) : ExtendedDouble :=
  match x.toDouble? with
  | some y => .finite y
  | none => .infinite x.isNegative

inductive Operands where
  | naturals (m n : Int)
  | decimals (a b : Decimal)
  | doubles (x y : Double)

def Number.promote (a b : Number) : Except NumericError Operands :=
  match a, b with
  | .natural m, .natural n => .ok (.naturals m n)
  | .natural m, .decimal d => .ok (.decimals (.ofInt m) d)
  | .decimal d, .natural n => .ok (.decimals d (.ofInt n))
  | .decimal d, .decimal e => .ok (.decimals d e)
  | _, _ => do
    let x ← a.toDouble
    let y ← b.toDouble
    return .doubles x y

def Number.add (a b : Number) : Except NumericError Number := do
  match ← a.promote b with
  | .naturals m n => return .natural (m + n)
  | .decimals d e => Number.ofDecimal? (exactContext.fit (d.add e))
  | .doubles x y => Number.ofDouble? (x.add y)

def Number.sub (a b : Number) : Except NumericError Number := do
  match ← a.promote b with
  | .naturals m n => return .natural (m - n)
  | .decimals d e => Number.ofDecimal? (exactContext.fit (d.sub e))
  | .doubles x y => Number.ofDouble? (x.sub y)

def Number.mul (a b : Number) : Except NumericError Number := do
  match ← a.promote b with
  | .naturals m n => return .natural (m * n)
  | .decimals d e => Number.ofDecimal? (exactContext.fit (d.mul e))
  | .doubles x y => Number.ofDouble? (x.mul y)

def Number.div (precision : Nat) (a b : Number) : Except NumericError Number := do
  if b.isZero then throw (.domain .divisionByZero)
  match ← a.promote b with
  | .naturals m n =>
    if m % n = 0 then return .natural (m / n)
    else Number.ofDecimal? (Decimal.ofRat? precision (m / n))
  | .decimals d e => Number.ofDecimal? (Decimal.ofRat? precision (d.toRat / e.toRat))
  | .doubles x y =>
    if y.isZero then throw (.fault .zeroDivisor)
    else Number.ofDouble? (x.div y)

def Number.exponent? : Number → Option Nat
  | .natural n => if n < 0 then none else some n.toNat
  | .decimal d =>
    match d.integer? with
    | some n => if n < 0 then none else some n.toNat
    | none => none
  | .float _ => none

def powerRefused (baseBits exponent : Nat) : Bool :=
  1 < baseBits && maxResultBits < (baseBits - 1) * exponent

/-- A power of an integer; those of 0, 1 and -1 need no multiplication. -/
def intPower (m : Int) (n : Nat) : Int :=
  if m.natAbs ≤ 1 then
    if n = 0 then 1 else if n % 2 = 0 then m * m else m
  else Int.pow m n

/-- A power of zero: none for a negative exponent, one for the exponent zero, and else a zero, which
keeps its sign only where the exponent is odd. -/
def Double.zeroPow (x y : Double) : Option Double :=
  if y.toRat < 0 then none
  else if y.isZero then some .one
  else some (.zero (x.negative && y.isOdd))

def Number.floatPow (a b : Number) : Except NumericError Number := do
  let x ← a.toDouble
  let y ← b.toDouble
  let undefined := .domain (.undefinedPower a b)
  if x.isZero then
    match x.zeroPow y with
    | some z => return .float z
    | none => throw undefined
  else Number.ofFloat (.range (.powerTooLarge a b)) undefined (x.toFloat ^ y.toFloat)

/-- Exact for an exact base and an exponent that is an integer and not negative. -/
def Number.pow (a b : Number) : Except NumericError Number :=
  match b.exponent?, a with
  | some n, .natural m =>
    if powerRefused (bitLength m.natAbs) n then .error (.range .powerRefused)
    else
      match b.kind with
      | .natural => .ok (.natural (intPower m n))
      | _ => .ok (.decimal (.ofInt (intPower m n)))
  | some n, .decimal d =>
    if powerRefused (bitLength (tenTo (digitCount d.coefficient))) n then
      .error (.range .powerRefused)
    else .ok (.decimal (d.pow n))
  | _, _ => a.floatPow b

def Number.neg : Number → Number
  | .natural n => .natural (-n)
  | .decimal d => .decimal d.neg
  | .float x => .float x.neg

def Number.abs : Number → Number
  | .natural n => .natural n.natAbs
  | .decimal d => .decimal d.abs
  | .float x => .float x.abs

def Number.factorial (x : Number) : Except NumericError Number :=
  match x.integer? with
  | some n =>
    if n < 0 then .error (.domain (.noFactorial x))
    else if (largestFactorial : Int) < n then .error (.range (.factorialRefused n))
    else .ok (.natural (Reckoner.factorial n.toNat))
  | none => .error (.domain (.noFactorial x))

def Number.toWord (x : Number) (bits : Int) : Except NumericError Int :=
  match x.integer? with
  | none => .error (.domain (.notInteger x))
  | some n =>
    if bits < 1 then .error (.fault .negativeShift)
    else
      let limit : Int := twoTo (bits.toNat - 1)
      if -limit ≤ n ∧ n < limit then .ok n
      else .error (.range (.tooWide x bits.toNat))

def Number.ofRat (precision : Nat) (r : Rat) : Except NumericError Number :=
  if r.den = 1 then .ok (.natural r.num) else Number.ofDecimal? (Decimal.ofRat? precision r)

def Number.floor : Number → Number
  | .natural n => .natural n
  | .decimal d => .natural d.floor
  | .float x => .natural x.floor

def Number.ceil : Number → Number
  | .natural n => .natural n
  | .decimal d => .natural d.ceil
  | .float x => .natural x.ceil

/-- The nearest integer, a half going away from zero. -/
def Number.round : Number → Number
  | .natural n => .natural n
  | x =>
    let n := ((if x.toRat < 0 then -x.toRat else x.toRat) + mkRat 1 2).floor
    .natural (if x.toRat < 0 then -n else n)

def Number.max (a b : Number) : Number :=
  if Comparison.greater.holds b a then b else a

def Number.min (a b : Number) : Number :=
  if Comparison.less.holds b a then b else a

end Reckoner
