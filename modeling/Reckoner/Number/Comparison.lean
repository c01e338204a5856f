import Reckoner.Number.Basic

namespace Reckoner

def Decimal.sign (d : Decimal) : Int :=
  if d.isZero then 0 else if d.negative then -1 else 1

/-- Decimals other than zero, compared without their signs: by the places of their first digits, and
only then at a common exponent, so that no large power of ten is needed where the places differ. -/
def Decimal.compareDigits (a b : Decimal) : Ordering :=
  (compare a.leadingPlace b.leadingPlace).then
    (compare (a.coefficient * tenTo (a.exponent - b.exponent).toNat)
      (b.coefficient * tenTo (b.exponent - a.exponent).toNat))

def Decimal.compareTo (a b : Decimal) : Ordering :=
  (compare a.sign b.sign).then
    (if a.isZero then .eq else if a.negative then b.compareDigits a else a.compareDigits b)

/-- The decimal of the same value. A double is a fraction over a power of two, and five to the same
power makes it a power of ten. -/
def Decimal.ofDouble (x : Double) : Decimal :=
  let places := x.toRat.den.log2
  ⟨x.negative, x.toRat.num.natAbs * Nat.pow 5 places, -(places : Int)⟩

def Number.compareTo : Number → Number → Ordering
  | .natural m, .natural n => compare m n
  | .natural m, .decimal e => (Decimal.ofInt m).compareTo e
  | .natural m, .float y => compare (m * twoTo 1074) y.units
  | .decimal d, .natural n => d.compareTo (.ofInt n)
  | .decimal d, .decimal e => d.compareTo e
  | .decimal d, .float y => d.compareTo (.ofDouble y)
  | .float x, .natural n => compare x.units (n * twoTo 1074)
  | .float x, .decimal e => (Decimal.ofDouble x).compareTo e
  | .float x, .float y => compare x.units y.units

def Number.equals (a b : Number) : Bool :=
  a.compareTo b = .eq

def Number.less (a b : Number) : Bool :=
  a.compareTo b = .lt

inductive Comparison where
  | equal
  | unequal
  | less
  | atMost
  | greater
  | atLeast
deriving DecidableEq, Repr

/-- Only equality and being less are comparisons of their own; the others are made of these two. -/
def Comparison.holds (comparison : Comparison) (a b : Number) : Bool :=
  match comparison with
  | .equal => a.equals b
  | .unequal => !a.equals b
  | .less => a.less b
  | .atMost => a.less b || a.equals b
  | .greater => !a.less b && !a.equals b
  | .atLeast => !a.less b

/-- Hashes are residues modulo this prime, in which two to the power of 61 is one. -/
def hashModulus : Nat :=
  twoTo 61 - 1

def tenthResidue : Nat :=
  2075258708292324556

def powerResidue (base exponent : Nat) : Nat :=
  if _h : exponent = 0 then 1
  else
    let half := powerResidue (base * base % hashModulus) (exponent / 2)
    if exponent % 2 = 0 then half else half * base % hashModulus
termination_by exponent

/-- The residue of the size of a number. The smallest positive double is 2 to the power of -1074,
which has the residue of 2 to the power of 24. -/
def Number.residue : Number → Nat
  | .natural n => n.natAbs % hashModulus
  | .decimal d =>
    let base := if d.exponent < 0 then tenthResidue else 10
    d.coefficient * powerResidue base d.exponent.natAbs % hashModulus
  | .float x => x.significand * twoTo ((x.unit + 24) % 61) % hashModulus

/-- A residue with a sign; -1 stands for no hash. -/
def signedHash (negative : Bool) (residue : Nat) : Int :=
  let hash : Int := if negative then -residue else residue
  if hash = -1 then -2 else hash

def Number.hash (x : Number) : Int :=
  match x with
  | .natural n => signedHash (decide (n < 0)) x.residue
  | .decimal d => signedHash d.negative x.residue
  | .float y => signedHash y.negative x.residue

/-- A number is found in a set by its hash first. -/
def Number.isIn (x : Number) (set : List Number) : Bool :=
  set.any fun y => decide (y.hash = x.hash) && y.equals x

def insertNumber (set : List Number) (x : Number) : List Number :=
  if x.isIn set then set else set ++ [x]

def numberSet (xs : List Number) : List Number :=
  xs.foldl insertNumber []

end Reckoner
