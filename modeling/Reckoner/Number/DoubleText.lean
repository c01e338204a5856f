import Reckoner.Number.Double

namespace Reckoner

def shiftDecimal (num den : Nat) (shift : Int) : Nat × Nat :=
  (num * tenTo shift.toNat, den * tenTo (-shift).toNat)

/-- The double that the digits `c`, with their last one at `10 ^ grid`, are read as. -/
def Double.ofGrid (negative : Bool) (c : Nat) (grid : Int) : Option Double :=
  let (num, den) := shiftDecimal c 1 grid
  Double.ofRatio negative num den

/-- Of the two neighbours of a double on the grid of multiples of `10 ^ grid`, the nearer one that
reads back. -/
def Double.onGrid (x : Double) (grid : Int) : Option Nat :=
  let (num, den) := shiftDecimal (x.significand * twoTo x.unit) (twoTo 1074) (-grid)
  let below := num / den
  let nearest := roundHalfEven num den
  let other := if nearest = below then below + 1 else below
  if Double.ofGrid x.negative nearest grid = some x then some nearest
  else if Double.ofGrid x.negative other grid = some x then some other
  else none

/-- The digits of a double that is not zero, and the place of the point in them. -/
def Double.shortestDigits (x : Double) : List Char × Int :=
  let point := pointPlace (x.significand * twoTo x.unit) (twoTo 1074)
  let found := (List.range 17).findSome? fun (n : Nat) =>
    let grid : Int := point - (n + 1)
    (x.onGrid grid).map fun c => (c, grid)
  match found with
  | some (c, grid) =>
    let digits := natChars c
    ((digits.reverse.dropWhile (· = '0')).reverse, digits.length + grid)
  | none => (['0'], 1)

def zeros (n : Nat) : List Char :=
  List.replicate n '0'

def positional (digits : List Char) (point : Int) : List Char :=
  if point ≤ 0 then '0' :: '.' :: zeros (-point).toNat ++ digits
  else
    let whole := point.toNat
    if digits.length ≤ whole then digits ++ zeros (whole - digits.length) ++ ['.', '0']
    else digits.take whole ++ '.' :: digits.drop whole

def scientific (digits : List Char) (exponent : Int) : List Char :=
  let mantissa := match digits with
    | first :: second :: rest => first :: '.' :: second :: rest
    | few => few
  let power := natChars exponent.natAbs
  let padded := if power.length < 2 then '0' :: power else power
  mantissa ++ 'e' :: (if exponent < 0 then '-' else '+') :: padded

def Double.toChars (x : Double) : List Char :=
  let unsigned :=
    if x.isZero then ['0', '.', '0']
    else
      let (digits, point) := x.shortestDigits
      if -4 < point ∧ point ≤ 16 then positional digits point else scientific digits (point - 1)
  if x.negative then '-' :: unsigned else unsigned

def Double.toText (x : Double) : String :=
  String.ofList x.toChars

def ExtendedDouble.toText : ExtendedDouble → String
  | .finite x => x.toText
  | .infinite negative => if negative then "-inf" else "inf"
  | .notANumber => "nan"

end Reckoner
