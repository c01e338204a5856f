import Reckoner.Number.Arithmetic
import Reckoner.Number.Reading
import Reckoner.Text.Quoted

namespace Reckoner

inductive Datum where
  | number (x : Number)
  | integer (n : Int)
  | double (x : ExtendedDouble)
  | decimal (d : ExtendedDecimal)
  | fraction (r : Rat)
  | text (s : String)
  | boolean (b : Bool)
  | foreign (typeName : String)

inductive DatumError where
  | malformed (text : String)
  | boolean
  | foreign (typeName : String)
  | numeric (e : NumericError)
deriving DecidableEq

def malformedMessage (text : String) : String :=
  "malformed number: " ++ quoted text

def DatumError.message? : DatumError → Option String
  | .malformed text => some (malformedMessage text)
  | .boolean => some "cannot use a bool as a number"
  | .foreign typeName => some ("cannot convert " ++ typeName ++ " to a number")
  | .numeric _ => none

def ExtendedDecimal.toNumber : ExtendedDecimal → Except NumericError Number
  | .finite d => .ok (.decimal d)
  | .special text => .error (.domain (.notFinite text))

/-- A fraction is exact where its decimal expansion is finite, and else a float. -/
def Number.ofFraction (r : Rat) : Except NumericError Number :=
  if r.den = 1 then .ok (.natural r.num)
  else
    match Decimal.ofFinite? r with
    | some d => .ok (.decimal d)
    | none =>
      match Double.ofRat false r with
      | some x => .ok (.float x)
      | none => .error (.fault .fractionTooLarge)

def Number.ofDatum : Datum → Except DatumError Number
  | .number x => .ok x
  | .integer n => .ok (.natural n)
  | .double x => x.toNumber.mapError .numeric
  | .decimal d => d.toNumber.mapError .numeric
  | .fraction r => (Number.ofFraction r).mapError .numeric
  | .text s =>
    match Number.ofText? (trim s) with
    | some x => .ok x
    | none => .error (.malformed (trim s))
  | .boolean _ => .error .boolean
  | .foreign typeName => .error (.foreign typeName)

/-- Numbers and numeric values are operands; texts, truth values and other things are none. -/
def Datum.isOperand : Datum → Bool
  | .number _ | .integer _ | .double _ | .decimal _ | .fraction _ => true
  | .text _ | .boolean _ | .foreign _ => false

inductive ComparisonError where
  | unordered
  | operand (e : DatumError)
deriving DecidableEq

def Comparison.flip : Comparison → Comparison
  | .equal => .equal
  | .unequal => .unequal
  | .less => .greater
  | .atMost => .atLeast
  | .greater => .less
  | .atLeast => .atMost

/-- A number compared with a value on its right. What is no operand is unequal to every number, and
no order is defined between the two. -/
def Number.compareWith (comparison : Comparison) (a : Number) (value : Datum) :
    Except ComparisonError Bool :=
  if value.isOperand then
    match Number.ofDatum value with
    | .ok b => .ok (comparison.holds a b)
    | .error e => .error (.operand e)
  else
    match comparison with
    | .equal => .ok false
    | .unequal => .ok true
    | _ => .error .unordered

/-- A value compared with a number on its right. The value does not know the number, which is asked
with the sides exchanged. -/
def Datum.compareWith (comparison : Comparison) (value : Datum) (a : Number) :
    Except ComparisonError Bool :=
  a.compareWith comparison.flip value

end Reckoner
