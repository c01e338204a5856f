import Reckoner.Number.Error
import Reckoner.Text.Digit

namespace Reckoner

def isPlainDigit (c : Char) : Bool :=
  '0' ≤ c && c ≤ '9'

def isUnsignedLiteral (body : List Char) : Bool :=
  body.all (fun c => isPlainDigit c || c == '.') && body.any isPlainDigit && body.count '.' ≤ 1

/-- Digits with a point among them, as a decimal of as many decimals as digits after the point. -/
def Decimal.ofLiteral (negative : Bool) (body : List Char) : Decimal :=
  let decimals := ((body.dropWhile (· ≠ '.')).drop 1).length
  ⟨negative, Nat.ofDigitChars 10 (body.filter isPlainDigit) 0, -(decimals : Int)⟩

/-- The most characters of an integer that is read as such; a longer one is read as a decimal. -/
def shortDigits : Nat :=
  600

def integerOfChars (cs : List Char) : Int :=
  let (negative, digits) := takeSign cs
  if cs.length ≤ shortDigits then withSign negative (Nat.ofDigitChars 10 digits 0)
  else (Number.decimal (Decimal.ofLiteral negative digits)).truncate

def Number.ofChars? (cs : List Char) : Option Number :=
  let (negative, body) := takeSign cs
  if isUnsignedLiteral body then
    if body.contains '.' then some (.decimal (Decimal.ofLiteral negative body))
    else some (.natural (integerOfChars cs))
  else none

def Number.ofText? (s : String) : Option Number :=
  Number.ofChars? s.toList

/-- A decimal, or the text of a value that is none: an infinity or a not-a-number. -/
inductive ExtendedDecimal where
  | finite (d : Decimal)
  | special (text : String)
deriving DecidableEq, Repr

def readScientific? (take : List Char → List Char × List Char) (cs : List Char) :
    Option (Nat × Int) :=
  let (whole, rest) := take cs
  let (decimals, rest) := match rest with
    | '.' :: rest => take rest
    | rest => ([], rest)
  if whole.isEmpty && decimals.isEmpty then none
  else
    let coefficient := Nat.ofDigitChars 10 (whole ++ decimals) 0
    match rest with
    | [] => some (coefficient, -(decimals.length : Int))
    | e :: rest =>
      if e = 'e' ∨ e = 'E' then
        let (negative, rest) := takeSign rest
        match take rest with
        | ([], _) => none
        | (digits, []) =>
          some (coefficient, withSign negative (Nat.ofDigitChars 10 digits 0) - decimals.length)
        | (_, _ :: _) => none
      else none

def lowerChars (cs : List Char) : List Char :=
  cs.map Char.toLower

/-- A decimal in any usual notation, if decimal arithmetic has it as it is written. -/
def ExtendedDecimal.read? (s : String) : Option ExtendedDecimal :=
  let cs := ((trimChars s.toList).filter (· ≠ '_')).map plainDigit
  let (negative, cs) := takeSign cs
  let sign := if negative then "-" else ""
  match readScientific? (fun cs => cs.span Char.isDigit) cs with
  | some (coefficient, exponent) =>
    let d : Decimal := ⟨negative, coefficient, exponent⟩
    if exactContext.fit d = some d then some (.finite d) else none
  | none =>
    let word := lowerChars (cs.takeWhile Char.isAlpha)
    let payload := cs.dropWhile Char.isAlpha
    let shown := String.ofList (payload.dropWhile (· = '0'))
    if (word = "inf".toList ∨ word = "infinity".toList) ∧ payload.isEmpty then
      some (.special (sign ++ "Infinity"))
    else if word = "nan".toList ∧ payload.all Char.isDigit then
      some (.special (sign ++ "NaN" ++ shown))
    else if word = "snan".toList ∧ payload.all Char.isDigit then
      some (.special (sign ++ "sNaN" ++ shown))
    else none

/-- The double nearest to `coefficient * 10 ^ exponent`; magnitudes far out of range are not
computed. -/
def ExtendedDouble.ofScientific (negative : Bool) (coefficient : Nat) (exponent : Int) :
    ExtendedDouble :=
  let place := exponent + digitCount coefficient
  if coefficient = 0 ∨ place < -400 then .finite (.zero negative)
  else if 400 < place then .infinite negative
  else
    match Double.ofGrid negative coefficient exponent with
    | some x => .finite x
    | none => .infinite negative

def ExtendedDouble.read? (s : String) : Option ExtendedDouble :=
  let (negative, cs) := takeSign ((dropMargins s.toList).map plainDigit)
  match readScientific? takeGrouped cs with
  | some (coefficient, exponent) => some (.ofScientific negative coefficient exponent)
  | none =>
    let word := lowerChars cs
    if word = "inf".toList ∨ word = "infinity".toList then some (.infinite negative)
    else if word = "nan".toList then some .notANumber
    else none

end Reckoner
