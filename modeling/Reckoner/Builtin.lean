import Reckoner.Number.Arithmetic

namespace Reckoner

def bounded (name : String) (f : Float → Float) (x : Number) : Except NumericError Number := do
  let y ← x.toDouble
  let undefined := .domain (.undefinedCall name [x])
  Number.ofFloat undefined undefined (f y.toFloat)

/-- A function defined on all doubles whose values may leave the range. -/
def growing (name : String) (f : Float → Float) (x : Number) : Except NumericError Number := do
  let y ← x.toDouble
  Number.ofFloat (.range (.callTooLarge name)) (.domain (.undefinedCall name [x])) (f y.toFloat)

def onUnitInterval (name : String) (f : Float → Float) (x : Number) :
    Except NumericError Number :=
  if x.toRat < -1 ∨ 1 < x.toRat then .error (.domain (.outsideUnitInterval name x))
  else bounded name f x

/-- A logarithm of a natural beyond the range of floats, as the sum of the logarithms of a fraction
between 1/2 and 1 and of a power of two. -/
def logOfLarge (f : Float → Float) (n : Nat) : Float :=
  let power := bitLength n
  let significand := roundHalfEven n (twoTo (power - 53))
  let (significand, power) :=
    if significand < twoTo 53 then (significand, power) else (twoTo 52, power + 1)
  f (significand.toFloat / (twoTo 53).toFloat) + f 2 * power.toFloat

def logarithm (name : String) (f : Float → Float) (x : Number) : Except NumericError Number :=
  if x.toRat ≤ 0 then .error (.domain (.nonPositive name x))
  else
    match x, x.toDouble? with
    | .natural n, none =>
      let undefined := .domain (.undefinedCall name [x])
      Number.ofFloat undefined undefined (logOfLarge f n.natAbs)
    | _, _ => bounded name f x

/-- The root of a fraction whose numerator and denominator are squares. -/
def exactRoot? (r : Rat) : Option Rat :=
  let num := floorSqrt r.num.natAbs
  let den := floorSqrt r.den
  if num * num = r.num.natAbs ∧ den * den = r.den then some (mkRat num den) else none

/-- The square root, exact and of the same kind where an exact number has an exact root. -/
def squareRoot (x : Number) : Except NumericError Number :=
  if x.isNegative then .error (.domain (.negativeRoot x))
  else
    match x, exactRoot? x.toRat with
    | .natural _, some r => .ok (.natural r.num)
    | .decimal _, some r => .ok (.decimal ((Decimal.ofFinite? r).getD (.ofInt r.num)))
    | _, _ => do
      let y ← x.toDouble
      Number.ofDouble? y.sqrt

def angle (y x : Number) : Except NumericError Number := do
  let dy ← y.toDouble
  let dx ← x.toDouble
  let undefined := .domain (.undefinedCall "atan2" [y, x])
  Number.ofFloat undefined undefined (Float.atan2 dy.toFloat dx.toFloat)

inductive Rule where
  | unary (f : Number → Except NumericError Number)
  | binary (f : Number → Number → Except NumericError Number)

structure Builtin where
  name : String
  rule : Rule

def Builtin.arity (b : Builtin) : Nat :=
  match b.rule with
  | .unary _ => 1
  | .binary _ => 2

def Builtin.apply? (b : Builtin) (args : List Number) : Option (Except NumericError Number) :=
  match b.rule, args with
  | .unary f, [x] => some (f x)
  | .binary f, [x, y] => some (f x y)
  | _, _ => none

def builtins : List Builtin :=
  [⟨"sin", .unary (bounded "sin" Float.sin)⟩,
   ⟨"cos", .unary (bounded "cos" Float.cos)⟩,
   ⟨"tan", .unary (bounded "tan" Float.tan)⟩,
   ⟨"asin", .unary (onUnitInterval "asin" Float.asin)⟩,
   ⟨"acos", .unary (onUnitInterval "acos" Float.acos)⟩,
   ⟨"atan", .unary (bounded "atan" Float.atan)⟩,
   ⟨"atan2", .binary angle⟩,
   ⟨"sinh", .unary (growing "sinh" Float.sinh)⟩,
   ⟨"cosh", .unary (growing "cosh" Float.cosh)⟩,
   ⟨"tanh", .unary (bounded "tanh" Float.tanh)⟩,
   ⟨"exp", .unary (growing "exp" Float.exp)⟩,
   ⟨"ln", .unary (logarithm "ln" Float.log)⟩,
   ⟨"log", .unary (logarithm "log" Float.log10)⟩,
   ⟨"log10", .unary (logarithm "log10" Float.log10)⟩,
   ⟨"log2", .unary (logarithm "log2" Float.log2)⟩,
   ⟨"sqrt", .unary squareRoot⟩,
   ⟨"pow", .binary Number.pow⟩,
   ⟨"abs", .unary fun x => .ok x.abs⟩,
   ⟨"floor", .unary fun x => .ok x.floor⟩,
   ⟨"ceil", .unary fun x => .ok x.ceil⟩,
   ⟨"round", .unary fun x => .ok x.round⟩,
   ⟨"max", .binary fun a b => .ok (a.max b)⟩,
   ⟨"min", .binary fun a b => .ok (a.min b)⟩]

def findBuiltin? (name : String) : Option Builtin :=
  builtins.find? fun b => b.name == name

/-- A positive double between one and eight, given by its significand of 53 bits. -/
def constant (significand unit : Nat) (h : Canonical significand unit) : Number :=
  .float ⟨false, significand, unit, h⟩

def constants : List (String × Number) :=
  [("pi", constant 7074237752028440 1023 (by decide)),
   ("e", constant 6121026514868073 1023 (by decide)),
   ("tau", constant 7074237752028440 1024 (by decide)),
   ("phi", constant 7286977268806824 1022 (by decide)),
   ("gamma", constant 5199096506725913 1021 (by decide))]

def findConstant? (name : String) : Option Number :=
  (constants.find? fun c => c.1 == name).map (·.2)

end Reckoner
