import Reckoner.Number.Digits

namespace Reckoner

/-- The integer nearest to `num / den`; a half goes to the even neighbour. -/
def roundHalfEven (num den : Nat) : Nat :=
  let quotient := num / den
  let twice := 2 * (num % den)
  if twice < den then quotient
  else if den < twice then quotient + 1
  else if quotient % 2 = 0 then quotient else quotient + 1

def removeFactor (p n : Nat) : Nat × Nat :=
  if h : 1 < p ∧ 0 < n ∧ n % p = 0 then
    have : n / p < n := Nat.div_lt_self h.2.1 h.1
    let (count, rest) := removeFactor p (n / p)
    (count + 1, rest)
  else (0, n)
termination_by n

def digitCount (n : Nat) : Nat :=
  (natChars n).length

/-- The place of the point in the digits of `num / den`: the least `p` with `num / den < 10 ^ p`. -/
def pointPlace (num den : Nat) : Int :=
  if den ≤ num then digitCount (num / den) else 1 - (digitCount ((den - 1) / num) : Int)

def bitLength (n : Nat) : Nat :=
  if n = 0 then 0 else n.log2 + 1

/-- Newton's iteration for the square root, from a guess above it. -/
def sqrtFrom (n guess : Nat) : Nat :=
  let next := (n / guess + guess) / 2
  if _h : next < guess then sqrtFrom n next else guess
termination_by guess

def floorSqrt (n : Nat) : Nat :=
  if n ≤ 1 then n else sqrtFrom n (twoTo (n.log2 / 2 + 1))

def rangeProduct (start count : Nat) : Nat :=
  if _h : count = 0 then 1
  else if _h1 : count = 1 then start + 1
  else rangeProduct start (count / 2) * rangeProduct (start + count / 2) (count - count / 2)
termination_by count

def factorial (n : Nat) : Nat :=
  rangeProduct 0 n

end Reckoner
