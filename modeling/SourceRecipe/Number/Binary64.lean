import SourceRecipe.Number.Powers

/-!
# Binary floating point numbers as exact values

A finite number that is not negative is `m · 2 ^ q`.  Its bit pattern, read as a natural number,
grows with the value, which makes rounding a matter of integers: `nearestBits` is the pattern of
the number nearest to a fraction, and `decode` gives `m` and `q` back.
-/

namespace SourceRecipe.Binary64

def fractionBits : Nat := 52

def leastExponent : Int := -1074

/-- The bit pattern of infinity, above those of all finite numbers. -/
def infinity : Nat := 0x7FF0000000000000

/-- A quotient rounded to the nearest whole number, a tie to the even one. -/
def roundDiv (num den : Nat) : Nat :=
  let quotient := num / den
  let remainder := num % den
  if 2 * remainder < den then quotient
  else if 2 * remainder = den then quotient + quotient % 2
  else quotient + 1

/-- A fraction over a power of two: numerator and denominator of `num / den / 2 ^ q`. -/
def scaled (num den : Nat) (q : Int) : Nat × Nat :=
  if 0 ≤ q then (num, den * twoTo q.toNat) else (num * twoTo (-q).toNat, den)

/-- The exponent at which a fraction has 53 bits before the point, or the least one. -/
def exponentOf (num den : Nat) : Int :=
  let guess : Int := (Nat.log2 num : Int) - Nat.log2 den - 53
  let (n, d) := scaled num den guess
  max leastExponent (if n / d < twoTo 53 then guess else guess + 1)

/-- The bit pattern of the number nearest to `num / den`, a tie going to the even pattern. -/
def nearestBits (num den : Nat) : Nat :=
  if num = 0 then 0
  else
    let q := exponentOf num den
    let (n, d) := scaled num den q
    min infinity ((q - leastExponent).toNat * twoTo fractionBits + roundDiv n d)

def decode (bits : Nat) : Nat × Int :=
  let exponent := bits / twoTo fractionBits
  let fraction := bits % twoTo fractionBits
  if exponent = 0 then (fraction, leastExponent)
  else (fraction + twoTo fractionBits, exponent + leastExponent - 1)

def fraction (bits : Nat) : Nat × Nat :=
  let (m, q) := decode bits
  if 0 ≤ q then (m * twoTo q.toNat, 1) else (m, twoTo (-q).toNat)

def nearestDecimal (digits : Nat) (power : Int) : Nat :=
  if 0 ≤ power then nearestBits (digits * tenTo power.toNat) 1
  else nearestBits digits (tenTo (-power).toNat)

end SourceRecipe.Binary64
