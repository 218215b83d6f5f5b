import SourceRecipe.Number.Shortest

/-!
# Floats

The bit pattern of a float, the texts that stand for it, and the two steps of arithmetic that
are not single operations of floats: a whole power, and the number of nanoseconds in a number
of seconds.
-/

namespace SourceRecipe.Binary64

open SourceRecipe.Text

def magnitude (x : Float) : Nat :=
  x.toBits.toNat % twoTo 63

def isNegative (x : Float) : Bool :=
  twoTo 63 ≤ x.toBits.toNat

def ofMagnitude (negative : Bool) (bits : Nat) : Float :=
  Float.ofBits (UInt64.ofNat (if negative then twoTo 63 + bits else bits))

def ofDecimal (negative : Bool) (digits : Nat) (power : Int) : Float :=
  ofMagnitude negative (nearestDecimal digits power)

def ofNat (n : Nat) : Float :=
  ofMagnitude false (nearestBits n 1)

def signed (x : Float) (text : List Char) : List Char :=
  if isNegative x then '-' :: text else text

/-- A finite float in positional notation; a tie goes up. -/
def positionalText (x : Float) : List Char :=
  signed x (shortest .up (magnitude x)).positional

/-- A finite float in positional notation from a hundred-thousandth up to 10 ^ 16, and with an
exponent outside that range; a tie goes to the even digit. -/
def compactText (x : Float) : List Char :=
  let decimal := shortest .even (magnitude x)
  let exponent := decimal.exponent
  signed x (if decimal.digits = 0 ∨ (-5 ≤ exponent ∧ exponent < 16) then decimal.positional
    else decimal.scientific)

/-- A finite float that is not negative with a fixed number of places after the point; a tie
goes to the even digit. -/
def fixedText (places : Nat) (x : Float) : List Char :=
  let (num, den) := fraction (magnitude x)
  let units := roundDiv (num * tenTo places) den
  numeral (units / tenTo places) ++ '.' :: padded places (units % tenTo places)

/-- A product with a power of `x`, by squaring; every product is rounded. -/
def timesPower (product x : Float) (n : Nat) : Float :=
  let next := if n % 2 = 1 then product * x else product
  if n < 2 then next else timesPower next (x * x) (n / 2)
termination_by n

def power (x : Float) (n : Nat) : Float :=
  timesPower 1.0 x n

/-- The lesser of two floats; what is not a number does not count. -/
def lesser (x y : Float) : Float :=
  if x.isNaN then y else if y < x then y else x

/-- The nanoseconds in a number of seconds, rounded to the nearest, if there is such a span: it
must not be negative, and its whole seconds must be below 2 ^ 64. -/
def nanoseconds? (seconds : Float) : Option Nat :=
  if seconds.isNaN ∨ seconds < 0.0 ∨ ofNat (twoTo 64) ≤ seconds then none
  else
    let (num, den) := fraction (magnitude seconds)
    some (roundDiv (num * 1000000000) den)

def seconds (nanoseconds : Nat) : Float :=
  ofNat (nanoseconds / 1000000000) + ofNat (nanoseconds % 1000000000) / 1000000000.0

end SourceRecipe.Binary64
