import SourceRecipe.Number.Binary64
import SourceRecipe.Text.Digits

/-!
# Decimal texts of floating point numbers

A finite number is written with the fewest decimal digits that read back as the same number; of
several such texts the nearest to the number is taken, and a rule for ties says which one if two
are equally near.  For each number of digits the two neighbours of the number on the decimal grid
are tried, which is enough: if any point of a grid reads back, so does one of these two.
-/

namespace SourceRecipe.Binary64

open SourceRecipe.Text

structure Decimal where
  digits : Nat
  power : Int
  deriving DecidableEq

/-- Which of two equally near decimals stands for a number that lies halfway between them. -/
inductive Tie where
  /-- The greater one. -/
  | up
  /-- The one whose last digit is even. -/
  | even
  deriving DecidableEq

/-- Whether the greater decimal is chosen in a tie, given the digits of the lesser one. -/
def Tie.goesUp : Tie → (below : Nat) → Bool
  | up, _ => true
  | even, below => below % 2 == 1

/-- The whole part of `num / den / 10 ^ power`, and how what is left compares with a half. -/
def onGrid (num den : Nat) (power : Int) : Nat × Ordering :=
  let (n, d) :=
    if 0 ≤ power then (num, den * tenTo power.toNat) else (num * tenTo (-power).toNat, den)
  (n / d, compare (2 * (n % d)) d)

/-- The exponent of ten of a fraction that is not zero: `10 ^ k ≤ num / den < 10 ^ (k + 1)`. -/
def tenPower (num den : Nat) : Int :=
  if den ≤ num then (numeral (num / den)).length - 1
  else
    let guess := (numeral (den / num)).length
    if den ≤ num * tenTo (guess - 1) then 1 - (guess : Int) else -(guess : Int)

/-- The decimal of a given number of digits that reads back as a bit pattern, if there is one. -/
def decimalOf? (tie : Tie) (bits width : Nat) : Option Decimal :=
  let (num, den) := fraction bits
  let power := tenPower num den - width + 1
  let (below, left) := onGrid num den power
  let reads (digits : Nat) : Bool := nearestDecimal digits power == bits
  let (near, far) :=
    match left, tie.goesUp below with
    | .lt, _ | .eq, false => (below, below + 1)
    | .gt, _ | .eq, true => (below + 1, below)
  if reads near then some ⟨near, power⟩
  else if reads far then some ⟨far, power⟩
  else none

def exactDecimal (bits : Nat) : Decimal :=
  let (m, q) := decode bits
  if 0 ≤ q then ⟨m * twoTo q.toNat, 0⟩ else ⟨m * Nat.pow 5 (-q).toNat, q⟩

def Decimal.strip : (fuel : Nat) → Decimal → Decimal
  | 0, decimal => decimal
  | fuel + 1, decimal =>
      if decimal.digits ≠ 0 ∧ decimal.digits % 10 = 0 then
        Decimal.strip fuel ⟨decimal.digits / 10, decimal.power + 1⟩
      else decimal

/-- The shortest decimal that reads back as a bit pattern.  Seventeen digits are always enough;
the exact decimal stands in for the case that they were not. -/
def shortest (tie : Tie) (bits : Nat) : Decimal :=
  if bits = 0 then ⟨0, 0⟩
  else
    let found := (List.range 17).findSome? fun n => decimalOf? tie bits (n + 1)
    Decimal.strip 20 (found.getD (exactDecimal bits))

/-- A decimal written with a point and at least one digit on each side of it. -/
def Decimal.positional (decimal : Decimal) : List Char :=
  let digits := numeral decimal.digits
  if 0 ≤ decimal.power then digits ++ List.replicate decimal.power.toNat '0' ++ ['.', '0']
  else
    let places := (-decimal.power).toNat
    if places < digits.length then
      digits.take (digits.length - places) ++ '.' :: digits.drop (digits.length - places)
    else '0' :: '.' :: (List.replicate (places - digits.length) '0' ++ digits)

/-- The exponent of ten of the first digit of a decimal. -/
def Decimal.exponent (decimal : Decimal) : Int :=
  decimal.power + (numeral decimal.digits).length - 1

/-- A decimal written with one digit before the point and a signed exponent. -/
def Decimal.scientific (decimal : Decimal) : List Char :=
  let exponent := decimal.exponent
  let sign := if exponent < 0 then '-' else '+'
  let mantissa :=
    match numeral decimal.digits with
    | [] => []
    | [single] => [single]
    | first :: others => first :: '.' :: others
  mantissa ++ 'e' :: sign :: numeral exponent.natAbs

end SourceRecipe.Binary64
