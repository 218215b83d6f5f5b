/-!
# Numbers in a text

Reading and writing decimal and hexadecimal numbers as lists of digits.
-/

namespace SourceRecipe.Text

def digitValue (c : Char) : Nat :=
  c.toNat - '0'.toNat

/-- The value of a list of decimal digits, most significant first, after a number already
read. -/
def digitsValueFrom (start : Nat) (digits : List Char) : Nat :=
  digits.foldl (fun total c => 10 * total + digitValue c) start

/-- The value of a list of decimal digits, most significant first. -/
def digitsValue (digits : List Char) : Nat :=
  digitsValueFrom 0 digits

/-- A non-empty list of decimal digits. -/
def isNumeral (text : List Char) : Bool :=
  !text.isEmpty && text.all Char.isDigit

def numeral (n : Nat) : List Char :=
  (toString n).toList

theorem isDigit_of_mem_numeral {n : Nat} {c : Char} (h : c ∈ numeral n) : c.isDigit := by
  unfold numeral at h
  change c ∈ (Nat.repr n).toList at h
  rw [Nat.toList_repr] at h
  exact Nat.isDigit_of_mem_toDigits (by decide) (by decide) h

theorem count_numeral {c : Char} (other : ¬ c.isDigit) {n : Nat} : (numeral n).count c = 0 :=
  List.count_eq_zero.2 fun h => other (isDigit_of_mem_numeral h)

/-- The decimal digits of a number, with zeros before them up to `width` digits. -/
def padded (width n : Nat) : List Char :=
  let digits := numeral n
  List.replicate (width - digits.length) '0' ++ digits

def hexValue? (c : Char) : Option Nat :=
  if c.isDigit then some (c.toNat - '0'.toNat)
  else if 'a' ≤ c ∧ c ≤ 'f' then some (c.toNat - 'a'.toNat + 10)
  else if 'A' ≤ c ∧ c ≤ 'F' then some (c.toNat - 'A'.toNat + 10)
  else none

def hexDigit (n : Nat) : Char :=
  if n < 10 then Char.ofNat ('0'.toNat + n) else Char.ofNat ('a'.toNat + (n - 10))

/-- The `width` lowest hexadecimal digits of a number. -/
def hexPadded : (width : Nat) → Nat → List Char
  | 0, _ => []
  | width + 1, n => hexPadded width (n / 16) ++ [hexDigit (n % 16)]

end SourceRecipe.Text
