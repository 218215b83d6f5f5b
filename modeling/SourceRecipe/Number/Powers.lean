/-!
# Powers

The powers of two and of ten, as bounds of machine numbers and as the values of digits.
-/

namespace SourceRecipe

def twoTo (n : Nat) : Nat := Nat.pow 2 n

def tenTo (n : Nat) : Nat := Nat.pow 10 n

theorem twoTo_pos (n : Nat) : 0 < twoTo n := Nat.two_pow_pos n

theorem tenTo_pos (n : Nat) : 0 < tenTo n := Nat.pow_pos (by decide)

/-- The highest bit of a number is not above it. -/
theorem twoTo_log2_le {n : Nat} (nonzero : n ≠ 0) : twoTo n.log2 ≤ n := Nat.log2_self_le nonzero

end SourceRecipe
