/-!
# Text from bytes

Programs print bytes, which need not be UTF-8.  Where the bytes stop being the encoding of a
character, what was read of it becomes one replacement character, and reading goes on with the
byte that did not fit.
-/

namespace SourceRecipe.Text

def replacement : Char := '\uFFFD'

/-- What a byte that begins a longer character means: the bits it gives, and the ranges of the
bytes that must follow. -/
def leadByte? (byte : Nat) : Option (Nat × List (Nat × Nat)) :=
  let tail := (0x80, 0xBF)
  if 0xC2 ≤ byte ∧ byte ≤ 0xDF then some (byte - 0xC0, [tail])
  else if byte = 0xE0 then some (0, [(0xA0, 0xBF), tail])
  else if byte = 0xED then some (0xD, [(0x80, 0x9F), tail])
  else if 0xE1 ≤ byte ∧ byte ≤ 0xEF then some (byte - 0xE0, [tail, tail])
  else if byte = 0xF0 then some (0, [(0x90, 0xBF), tail, tail])
  else if 0xF1 ≤ byte ∧ byte ≤ 0xF3 then some (byte - 0xF0, [tail, tail, tail])
  else if byte = 0xF4 then some (4, [(0x80, 0x8F), tail, tail])
  else none

/-- The text of some bytes, when a character with the bits `value` so far still needs bytes in
the ranges `needed`. -/
def decodeFrom (value : Nat) (needed : List (Nat × Nat)) : List UInt8 → List Char
  | [] => if needed.isEmpty then [] else [replacement]
  | byte :: others =>
      let b := byte.toNat
      let begin :=
        if b < 0x80 then Char.ofNat b :: decodeFrom 0 [] others
        else
          match leadByte? b with
          | none => replacement :: decodeFrom 0 [] others
          | some (bits, ranges) => decodeFrom bits ranges others
      match needed with
      | [] => begin
      | (low, high) :: later =>
          if low ≤ b ∧ b ≤ high then
            let bits := 64 * value + b % 64
            if later.isEmpty then Char.ofNat bits :: decodeFrom 0 [] others
            else decodeFrom bits later others
          else replacement :: begin

def decode (bytes : List UInt8) : List Char :=
  decodeFrom 0 [] bytes

end SourceRecipe.Text
