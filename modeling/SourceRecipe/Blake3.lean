import SourceRecipe.Text.Digits
import SourceRecipe.Number.Powers

/-!
# BLAKE3

The hash function BLAKE3 with its usual length of 32 bytes.  A message is cut into chunks of
1024 bytes, each chunk into blocks of 64 bytes; the values of chunks are combined in a binary
tree in which the left side of a node is as large as a power of two of chunks can be.
-/

namespace SourceRecipe.Blake3

open SourceRecipe.Text

abbrev Chain := Vector UInt32 8

abbrev Words := Vector UInt32 16

/-- The value that chunks begin with. -/
def start : Chain :=
  #v[0x6A09E667, 0xBB67AE85, 0x3C6EF372, 0xA54FF53A, 0x510E527F, 0x9B05688C, 0x1F83D9AB,
    0x5BE0CD19]

def blockSize : Nat := 64

def chunkSize : Nat := 1024

def chunkStart : UInt32 := 1

def chunkEnd : UInt32 := 2

/-- The mark of a node above chunks. -/
def parent : UInt32 := 4

/-- The mark of what the hash is taken from. -/
def root : UInt32 := 8

def rotate (word : UInt32) (places : UInt32) : UInt32 :=
  (word >>> places) ||| (word <<< (32 - places))

def mix (state : Words) (a b c d : Fin 16) (x y : UInt32) : Words :=
  let state := state.set a (state[a] + state[b] + x)
  let state := state.set d (rotate (state[d] ^^^ state[a]) 16)
  let state := state.set c (state[c] + state[d])
  let state := state.set b (rotate (state[b] ^^^ state[c]) 12)
  let state := state.set a (state[a] + state[b] + y)
  let state := state.set d (rotate (state[d] ^^^ state[a]) 8)
  let state := state.set c (state[c] + state[d])
  state.set b (rotate (state[b] ^^^ state[c]) 7)

/-- One round: the columns of the state, then its diagonals. -/
def mixAll (state m : Words) : Words :=
  let state := mix state 0 4 8 12 m[0] m[1]
  let state := mix state 1 5 9 13 m[2] m[3]
  let state := mix state 2 6 10 14 m[4] m[5]
  let state := mix state 3 7 11 15 m[6] m[7]
  let state := mix state 0 5 10 15 m[8] m[9]
  let state := mix state 1 6 11 12 m[10] m[11]
  let state := mix state 2 7 8 13 m[12] m[13]
  mix state 3 4 9 14 m[14] m[15]

/-- The order of the words of a message in the next round. -/
def permute (m : Words) : Words :=
  #v[m[2], m[6], m[3], m[10], m[7], m[0], m[4], m[13], m[1], m[11], m[12], m[5], m[9], m[14],
    m[15], m[8]]

def rounds : Nat → Words → Words → Words
  | 0, state, _ => state
  | n + 1, state, m => rounds n (mixAll state m) (permute m)

/-- The value of a block after a value, with a counter, the number of its bytes and its marks. -/
def compress (chain : Chain) (block : Words) (counter : Nat) (size marks : UInt32) : Chain :=
  let state : Words :=
    #v[chain[0], chain[1], chain[2], chain[3], chain[4], chain[5], chain[6], chain[7],
      0x6A09E667, 0xBB67AE85, 0x3C6EF372, 0xA54FF53A,
      UInt32.ofNat counter, UInt32.ofNat (counter / twoTo 32), size, marks]
  let mixed := rounds 7 state block
  Vector.ofFn fun i => mixed[i.val] ^^^ mixed[i.val + 8]

/-- The word at a place in a list of bytes, the lowest byte first; missing bytes are zero. -/
def word (bytes : List UInt8) (place : Nat) : UInt32 :=
  let byte (offset : Nat) : UInt32 := (bytes.getD (4 * place + offset) 0).toUInt32
  byte 0 ||| (byte 1 <<< 8) ||| (byte 2 <<< 16) ||| (byte 3 <<< 24)

def words (bytes : List UInt8) : Words :=
  Vector.ofFn fun i => word bytes i.val

/-- The value of the blocks of a chunk, where `marks` are those of the block in front. -/
def blocksValue (counter : Nat) (last marks : UInt32) (chain : Chain) (bytes : List UInt8) :
    Chain :=
  if bytes.length ≤ blockSize then
    compress chain (words bytes) counter (UInt32.ofNat bytes.length) (marks ||| chunkEnd ||| last)
  else
    let next := compress chain (words (bytes.take blockSize)) counter (UInt32.ofNat blockSize) marks
    blocksValue counter last 0 next (bytes.drop blockSize)
termination_by bytes.length
decreasing_by
  rename_i long
  simp only [List.length_drop, blockSize] at *
  omega

def leftSize (length : Nat) : Nat :=
  chunkSize * twoTo (Nat.log2 ((length - 1) / chunkSize))

theorem leftSize_lt {length : Nat} (long : chunkSize < length) : leftSize length < length := by
  have some : (length - 1) / chunkSize ≠ 0 := by
    have : 0 < (length - 1) / chunkSize := Nat.div_pos (by omega) (by decide)
    omega
  have bound := twoTo_log2_le some
  have whole := Nat.div_mul_le_self (length - 1) chunkSize
  have := Nat.mul_le_mul_left chunkSize bound
  rw [Nat.mul_comm chunkSize ((length - 1) / chunkSize)] at this
  unfold leftSize
  omega

theorem leftSize_pos (length : Nat) : 0 < leftSize length :=
  Nat.mul_pos (by decide) (twoTo_pos _)

/-- The value of a message that stands after `counter` chunks; `last` marks the whole message. -/
def value (counter : Nat) (last : UInt32) (bytes : List UInt8) : Chain :=
  if bytes.length ≤ chunkSize then blocksValue counter last chunkStart start bytes
  else
    let size := leftSize bytes.length
    let left := value counter 0 (bytes.take size)
    let right := value (counter + size / chunkSize) 0 (bytes.drop size)
    compress start (left ++ right) 0 (UInt32.ofNat blockSize) (parent ||| last)
termination_by bytes.length
decreasing_by
  all_goals
    rename_i long
    have upper := leftSize_lt (Nat.lt_of_not_le long)
    have lower := leftSize_pos bytes.length
    simp only [List.length_take, List.length_drop]
    omega

def wordText (word : UInt32) : List Char :=
  let n := word.toNat
  hexPadded 2 n ++ hexPadded 2 (n / twoTo 8) ++ hexPadded 2 (n / twoTo 16) ++
    hexPadded 2 (n / twoTo 24)

def hash (bytes : List UInt8) : List Char :=
  (value 0 root bytes).toList.flatMap wordText

end SourceRecipe.Blake3
