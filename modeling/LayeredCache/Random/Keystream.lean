/-!
# The ChaCha keystream with twelve rounds

A block is sixteen words of 32 bits: four constants, a key of eight words, and a counter of 64 bits
followed by two zero words. Six double rounds, each over the columns and then over the diagonals,
mix the words, and the words before mixing are added again. The keystream is the blocks of the
counters 0, 1, 2, … one after the other.
-/

namespace LayeredCache.Keystream

/-- The words of a block. -/
abbrev Block := Vector UInt32 16

/-- Rotation to the left. -/
def rotate (x n : UInt32) : UInt32 := (x <<< n) ||| (x >>> (32 - n))

/-- Mixes four words of a block. -/
def quarterRound (b : Block) (i j k l : Fin 16) : Block :=
  let w := b[i] + b[j]
  let z := rotate (b[l] ^^^ w) 16
  let y := b[k] + z
  let x := rotate (b[j] ^^^ y) 12
  let w := w + x
  let z := rotate (z ^^^ w) 8
  let y := y + z
  let x := rotate (x ^^^ y) 7
  (((b.set i w).set j x).set k y).set l z

/-- Mixes the columns and then the diagonals. -/
def doubleRound (b : Block) : Block :=
  let b := quarterRound b 0 4 8 12
  let b := quarterRound b 1 5 9 13
  let b := quarterRound b 2 6 10 14
  let b := quarterRound b 3 7 11 15
  let b := quarterRound b 0 5 10 15
  let b := quarterRound b 1 6 11 12
  let b := quarterRound b 2 7 8 13
  quarterRound b 3 4 9 14

/-- The block before mixing. -/
def start (key : Vector UInt32 8) (counter : UInt64) : Block :=
  #v[0x61707865, 0x3320646e, 0x79622d32, 0x6b206574,
    key[0], key[1], key[2], key[3], key[4], key[5], key[6], key[7],
    counter.toUInt32, (counter >>> 32).toUInt32, 0, 0]

/-- The block of a counter. -/
def block (key : Vector UInt32 8) (counter : UInt64) : Block :=
  let b := start key counter
  let mixed := doubleRound (doubleRound (doubleRound (doubleRound (doubleRound (doubleRound b)))))
  Vector.zipWith (· + ·) b mixed

end LayeredCache.Keystream
