/-!
# SipHash with one and three rounds

A keyed hash of byte strings on four words of 64 bits: the message is taken in words of eight bytes,
each followed by one round; the last word holds the remaining bytes and the length modulo 256; three
rounds finish. Both key words are zero.
-/

namespace LayeredCache.SipHash

/-- The four words of the state. -/
structure State where
  v0 : UInt64
  v1 : UInt64
  v2 : UInt64
  v3 : UInt64
  deriving DecidableEq, Repr

/-- The state before the first word under the key that is zero. -/
def State.start : State :=
  ⟨0x736f6d6570736575, 0x646f72616e646f6d, 0x6c7967656e657261, 0x7465646279746573⟩

/-- Rotation to the left. -/
def rotate (x : UInt64) (n : UInt64) : UInt64 := (x <<< n) ||| (x >>> (64 - n))

/-- One round. -/
def State.round (s : State) : State :=
  let v0 := s.v0 + s.v1
  let v1 := rotate s.v1 13 ^^^ v0
  let v0 := rotate v0 32
  let v2 := s.v2 + s.v3
  let v3 := rotate s.v3 16 ^^^ v2
  let v0 := v0 + v3
  let v3 := rotate v3 21 ^^^ v0
  let v2 := v2 + v1
  let v1 := rotate v1 17 ^^^ v2
  let v2 := rotate v2 32
  ⟨v0, v1, v2, v3⟩

/-- Takes in one word. -/
def State.absorb (s : State) (m : UInt64) : State :=
  let s := ({ s with v3 := s.v3 ^^^ m } : State).round
  { s with v0 := s.v0 ^^^ m }

/-- Up to eight bytes as a number, the lowest first. -/
def littleEndian (bytes : List UInt8) : UInt64 :=
  bytes.foldr (fun b acc => (acc <<< 8) ||| b.toUInt64) 0

/-- Takes in all whole words, and then the rest together with the length. -/
def State.absorbAll (s : State) (length : Nat) : List UInt8 → State
  | a :: b :: c :: d :: e :: f :: g :: h :: rest =>
    (s.absorb (littleEndian [a, b, c, d, e, f, g, h])).absorbAll length rest
  | rest => s.absorb (littleEndian rest ||| (UInt64.ofNat length <<< 56))

/-- The hash of a message. -/
def hash (message : List UInt8) : UInt64 :=
  let s := State.start.absorbAll message.length message
  let s := ({ s with v2 := s.v2 ^^^ 0xFF } : State).round.round.round
  s.v0 ^^^ s.v1 ^^^ s.v2 ^^^ s.v3

end LayeredCache.SipHash
