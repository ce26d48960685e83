/-!
# UTF-8 with the place of a fault

A text is written as the UTF-8 bytes of its characters. Reading bytes either gives the text or says
where the first character that is not well formed starts and how many of its bytes could not be
continued; no number means that the bytes end inside a character.
-/

namespace LayeredCache.Text.Utf8

/-- The first fault in a sequence of bytes. -/
structure Fault where
  /-- The number of bytes in front of the fault; they are well formed. -/
  validUpTo : Nat
  /-- The number of bytes to skip, or nothing where more bytes could complete the character. -/
  length : Option Nat
  deriving DecidableEq, Repr

/-- The bytes of a text. -/
def encode (s : String) : List UInt8 := s.toList.flatMap String.utf8EncodeChar

/-- What may follow a leading byte: the range of the second byte and the number of bytes that follow
it. -/
structure Shape where
  low : UInt8 := 0x80
  high : UInt8 := 0xBF
  more : Nat
  deriving DecidableEq, Repr

/-- The shape of a character of several bytes by its leading byte. -/
def shape? (b : UInt8) : Option Shape :=
  if 0xC2 ≤ b ∧ b ≤ 0xDF then some { more := 0 }
  else if b = 0xE0 then some { low := 0xA0, more := 1 }
  else if 0xE1 ≤ b ∧ b ≤ 0xEC then some { more := 1 }
  else if b = 0xED then some { high := 0x9F, more := 1 }
  else if 0xEE ≤ b ∧ b ≤ 0xEF then some { more := 1 }
  else if b = 0xF0 then some { low := 0x90, more := 2 }
  else if 0xF1 ≤ b ∧ b ≤ 0xF3 then some { more := 2 }
  else if b = 0xF4 then some { high := 0x8F, more := 2 }
  else none

/-- The bits of a leading byte that belong to the character. -/
def leadingBits (b : UInt8) (more : Nat) : Nat :=
  match more with
  | 0 => b.toNat % 32
  | 1 => b.toNat % 16
  | _ => b.toNat % 8

/-- Reads `more` bytes of the range `0x80` to `0xBF`, of which `taken` bytes of the character were
read before. -/
def tails (taken acc : Nat) : (more : Nat) → List UInt8 → Except (Option Nat) (Nat × List UInt8)
  | 0, rest => .ok (acc, rest)
  | _ + 1, [] => .error none
  | more + 1, b :: rest =>
    if 0x80 ≤ b ∧ b ≤ 0xBF then tails (taken + 1) (64 * acc + b.toNat % 64) more rest
    else .error (some taken)

/-- Reads one character; a fault is the number of bytes to skip. -/
def character (b : UInt8) (rest : List UInt8) : Except (Option Nat) (Char × List UInt8) :=
  if b < 0x80 then .ok (Char.ofNat b.toNat, rest)
  else
    match shape? b with
    | none => .error (some 1)
    | some s =>
      match rest with
      | [] => .error none
      | c :: rest =>
        if s.low ≤ c ∧ c ≤ s.high then
          (tails 2 (64 * leadingBits b s.more + c.toNat % 64) s.more rest).map fun r =>
            (Char.ofNat r.1, r.2)
        else .error (some 1)

/-- Reads the characters of the bytes that are left of `total` bytes. The number of bytes bounds the
number of characters. -/
def decodeFrom (total : Nat) (read : List Char) : (fuel : Nat) → List UInt8 → Except Fault String
  | _, [] => .ok (String.ofList read.reverse)
  | 0, bytes => .error ⟨total - bytes.length, none⟩
  | fuel + 1, b :: rest =>
    match character b rest with
    | .error length => .error ⟨total - (rest.length + 1), length⟩
    | .ok (c, left) => decodeFrom total (c :: read) fuel left

/-- The text of bytes, or the first fault. -/
def decode (bytes : List UInt8) : Except Fault String := decodeFrom bytes.length [] bytes.length bytes

end LayeredCache.Text.Utf8
