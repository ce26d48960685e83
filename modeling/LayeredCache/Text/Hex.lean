/-!
# Hexadecimal text

Bytes are written as two lower-case digits each. Reading accepts both cases and refuses an odd
number of digits. Main statement: reading what was written gives the bytes back.
-/

namespace LayeredCache.Text.Hex

/-- The digit of a number below sixteen. -/
def digit (n : Nat) : Char :=
  if n < 10 then Char.ofNat (48 + n) else Char.ofNat (87 + n)

/-- The number of a digit. -/
def value? (c : Char) : Option Nat :=
  if '0' ≤ c ∧ c ≤ '9' then some (c.toNat - 48)
  else if 'a' ≤ c ∧ c ≤ 'f' then some (c.toNat - 87)
  else if 'A' ≤ c ∧ c ≤ 'F' then some (c.toNat - 55)
  else none

/-- The two digits of a byte. -/
def byte (b : UInt8) : List Char := [digit (b.toNat / 16), digit (b.toNat % 16)]

/-- The digits of bytes. -/
def encode (bytes : List UInt8) : String := String.ofList (bytes.flatMap byte)

/-- The bytes of digits. -/
def decodeChars : List Char → Option (List UInt8)
  | [] => some []
  | [_] => none
  | a :: b :: rest =>
    match value? a, value? b, decodeChars rest with
    | some x, some y, some bytes => some (UInt8.ofNat (16 * x + y) :: bytes)
    | _, _, _ => none

/-- The bytes of a hexadecimal text. -/
def decode (s : String) : Option (List UInt8) := decodeChars s.toList

/-- The number of a text of hexadecimal digits, at least one. -/
def number? (s : String) : Option Nat :=
  if s.isEmpty then none
  else s.toList.foldl (fun acc c => acc.bind fun n => (value? c).map (16 * n + ·)) (some 0)

/-- A number as `width` digits. -/
def padded (width n : Nat) : String :=
  String.ofList ((List.range width).map fun i => digit (n / Nat.pow 16 (width - 1 - i) % 16))

theorem value?_digit : ∀ n < 16, value? (digit n) = some n := by decide

theorem decodeChars_flatMap_byte (bytes : List UInt8) :
    decodeChars (bytes.flatMap byte) = some bytes := by
  induction bytes with
  | nil => rfl
  | cons b bytes ih =>
    have hb := b.toNat_lt
    have h : UInt8.ofNat (16 * (b.toNat / 16) + b.toNat % 16) = b := by
      rw [Nat.div_add_mod]; simp
    simp [byte, decodeChars, ih, value?_digit (b.toNat / 16) (by omega),
      value?_digit (b.toNat % 16) (by omega), h]

theorem decode_encode (bytes : List UInt8) : decode (encode bytes) = some bytes := by
  simp [decode, encode, decodeChars_flatMap_byte]

end LayeredCache.Text.Hex
