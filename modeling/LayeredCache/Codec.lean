import LayeredCache.Text.Quoted
import LayeredCache.Text.Utf8

/-!
# Values as bytes

A codec turns values into bytes and back; both directions may fail, and a failure is a cause. The
format of texts is the number of their UTF-8 bytes followed by these bytes. A number up to 250 is
one byte; a greater one is a marker byte and the number in two, four or eight bytes, the lowest
first. Bytes after the text are ignored.
-/

namespace LayeredCache

/-- Why a value has no bytes or bytes have no value. -/
inductive CodecError where
  /-- The value refuses, with a text of its own. -/
  | refused (reason : String)
  /-- The bytes end; so many more were asked for. -/
  | unexpectedEnd (missing : Nat)
  /-- The marker of a number of sixteen bytes stands where a length is read. -/
  | lengthTooWide
  /-- The marker without a meaning stands where a length is read. -/
  | lengthReserved
  /-- The bytes of the text are not UTF-8. -/
  | notUtf8 (fault : Text.Utf8.Fault)
  /-- Any other failure, by its text. -/
  | other (text : String)
  deriving DecidableEq

/-- The text of a failure. -/
def CodecError.text : CodecError → String
  | refused reason => "OtherString(" ++ Text.Quoted.encode reason ++ ")"
  | unexpectedEnd missing => "UnexpectedEnd \x7b additional: " ++ toString missing ++ " \x7d"
  | lengthTooWide => "InvalidIntegerType \x7b expected: U64, found: U128 \x7d"
  | lengthReserved => "InvalidIntegerType \x7b expected: U64, found: Reserved \x7d"
  | notUtf8 fault =>
    let length := match fault.length with
      | some n => "Some(" ++ toString n ++ ")"
      | none => "None"
    "Utf8 \x7b inner: Utf8Error \x7b valid_up_to: " ++ toString fault.validUpTo ++
      ", error_len: " ++ length ++ " \x7d \x7d"
  | other text => text

/-- Values that can be kept as bytes. -/
class Codec (α : Type) where
  /-- The bytes of a value. -/
  encode : α → Except CodecError (List UInt8)
  /-- The value of bytes. -/
  decode : List UInt8 → Except CodecError α

namespace TextFormat

/-- A number in `width` bytes, the lowest first. -/
def fixedWidth : (width n : Nat) → List UInt8
  | 0, _ => []
  | width + 1, n => UInt8.ofNat n :: fixedWidth width (n / 256)

/-- The number of bytes, the lowest first. -/
def number (bytes : List UInt8) : Nat := bytes.foldr (fun b acc => b.toNat + 256 * acc) 0

/-- The bytes of a length. -/
def encodeLength (n : Nat) : List UInt8 :=
  if n ≤ 250 then [UInt8.ofNat n]
  else if n < 65536 then 0xFB :: fixedWidth 2 n
  else if n < 4294967296 then 0xFC :: fixedWidth 4 n
  else 0xFD :: fixedWidth 8 n

/-- Takes `n` bytes. -/
def take (n : Nat) (bytes : List UInt8) : Except CodecError (List UInt8 × List UInt8) :=
  if bytes.length < n then .error (.unexpectedEnd (n - bytes.length))
  else .ok (bytes.take n, bytes.drop n)

/-- Reads a length. -/
def decodeLength : List UInt8 → Except CodecError (Nat × List UInt8)
  | [] => .error (.unexpectedEnd 1)
  | b :: rest =>
    if b ≤ 250 then .ok (b.toNat, rest)
    else if b = 0xFB then (take 2 rest).map fun r => (number r.1, r.2)
    else if b = 0xFC then (take 4 rest).map fun r => (number r.1, r.2)
    else if b = 0xFD then (take 8 rest).map fun r => (number r.1, r.2)
    else if b = 0xFE then .error .lengthTooWide
    else .error .lengthReserved

/-- The bytes of a text. -/
def encode (s : String) : List UInt8 :=
  let bytes := Text.Utf8.encode s
  encodeLength bytes.length ++ bytes

/-- The text of bytes. -/
def decode (bytes : List UInt8) : Except CodecError String :=
  match decodeLength bytes with
  | .error e => .error e
  | .ok (n, rest) =>
    match take n rest with
    | .error e => .error e
    | .ok (content, _) =>
      match Text.Utf8.decode content with
      | .error fault => .error (.notUtf8 fault)
      | .ok s => .ok s

theorem length_fixedWidth (width n : Nat) : (fixedWidth width n).length = width := by
  induction width generalizing n with
  | zero => rfl
  | succ width ih => simp [fixedWidth, ih]

/-- A number of so many bytes is read back, and a greater one modulo what the bytes can hold. -/
theorem number_fixedWidth (width n : Nat) :
    number (fixedWidth width n) = n % Nat.pow 256 width := by
  induction width generalizing n with
  | zero => exact (Nat.mod_one n).symm
  | succ width ih =>
    have low : (UInt8.ofNat n).toNat = n % 256 := UInt8.toNat_ofNat'
    have rest : number (fixedWidth (width + 1) n) =
        (UInt8.ofNat n).toNat + 256 * number (fixedWidth width (n / 256)) := rfl
    have total : Nat.pow 256 (width + 1) = 256 * Nat.pow 256 width := Nat.mul_comm ..
    rw [rest, ih, low, total, Nat.mod_mul]

/-- Bytes that are there are taken, and what follows them is left. -/
theorem take_append (front rest : List UInt8) :
    take front.length (front ++ rest) = .ok (front, rest) := by
  simp [take]

end TextFormat

instance : Codec String where
  encode s := .ok (TextFormat.encode s)
  decode := TextFormat.decode

end LayeredCache
