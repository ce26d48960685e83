import LayeredCache.Codec

/-!
# Texts are read from their bytes as they were

A character is written as one to four bytes, by the size of its number. The leading byte tells how
many bytes follow and what the second one may be; a character that is written never leaves that
range, because its number is no surrogate and would not fit into fewer bytes. A length is written as
one byte, or as a marker byte and two, four or eight bytes, and each of the four forms is read back.

## Main results

* `Text.Utf8.decode_encode` — UTF-8 loses nothing.
* `TextFormat.decode_encode` — neither does the format of texts, up to the greatest length that
  eight bytes hold.
-/

namespace LayeredCache

namespace Text.Utf8

/-! ## Single characters -/

theorem toNat_ofNat {n : Nat} (h : n < 256) : (UInt8.ofNat n).toNat = n := by
  rw [UInt8.toNat_ofNat', Nat.mod_eq_of_lt h]

theorem shape?_two : ∀ n < 32, 2 ≤ n → shape? (UInt8.ofNat (n + 192)) = some { more := 0 } := by
  decide

theorem shape?_three : ∀ n < 16, shape? (UInt8.ofNat (n + 224)) =
    some ⟨if n = 0 then 0xA0 else 0x80, if n = 13 then 0x9F else 0xBF, 1⟩ := by
  decide

theorem shape?_four : ∀ n < 5, shape? (UInt8.ofNat (n + 240)) =
    some ⟨if n = 0 then 0x90 else 0x80, if n = 4 then 0x8F else 0xBF, 2⟩ := by
  decide

/-- A byte that goes on with a character carries six bits. -/
theorem tails_succ (taken acc more n : Nat) (rest : List UInt8) :
    tails taken acc (more + 1) (UInt8.ofNat (n % 64 + 128) :: rest) =
      tails (taken + 1) (64 * acc + n % 64) more rest := by
  have hbyte : (UInt8.ofNat (n % 64 + 128)).toNat = n % 64 + 128 := toNat_ofNat (by omega)
  have hrange : 0x80 ≤ UInt8.ofNat (n % 64 + 128) ∧ UInt8.ofNat (n % 64 + 128) ≤ 0xBF := by
    rw [UInt8.le_iff_toNat_le, UInt8.le_iff_toNat_le, hbyte]
    exact ⟨Nat.le_add_left .., by simp; omega⟩
  rw [tails, if_pos hrange, hbyte]
  congr 2
  omega

/-- A leading byte and a second byte in its range carry their bits, and the others follow. -/
theorem character_of_shape {lead n : Nat} {s : Shape} (hlead : 128 ≤ lead) (hlead' : lead < 256)
    (hs : shape? (UInt8.ofNat lead) = some s) (hlow : s.low.toNat ≤ n % 64 + 128)
    (hhigh : n % 64 + 128 ≤ s.high.toNat) (rest : List UInt8) :
    character (UInt8.ofNat lead) (UInt8.ofNat (n % 64 + 128) :: rest) =
      (tails 2 (64 * leadingBits (UInt8.ofNat lead) s.more + n % 64) s.more rest).map fun r =>
        (Char.ofNat r.1, r.2) := by
  have hbyte : (UInt8.ofNat (n % 64 + 128)).toNat = n % 64 + 128 := toNat_ofNat (by omega)
  have hmany : ¬ UInt8.ofNat lead < 0x80 := by
    rw [UInt8.lt_iff_toNat_lt, toNat_ofNat hlead']
    exact Nat.not_lt.mpr hlead
  have hrange : s.low ≤ UInt8.ofNat (n % 64 + 128) ∧ UInt8.ofNat (n % 64 + 128) ≤ s.high := by
    rw [UInt8.le_iff_toNat_le, UInt8.le_iff_toNat_le, hbyte]
    exact ⟨hlow, hhigh⟩
  have hbits : (n % 64 + 128) % 64 = n % 64 := by omega
  rw [character, if_neg hmany, hs]
  simp only [if_pos hrange, hbyte, hbits]

theorem character_one {n : Nat} (h : n ≤ 127) (rest : List UInt8) :
    character (UInt8.ofNat n) rest = .ok (Char.ofNat n, rest) := by
  have hbyte : (UInt8.ofNat n).toNat = n := toNat_ofNat (by omega)
  have hone : UInt8.ofNat n < 0x80 := by
    rw [UInt8.lt_iff_toNat_lt, hbyte]
    exact Nat.lt_succ_of_le h
  rw [character, if_pos hone, hbyte]

theorem character_two {n : Nat} (h : 127 < n) (h' : n ≤ 2047) (rest : List UInt8) :
    character (UInt8.ofNat (n / 64 % 32 + 192)) (UInt8.ofNat (n % 64 + 128) :: rest) =
      .ok (Char.ofNat n, rest) := by
  have hlead : leadingBits (UInt8.ofNat (n / 64 % 32 + 192)) 0 = n / 64 := by
    rw [leadingBits, toNat_ofNat (by omega)]
    omega
  have hlow : (0x80 : UInt8).toNat ≤ n % 64 + 128 := Nat.le_add_left ..
  have hhigh : n % 64 + 128 ≤ (0xBF : UInt8).toNat := by simp; omega
  have htotal : 64 * (n / 64) + n % 64 = n := by omega
  rw [character_of_shape (by omega) (by omega) (shape?_two _ (by omega) (by omega)) hlow hhigh,
    hlead, tails, htotal]
  rfl

theorem character_three {n : Nat} (h : 2047 < n) (h' : n ≤ 65535) (hn : n < 0xD800 ∨ 0xDFFF < n)
    (rest : List UInt8) :
    character (UInt8.ofNat (n / 4096 % 16 + 224))
        (UInt8.ofNat (n / 64 % 64 + 128) :: UInt8.ofNat (n % 64 + 128) :: rest) =
      .ok (Char.ofNat n, rest) := by
  have hlead : leadingBits (UInt8.ofNat (n / 4096 % 16 + 224)) 1 = n / 4096 := by
    rw [leadingBits, toNat_ofNat (by omega)]
    omega
  have hlow : (if n / 4096 % 16 = 0 then 0xA0 else 0x80 : UInt8).toNat ≤ n / 64 % 64 + 128 := by
    split
    · next hfirst =>
      change 0xA0 ≤ _
      omega
    · next hlater => exact Nat.le_add_left _ _
  have hhigh : n / 64 % 64 + 128 ≤ (if n / 4096 % 16 = 13 then 0x9F else 0xBF : UInt8).toNat := by
    split
    · next hsurrogate =>
      change _ ≤ 0x9F
      omega
    · next hother =>
      change _ ≤ 0xBF
      omega
  have htotal : 64 * (64 * (n / 4096) + n / 64 % 64) + n % 64 = n := by omega
  rw [character_of_shape (by omega) (by omega) (shape?_three _ (by omega)) hlow hhigh, hlead,
    tails_succ, tails, htotal]
  rfl

theorem character_four {n : Nat} (h : 65535 < n) (h' : n < 0x110000) (rest : List UInt8) :
    character (UInt8.ofNat (n / 262144 % 8 + 240)) (UInt8.ofNat (n / 4096 % 64 + 128) ::
        UInt8.ofNat (n / 64 % 64 + 128) :: UInt8.ofNat (n % 64 + 128) :: rest) =
      .ok (Char.ofNat n, rest) := by
  have hlead : leadingBits (UInt8.ofNat (n / 262144 % 8 + 240)) 2 = n / 262144 := by
    change (UInt8.ofNat (n / 262144 % 8 + 240)).toNat % 8 = n / 262144
    rw [toNat_ofNat (by omega)]
    omega
  have hlow : (if n / 262144 % 8 = 0 then 0x90 else 0x80 : UInt8).toNat ≤
      n / 4096 % 64 + 128 := by
    split
    · next hfirst =>
      change 0x90 ≤ _
      omega
    · next hlater => exact Nat.le_add_left _ _
  have hhigh : n / 4096 % 64 + 128 ≤
      (if n / 262144 % 8 = 4 then 0x8F else 0xBF : UInt8).toNat := by
    split
    · next hlast =>
      change _ ≤ 0x8F
      omega
    · next hother =>
      change _ ≤ 0xBF
      omega
  have htotal : 64 * (64 * (64 * (n / 262144) + n / 4096 % 64) + n / 64 % 64) + n % 64 = n := by
    omega
  rw [character_of_shape (by omega) (by omega) (shape?_four _ (by omega)) hlow hhigh, hlead,
    tails_succ, tails_succ, tails, htotal]
  rfl

/-- A character that was written is read, whatever follows it. -/
theorem character_utf8EncodeChar (c : Char) (rest : List UInt8) :
    ∃ b tail, String.utf8EncodeChar c = b :: tail ∧ character b (tail ++ rest) = .ok (c, rest) := by
  have hvalid : c.toNat < 0xD800 ∨ 0xDFFF < c.toNat ∧ c.toNat < 0x110000 := c.valid
  have hc : Char.ofNat c.toNat = c := Char.ofNat_toNat c
  have hencode := String.utf8EncodeChar.eq_1 c
  generalize hv : c.toNat = v at hvalid hc
  rw [show c.val.toNat = v from hv] at hencode
  by_cases h₁ : v ≤ 127
  · exact ⟨_, _, hencode.trans (if_pos h₁), hc ▸ character_one h₁ rest⟩
  by_cases h₂ : v ≤ 2047
  · exact ⟨_, _, hencode.trans ((if_neg h₁).trans (if_pos h₂)),
      hc ▸ character_two (Nat.lt_of_not_le h₁) h₂ rest⟩
  by_cases h₃ : v ≤ 65535
  · exact ⟨_, _, hencode.trans ((if_neg h₁).trans ((if_neg h₂).trans (if_pos h₃))),
      hc ▸ character_three (Nat.lt_of_not_le h₂) h₃ (hvalid.imp id And.left) rest⟩
  · exact ⟨_, _, hencode.trans ((if_neg h₁).trans ((if_neg h₂).trans (if_neg h₃))),
      hc ▸ character_four (Nat.lt_of_not_le h₃) (by omega) rest⟩

/-! ## Texts -/

theorem decodeFrom_flatMap (total : Nat) (chars read : List Char) (fuel : Nat)
    (h : (chars.flatMap String.utf8EncodeChar).length ≤ fuel) :
    decodeFrom total read fuel (chars.flatMap String.utf8EncodeChar) =
      .ok (String.ofList (read.reverse ++ chars)) := by
  induction chars generalizing read fuel with
  | nil =>
    rw [List.append_nil]
    cases fuel <;> rfl
  | cons c chars ih =>
    obtain ⟨b, tail, hb, hread⟩ :=
      character_utf8EncodeChar c (chars.flatMap String.utf8EncodeChar)
    rw [List.flatMap_cons, hb, List.cons_append, List.length_cons, List.length_append] at h
    obtain ⟨fuel, rfl⟩ : ∃ fuel', fuel = fuel' + 1 := ⟨fuel - 1, by omega⟩
    rw [List.flatMap_cons, hb, List.cons_append, decodeFrom]
    simp only [hread]
    rw [ih (c :: read) fuel (by omega), List.reverse_cons, List.append_assoc]
    rfl

/-- The bytes of a text are read as the text. -/
theorem decode_encode (s : String) : decode (encode s) = .ok s := by
  rw [decode, encode, decodeFrom_flatMap _ _ _ _ (Nat.le_refl _)]
  exact congrArg Except.ok (String.ofList_toList ..)

end Text.Utf8

namespace TextFormat

/-- A length of at most eight bytes is read, whatever follows it. -/
theorem decodeLength_encodeLength {n : Nat} (h : n < Nat.pow 2 64) (rest : List UInt8) :
    decodeLength (encodeLength n ++ rest) = .ok (n, rest) := by
  have hwide : ∀ width, n < Nat.pow 256 width →
      (take width (fixedWidth width n ++ rest)).map (fun r => (number r.1, r.2)) =
        .ok (n, rest) := by
    intro width hn
    have htake := take_append (fixedWidth width n) rest
    rw [length_fixedWidth] at htake
    rw [htake, Except.map, number_fixedWidth, Nat.mod_eq_of_lt hn]
  unfold encodeLength
  split
  · next hn =>
    have hbyte : (UInt8.ofNat n).toNat = n := Text.Utf8.toNat_ofNat (by omega)
    have hle : UInt8.ofNat n ≤ 250 := by
      rw [UInt8.le_iff_toNat_le, hbyte]
      exact hn
    rw [List.singleton_append, decodeLength, if_pos hle, hbyte]
  · split
    · next hn => exact hwide 2 hn
    · split
      · next hn => exact hwide 4 hn
      · exact hwide 8 h

/-- The bytes of a text are read as the text, if eight bytes hold their number. -/
theorem decode_encode {s : String} (h : (Text.Utf8.encode s).length < Nat.pow 2 64) :
    decode (encode s) = .ok s := by
  have htake := take_append (Text.Utf8.encode s) []
  rw [List.append_nil] at htake
  simp only [decode, encode, decodeLength_encodeLength h, htake, Text.Utf8.decode_encode]

end TextFormat

end LayeredCache
