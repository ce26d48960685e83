import LayeredCache.Key.Basic
import LayeredCache.Proofs.TextFormat
import Mathlib.Data.List.Basic

/-!
# No code of a contribution is the beginning of another one

The hash of a contribution is computed from its byte code. The code can be read from the front: the
kind comes first, and each kind says for itself where its content ends. Numbers are of a fixed
width, byte strings and lists tell their length, and the byte behind a text is one that UTF-8 never
uses. So contributions that differ have different codes, whatever follows them, and only the hash
function itself can make their hashes equal.

## Main definitions

* `KeyPart.Fits` — the lengths inside a contribution are numbers of 64 bits.
* `KeyPart.tag`, `KeyPart.content` — the two portions of a code.

## Main statements

* `KeyPart.code_append_inj` — a code followed by bytes determines the contribution and the bytes.
* `KeyPart.prefix_free` — the same of the bytes that the hash is computed from.
-/

namespace LayeredCache

namespace Text.Utf8

/-- No byte of a character has all its bits set. -/
theorem notMem_utf8EncodeChar (c : Char) : (0xFF : UInt8) ∉ String.utf8EncodeChar c := by
  have hbyte {n : Nat} (hn : n < 255) : (0xFF : UInt8) ≠ UInt8.ofNat n := by
    intro h
    have := congrArg UInt8.toNat h
    rw [toNat_ofNat (by omega)] at this
    exact absurd this (Nat.ne_of_gt hn)
  rw [String.utf8EncodeChar.eq_1 c]
  split
  · simp only [List.mem_singleton]
    exact hbyte (by omega)
  · split
    · simp only [List.mem_cons, List.not_mem_nil, or_false, not_or]
      exact ⟨hbyte (by omega), hbyte (by omega)⟩
    · split
      · simp only [List.mem_cons, List.not_mem_nil, or_false, not_or]
        exact ⟨hbyte (by omega), hbyte (by omega), hbyte (by omega)⟩
      · simp only [List.mem_cons, List.not_mem_nil, or_false, not_or]
        exact ⟨hbyte (by omega), hbyte (by omega), hbyte (by omega), hbyte (by omega)⟩

theorem notMem_encode (s : String) : (0xFF : UInt8) ∉ encode s := by
  simp only [encode, List.mem_flatMap, not_exists, not_and]
  exact fun c _ => notMem_utf8EncodeChar c

theorem encode_inj {s t : String} (h : encode s = encode t) : s = t := by
  have hread := decode_encode s
  rw [h, decode_encode] at hread
  exact (Except.ok.inj hread).symm

/-- Bytes in front of the first separator are determined, and so are those behind it. -/
theorem append_separator_inj {mark : UInt8} {s t x y : List UInt8} (hs : mark ∉ s) (ht : mark ∉ t)
    (h : s ++ mark :: x = t ++ mark :: y) : s = t ∧ x = y := by
  induction s generalizing t with
  | nil =>
    cases t with
    | nil => exact ⟨rfl, List.tail_eq_of_cons_eq h⟩
    | cons b t => exact absurd (List.head_eq_of_cons_eq h) (List.ne_of_not_mem_cons ht)
  | cons b s ih =>
    cases t with
    | nil => exact absurd (List.head_eq_of_cons_eq h).symm (List.ne_of_not_mem_cons hs)
    | cons c t =>
      obtain ⟨rfl, htail⟩ := List.cons.inj h
      obtain ⟨rfl, hrest⟩ :=
        ih (List.not_mem_of_not_mem_cons hs) (List.not_mem_of_not_mem_cons ht) htail
      exact ⟨rfl, hrest⟩

/-- A text that is followed by a byte that it does not use ends in front of that byte. -/
theorem encode_append_inj {s t : String} {x y : List UInt8}
    (h : encode s ++ 0xFF :: x = encode t ++ 0xFF :: y) : s = t ∧ x = y := by
  obtain ⟨htext, hrest⟩ := append_separator_inj (notMem_encode s) (notMem_encode t) h
  exact ⟨encode_inj htext, hrest⟩

end Text.Utf8

namespace KeyPart

/-! ## Numbers -/

theorem word_eq_fixedWidth (u : UInt64) : word u = TextFormat.fixedWidth 8 u.toNat := by
  simp only [word, TextFormat.fixedWidth, List.cons.injEq, and_true, ← UInt8.toNat_inj,
    UInt64.toNat_toUInt8, UInt64.toNat_shiftRight, UInt8.toNat_ofNat']
  refine ⟨?_, ?_, ?_, ?_, ?_, ?_, ?_, ?_⟩ <;> simp [Nat.shiftRight_eq_div_pow] <;> omega

theorem number_word (u : UInt64) : TextFormat.number (word u) = u.toNat := by
  rw [word_eq_fixedWidth, TextFormat.number_fixedWidth]
  exact Nat.mod_eq_of_lt u.toNat_lt

/-- A number of eight bytes ends after the eighth. -/
theorem word_append_inj {u v : UInt64} {x y : List UInt8} (h : word u ++ x = word v ++ y) :
    u = v ∧ x = y := by
  obtain ⟨hword, hrest⟩ := List.append_inj h (by rw [length_word, length_word])
  refine ⟨?_, hrest⟩
  rw [← UInt64.toNat_inj, ← number_word u, hword, number_word]

theorem ofNat_inj_of_lt {m n : Nat} (hm : m < UInt64.size) (hn : n < UInt64.size)
    (h : UInt64.ofNat m = UInt64.ofNat n) : m = n := by
  rw [← UInt64.toNat_ofNat_of_lt' hm, h, UInt64.toNat_ofNat_of_lt' hn]

theorem toUInt64_inj {i j : Int64} (h : i.toUInt64 = j.toUInt64) : i = j := by
  rw [← Int64.toInt64_toUInt64 i, h, Int64.toInt64_toUInt64]

/-! ## Kinds and contents -/

mutual

/-- Whether the lengths of the byte strings and the lists inside a contribution are numbers of 64
bits. -/
def Fits : KeyPart → Prop
  | bytes b => b.length < UInt64.size
  | list items => items.length < UInt64.size ∧ FitAll items
  | _ => True

/-- Whether the lengths inside contributions are numbers of 64 bits. -/
def FitAll : List KeyPart → Prop
  | [] => True
  | p :: ps => p.Fits ∧ FitAll ps

end

/-- The kind of a contribution as a number. -/
def tag : KeyPart → UInt64
  | null => 0
  | bool _ => 1
  | int _ => 2
  | uint _ => 3
  | float _ => 4
  | str _ => 5
  | bytes _ => 6
  | list _ => 7

/-- The bytes of a contribution behind its kind. -/
def content : KeyPart → List UInt8
  | null => []
  | bool b => [if b then 1 else 0]
  | int i => word i.toUInt64
  | uint u => word u
  | float bits => word bits
  | str s => Text.Utf8.encode s ++ [0xFF]
  | bytes b => word (UInt64.ofNat b.length) ++ b
  | list items => word (UInt64.ofNat items.length) ++ codes items

theorem code_eq (p : KeyPart) : p.code = word p.tag ++ p.content := by
  cases p <;> simp [code, tag, content]

/-- Codes that agree in front are of one kind, and the contents agree in front as well. -/
theorem tag_and_content_of_code {p q : KeyPart} {x y : List UInt8}
    (h : p.code ++ x = q.code ++ y) : p.tag = q.tag ∧ p.content ++ x = q.content ++ y := by
  rw [code_eq, code_eq, List.append_assoc, List.append_assoc] at h
  exact word_append_inj h

/-! ## Reading a code from the front -/

theorem bytes_append_inj {b c x y : List UInt8} (hb : b.length < UInt64.size)
    (hc : c.length < UInt64.size)
    (h : word (UInt64.ofNat b.length) ++ b ++ x = word (UInt64.ofNat c.length) ++ c ++ y) :
    b = c ∧ x = y := by
  rw [List.append_assoc, List.append_assoc] at h
  obtain ⟨hlength, h⟩ := word_append_inj h
  exact List.append_inj h (ofNat_inj_of_lt hb hc hlength)

mutual

/-- A code and the bytes behind it determine the contribution and where its code ends. -/
theorem code_append_inj : (p : KeyPart) → {q : KeyPart} → p.Fits → q.Fits → {x y : List UInt8} →
    p.code ++ x = q.code ++ y → p = q ∧ x = y
  | list ps, q, hp, hq, x, y, h => by
    obtain ⟨htag, h⟩ := tag_and_content_of_code h
    cases q with
    | list qs =>
      simp only [content, List.append_assoc] at h
      obtain ⟨hlength, h⟩ := word_append_inj h
      obtain ⟨rfl, hrest⟩ := codes_append_inj ps hp.2 hq.2 (ofNat_inj_of_lt hp.1 hq.1 hlength) h
      exact ⟨rfl, hrest⟩
    | _ => exact absurd htag (by simp [tag])
  | str s, q, _, _, x, y, h => by
    obtain ⟨htag, h⟩ := tag_and_content_of_code h
    cases q with
    | str t =>
      simp only [content, List.append_assoc, List.singleton_append] at h
      obtain ⟨rfl, hrest⟩ := Text.Utf8.encode_append_inj h
      exact ⟨rfl, hrest⟩
    | _ => exact absurd htag (by simp [tag])
  | bytes b, q, hp, hq, x, y, h => by
    obtain ⟨htag, h⟩ := tag_and_content_of_code h
    cases q with
    | bytes c =>
      obtain ⟨rfl, hrest⟩ := bytes_append_inj hp hq h
      exact ⟨rfl, hrest⟩
    | _ => exact absurd htag (by simp [tag])
  | int i, q, _, _, x, y, h => by
    obtain ⟨htag, h⟩ := tag_and_content_of_code h
    cases q with
    | int j =>
      obtain ⟨hnumber, hrest⟩ := word_append_inj h
      exact ⟨congrArg int (toUInt64_inj hnumber), hrest⟩
    | _ => exact absurd htag (by simp [tag])
  | uint u, q, _, _, x, y, h => by
    obtain ⟨htag, h⟩ := tag_and_content_of_code h
    cases q with
    | uint v =>
      obtain ⟨rfl, hrest⟩ := word_append_inj h
      exact ⟨rfl, hrest⟩
    | _ => exact absurd htag (by simp [tag])
  | float bits, q, _, _, x, y, h => by
    obtain ⟨htag, h⟩ := tag_and_content_of_code h
    cases q with
    | float bits' =>
      obtain ⟨rfl, hrest⟩ := word_append_inj h
      exact ⟨rfl, hrest⟩
    | _ => exact absurd htag (by simp [tag])
  | bool b, q, _, _, x, y, h => by
    obtain ⟨htag, h⟩ := tag_and_content_of_code h
    cases q with
    | bool c => cases b <;> cases c <;> simp_all [content]
    | _ => exact absurd htag (by simp [tag])
  | null, q, _, _, x, y, h => by
    obtain ⟨htag, h⟩ := tag_and_content_of_code h
    cases q with
    | null => exact ⟨rfl, h⟩
    | _ => exact absurd htag (by simp [tag])

/-- The codes of so many contributions and the bytes behind them determine the contributions. -/
theorem codes_append_inj : (ps : List KeyPart) → {qs : List KeyPart} → FitAll ps → FitAll qs →
    ps.length = qs.length → {x y : List UInt8} → codes ps ++ x = codes qs ++ y → ps = qs ∧ x = y
  | [], [], _, _, _, _, _, h => ⟨rfl, h⟩
  | p :: ps, q :: qs, hps, hqs, hlength, x, y, h => by
    simp only [codes, List.append_assoc] at h
    obtain ⟨rfl, htail⟩ := code_append_inj p hps.1 hqs.1 h
    obtain ⟨rfl, hrest⟩ := codes_append_inj ps hps.2 hqs.2 (Nat.succ.inj hlength) htail
    exact ⟨rfl, hrest⟩

end

/-! ## The bytes that are hashed -/

theorem codeBefore_nil (p : KeyPart) : p.codeBefore [] = p.code := by
  rw [codeBefore_eq, List.append_nil]

theorem codeBefore_append_iff {p q : KeyPart} (hp : p.Fits) (hq : q.Fits) (x y : List UInt8) :
    p.codeBefore [] ++ x = q.codeBefore [] ++ y ↔ p.same q = true ∧ x = y := by
  rw [codeBefore_nil, codeBefore_nil, same_iff_eq]
  constructor
  · exact code_append_inj p hp hq
  · rintro ⟨rfl, rfl⟩
    rfl

/-- The bytes that a contribution is hashed by are a code without prefixes: followed by any bytes,
they tell the contribution and what follows, whatever the nesting of lists, texts and byte strings.
So they are the beginning of those of an equal contribution only, and the hashes of contributions
other than the null are taken of bytes that differ if the contributions do. -/
theorem prefix_free {p q : KeyPart} (hp : p.Fits) (hq : q.Fits) (x y : List UInt8) :
    (p.codeBefore [] ++ x = q.codeBefore [] ++ y ↔ p.same q = true ∧ x = y) ∧
      (p.codeBefore [] <+: q.codeBefore [] ↔ p.same q = true) ∧
      (p.isNull = false → q.isNull = false → ∃ b c, p.scalarHash = SipHash.hash b ∧
        q.scalarHash = SipHash.hash c ∧ (b = c ↔ p.same q = true)) := by
  refine ⟨codeBefore_append_iff hp hq x y, ?_, fun hp' hq' => ?_⟩
  · constructor
    · rintro ⟨rest, hrest⟩
      rw [← List.append_nil (q.codeBefore [])] at hrest
      exact ((codeBefore_append_iff hp hq rest []).mp hrest).1
    · intro h
      obtain rfl := (same_iff_eq p q).mp h
      exact List.prefix_rfl
  · refine ⟨p.codeBefore [], q.codeBefore [], ?_, ?_, ?_⟩
    · simp [scalarHash, hp']
    · simp [scalarHash, hq']
    · have h := codeBefore_append_iff hp hq [] []
      simpa using h

namespace Nested

/-- A text, an empty list and a byte string. -/
def flat : KeyPart := .list [.str "é", .list [], .bytes [0xFF]]

/-- The same text and the byte string inside the list. -/
def deep : KeyPart := .list [.str "é", .list [.bytes [0xFF]]]

/-- A byte string inside a list is told from one behind it. -/
theorem nesting_is_told_apart :
    flat.Fits ∧ deep.Fits ∧ ¬flat.codeBefore [] <+: deep.codeBefore [] ∧
      flat.codeBefore [] ++ [0] ≠ deep.codeBefore [] ++ [0] := by
  have hflat : flat.Fits := by simp [flat, Fits, FitAll, UInt64.size]
  have hdeep : deep.Fits := by simp [deep, Fits, FitAll, UInt64.size]
  have hne : ¬flat.same deep = true := by decide
  obtain ⟨hcode, hbegins, -⟩ := prefix_free hflat hdeep [0] [0]
  exact ⟨hflat, hdeep, fun h => hne (hbegins.mp h), fun h => hne (hcode.mp h).1⟩

end Nested

end KeyPart

end LayeredCache
