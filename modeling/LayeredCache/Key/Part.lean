import LayeredCache.Decimal.Shortest
import LayeredCache.Text.Hex

/-!
# Contributions to a key

A key is built from a sequence of contributions: scalars of several kinds, texts, byte strings and
lists of contributions. Contributions of different kinds are never equal, and numbers in floating
point are equal when their bit patterns are, so equality is decided by recursion and is what the
constructors say.
-/

namespace LayeredCache

/-- One contribution to a key. A floating-point number is its bit pattern. -/
inductive KeyPart where
  | null
  | bool (b : Bool)
  | int (i : Int64)
  | uint (u : UInt64)
  | float (bits : UInt64)
  | str (s : String)
  | bytes (b : List UInt8)
  | list (items : List KeyPart)
  deriving Inhabited

namespace KeyPart

mutual

/-- Whether two contributions are equal: they are of one kind and have the same content, numbers in
floating point the same bit pattern, and lists the same contributions in order. -/
def same : KeyPart → KeyPart → Bool
  | null, null => true
  | bool a, bool b => a == b
  | int a, int b => a == b
  | uint a, uint b => a == b
  | float a, float b => a == b
  | str a, str b => a == b
  | bytes a, bytes b => a == b
  | list as, list bs => sameAll as bs
  | _, _ => false

/-- Whether two lists of contributions are of one length and equal place by place. -/
def sameAll : List KeyPart → List KeyPart → Bool
  | [], [] => true
  | a :: as, b :: bs => same a b && sameAll as bs
  | _, _ => false

end

mutual

theorem same_iff_eq : (p q : KeyPart) → (same p q = true ↔ p = q)
  | list as, q => by cases q <;> simp [same, sameAll_iff_eq as]
  | null, q | bool _, q | int _, q | uint _, q | float _, q | str _, q | bytes _, q => by
    cases q <;> simp [same]

theorem sameAll_iff_eq : (ps qs : List KeyPart) → (sameAll ps qs = true ↔ ps = qs)
  | [], qs => by cases qs <;> simp [sameAll]
  | p :: ps, [] => by simp [sameAll]
  | p :: ps, q :: qs => by simp [sameAll, same_iff_eq p q, sameAll_iff_eq ps qs]

end

instance : DecidableEq KeyPart := fun p q => decidable_of_decidable_of_iff (same_iff_eq p q)

/-- Whether a contribution is the null. -/
def isNull : KeyPart → Bool
  | null => true
  | _ => false

/-- The contribution of a single-precision number, given by its bit pattern. -/
def ofSingle (bits : UInt32) : KeyPart := float (Decimal.Binary64.widen bits)

mutual

/-- Writes the text of a contribution behind a text. A text stands for itself, without quotes. -/
def textAfter (written : String) : KeyPart → String
  | null => written ++ "null"
  | bool b => written ++ if b then "true" else "false"
  | int i => written ++ toString i.toInt
  | uint u => written ++ toString u.toNat
  | float bits => written ++ Decimal.floatText bits
  | str s => written ++ s
  | bytes b => written ++ "0x" ++ Text.Hex.encode b
  | list items => textsAfter (written ++ "[") items ++ "]"

/-- Writes the texts of contributions behind a text, with a comma and a blank between two of
them. -/
def textsAfter (written : String) : List KeyPart → String
  | [] => written
  | [p] => textAfter written p
  | p :: q :: rest => textsAfter (textAfter written p ++ ", ") (q :: rest)

end

/-- The text of a contribution. -/
def text (p : KeyPart) : String := p.textAfter ""

mutual

theorem textAfter_append (w v : String) : (p : KeyPart) →
    p.textAfter (w ++ v) = w ++ p.textAfter v
  | list items => by
    simp [textAfter, String.append_assoc, textsAfter_append w (v ++ "[") items]
  | null | bool _ | int _ | uint _ | float _ | str _ | bytes _ => by
    simp [textAfter, String.append_assoc]

theorem textsAfter_append (w v : String) : (ps : List KeyPart) →
    textsAfter (w ++ v) ps = w ++ textsAfter v ps
  | [] => rfl
  | [p] => textAfter_append w v p
  | p :: q :: rest => by
    simp only [textsAfter, textAfter_append w v p, String.append_assoc]
    exact textsAfter_append w _ (q :: rest)

end

/-- Writing a contribution behind a text changes nothing in front. -/
theorem textAfter_eq (w : String) (p : KeyPart) : p.textAfter w = w ++ p.text := by
  simpa [text] using textAfter_append w "" p

end KeyPart

end LayeredCache
