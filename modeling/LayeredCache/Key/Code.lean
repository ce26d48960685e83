import LayeredCache.Key.Part
import LayeredCache.Text.Utf8

/-!
# The byte code of a contribution

The code of a contribution is what its hash is computed from: its kind as a number of eight bytes,
then its content. A text ends with a byte that UTF-8 never uses; byte strings and lists begin with
their length. No code is the beginning of another one, whatever the nesting.
-/

namespace LayeredCache

namespace KeyPart

/-- A number of 64 bits as eight bytes, the lowest first. -/
def word (u : UInt64) : List UInt8 :=
  [u.toUInt8, (u >>> 8).toUInt8, (u >>> 16).toUInt8, (u >>> 24).toUInt8, (u >>> 32).toUInt8,
   (u >>> 40).toUInt8, (u >>> 48).toUInt8, (u >>> 56).toUInt8]

mutual

/-- The byte code of a contribution. -/
def code : KeyPart → List UInt8
  | null => word 0
  | bool b => word 1 ++ [if b then 1 else 0]
  | int i => word 2 ++ word i.toUInt64
  | uint u => word 3 ++ word u
  | float bits => word 4 ++ word bits
  | str s => word 5 ++ Text.Utf8.encode s ++ [0xFF]
  | bytes b => word 6 ++ word (UInt64.ofNat b.length) ++ b
  | list items => word 7 ++ word (UInt64.ofNat items.length) ++ codes items

/-- The byte codes of contributions, one after the other. -/
def codes : List KeyPart → List UInt8
  | [] => []
  | p :: rest => code p ++ codes rest

end

mutual

/-- The byte code of a contribution with more bytes behind it, written in one pass. -/
def codeBefore (rest : List UInt8) : KeyPart → List UInt8
  | list items => word 7 ++ (word (UInt64.ofNat items.length) ++ codesBefore rest items)
  | p => p.code ++ rest

/-- The byte codes of contributions with more bytes behind them, written in one pass. -/
def codesBefore (rest : List UInt8) : List KeyPart → List UInt8
  | [] => rest
  | p :: ps => codeBefore (codesBefore rest ps) p

end

mutual

theorem codeBefore_eq (rest : List UInt8) : (p : KeyPart) → codeBefore rest p = p.code ++ rest
  | list items => by simp [codeBefore, code, codesBefore_eq rest items]
  | null | bool _ | int _ | uint _ | float _ | str _ | bytes _ => by simp [codeBefore]

theorem codesBefore_eq (rest : List UInt8) : (ps : List KeyPart) →
    codesBefore rest ps = codes ps ++ rest
  | [] => rfl
  | p :: ps => by simp [codesBefore, codes, codesBefore_eq rest ps, codeBefore_eq]

end

@[simp] theorem length_word (u : UInt64) : (word u).length = 8 := rfl

end KeyPart

end LayeredCache
