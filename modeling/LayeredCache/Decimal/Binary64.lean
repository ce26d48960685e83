/-!
# Double-precision numbers as integers times powers of two

A 64-bit pattern is a sign, an eleven-bit exponent and a 52-bit fraction. Reading it gives either a
special value or an exact number `± m * 2 ^ q`, on which all printing works in exact arithmetic.
-/

namespace LayeredCache.Decimal

/-- What a 64-bit pattern stands for. -/
inductive Binary64 where
  /-- No number. -/
  | nan
  /-- An infinity. -/
  | infinite (negative : Bool)
  /-- The number `± m * 2 ^ q`. `narrow` says that the next smaller double is only half as far away
  as the next larger one. -/
  | finite (negative : Bool) (m : Nat) (q : Int) (narrow : Bool)
  deriving DecidableEq, Repr

namespace Binary64

/-- The number of a bit pattern. -/
def ofBits (bits : UInt64) : Binary64 :=
  let n := bits.toNat
  let negative := decide (Nat.pow 2 63 ≤ n)
  let exponent : Nat := n / Nat.pow 2 52 % Nat.pow 2 11
  let fraction := n % Nat.pow 2 52
  if exponent = 2047 then
    if fraction = 0 then infinite negative else nan
  else if exponent = 0 then finite negative fraction (-1074) false
  else finite negative (Nat.pow 2 52 + fraction) ((exponent : Int) - 1075)
    (decide (fraction = 0) && decide (1 < exponent))

/-- The fraction of a positive number: numerator and denominator of `m * 2 ^ q`. -/
def ratio (m : Nat) (q : Int) : Nat × Nat := (m * Nat.pow 2 q.toNat, Nat.pow 2 (-q).toNat)

/-- The double-precision pattern of the number that a single-precision pattern stands for. Every
single-precision number is exact in double precision; a NaN keeps its sign and payload and becomes
quiet. -/
def widen (bits : UInt32) : UInt64 :=
  let n := bits.toNat
  let sign := n / Nat.pow 2 31 * Nat.pow 2 63
  let exponent := n / Nat.pow 2 23 % Nat.pow 2 8
  let fraction := n % Nat.pow 2 23
  if exponent = 255 then
    let quiet :=
      if fraction = 0 ∨ Nat.pow 2 22 ≤ fraction then fraction else fraction + Nat.pow 2 22
    UInt64.ofNat (sign + 2047 * Nat.pow 2 52 + quiet * Nat.pow 2 29)
  else if exponent = 0 then
    if fraction = 0 then UInt64.ofNat sign
    else
      let top := fraction.log2
      UInt64.ofNat (sign + (top + 874) * Nat.pow 2 52
        + (fraction - Nat.pow 2 top) * Nat.pow 2 (52 - top))
  else UInt64.ofNat (sign + (exponent + 896) * Nat.pow 2 52 + fraction * Nat.pow 2 29)

@[simp] theorem ofBits_zero : ofBits 0 = finite false 0 (-1074) false := by decide +kernel

end Binary64

end LayeredCache.Decimal
