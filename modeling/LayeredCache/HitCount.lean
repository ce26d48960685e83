import LayeredCache.Decimal.Fixed

/-!
# Counting hits

The number of lookups and of those that found a value, and the ratio of the two in double precision.
-/

namespace LayeredCache

/-- Lookups, and how many of them found a value. -/
structure HitCount where
  requests : Nat := 0
  hits : Nat := 0
  deriving DecidableEq, Repr

namespace HitCount

/-- Lookups that found nothing. -/
def misses (c : HitCount) : Nat := c.requests - c.hits

/-- The part of the lookups that found a value; zero before the first lookup. Both counts are
rounded to double precision before they are divided. -/
def ratio (c : HitCount) : Float :=
  if c.requests = 0 then 0 else (UInt64.ofNat c.hits).toFloat / (UInt64.ofNat c.requests).toFloat

/-- The ratio with four places. -/
def ratioText (c : HitCount) : String := Decimal.fixedText 4 c.ratio.toBits

/-- The count after one more lookup. -/
def request (c : HitCount) : HitCount := { c with requests := c.requests + 1 }

/-- The count after a lookup has found a value. -/
def hit (c : HitCount) : HitCount := { c with hits := c.hits + 1 }

@[simp] theorem misses_zero : ({} : HitCount).misses = 0 := rfl

end HitCount

end LayeredCache
