import LayeredCache.Decimal.Binary64

/-!
# The shortest decimal that reads back

A double stands for every real number nearer to it than to any other double, the ends of that range
included when its integer part is even. Its shortest decimal is the one with the fewest digits
inside the range, the nearest to the double among those, and the larger one at a tie. The search
looks at the two neighbours of the double on the grid of one digit, then of two, and so on to
seventeen digits, where one of them always lies inside.
-/

namespace LayeredCache.Decimal

/-- The number `digits * 10 ^ exponent`. -/
structure Scientific where
  digits : Nat
  exponent : Int
  deriving DecidableEq, Repr

namespace Scientific

/-- `x * 2 ^ e / 10 ^ k` as a fraction. -/
def onGrid (x : Nat) (e k : Int) : Nat × Nat :=
  (x * Nat.pow 2 e.toNat * Nat.pow 10 (-k).toNat, Nat.pow 2 (-e).toNat * Nat.pow 10 k.toNat)

/-- The power of ten of the leading digit of `m * 2 ^ q`, for a positive `m`. -/
def leadingPlace (m : Nat) (q : Int) : Int :=
  let guess := Int.fdiv (((m.log2 : Int) + q) * 30103) 100000
  let atLeast (k : Int) : Bool := let f := onGrid m q k; decide (f.2 ≤ f.1)
  if atLeast (guess + 1) then guess + 1
  else if atLeast guess then guess
  else guess - 1

/-- The decimal on the grid `10 ^ k` that reads back as `m * 2 ^ q`, if there is one. -/
def onGrid? (m : Nat) (q : Int) (narrow : Bool) (k : Int) : Option Scientific :=
  let (low, unit) := onGrid (4 * m - if narrow then 1 else 2) (q - 2) k
  let high := (onGrid (4 * m + 2) (q - 2) k).1
  let exact := (onGrid (4 * m) (q - 2) k).1
  let inside (c : Nat) : Bool :=
    if m % 2 = 0 then decide (low ≤ c * unit) && decide (c * unit ≤ high)
    else decide (low < c * unit) && decide (c * unit < high)
  let below := exact / unit
  let above := below + 1
  match inside below, inside above with
  | true, true =>
    if exact - below * unit < above * unit - exact then some ⟨below, k⟩ else some ⟨above, k⟩
  | true, false => some ⟨below, k⟩
  | false, true => some ⟨above, k⟩
  | false, false => none

/-- The first hit on the grids with `count`, `count + 1`, … digits. -/
def search (m : Nat) (q : Int) (narrow : Bool) (place : Int) : (count more : Nat) → Scientific
  | _, 0 => ⟨m * Nat.pow 2 q.toNat, 0⟩
  | count, more + 1 =>
    match onGrid? m q narrow (place + 1 - count) with
    | some d => d
    | none => search m q narrow place (count + 1) more

/-- Drops trailing zeros of the digits into the exponent. -/
def normalize (d : Scientific) : (fuel : Nat) → Scientific
  | 0 => d
  | fuel + 1 =>
    if d.digits ≠ 0 ∧ d.digits % 10 = 0 then normalize ⟨d.digits / 10, d.exponent + 1⟩ fuel else d

/-- The shortest decimal of `m * 2 ^ q`. -/
def shortest (m : Nat) (q : Int) (narrow : Bool) : Scientific :=
  if m = 0 then ⟨0, 0⟩
  else (search m q narrow (leadingPlace m q) 1 17).normalize 20

/-- The digits with a point and zeros instead of an exponent. -/
def positional (d : Scientific) : String :=
  let text := toString d.digits
  if 0 ≤ d.exponent then text ++ String.ofList (List.replicate d.exponent.toNat '0')
  else
    let places := (-d.exponent).toNat
    if places < text.length then
      let whole := text.length - places
      String.ofList (text.toList.take whole ++ '.' :: text.toList.drop whole)
    else "0." ++ String.ofList (List.replicate (places - text.length) '0') ++ text

example : shortest 1 (-1074) false = ⟨5, -324⟩ := by decide +kernel
example : shortest 5404319552844596 (-54) false = ⟨30000000000000004, -17⟩ := by decide +kernel

end Scientific

/-- The text of the number of a bit pattern: the shortest decimal that reads back, never with an
exponent and never with a point that nothing follows. -/
def floatText (bits : UInt64) : String :=
  match Binary64.ofBits bits with
  | .nan => "NaN"
  | .infinite negative => if negative then "-inf" else "inf"
  | .finite negative m q narrow =>
    (if negative then "-" else "") ++ (Scientific.shortest m q narrow).positional

end LayeredCache.Decimal
