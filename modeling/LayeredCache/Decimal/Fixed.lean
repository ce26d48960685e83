import LayeredCache.Decimal.Binary64

/-!
# Decimals with a fixed number of places

A fraction is rounded to the nearest multiple of the last place; a tie goes to the even neighbour.
-/

namespace LayeredCache.Decimal

/-- The integer nearest to `num / den`; a tie goes to the even one. -/
def roundDiv (num den : Nat) : Nat :=
  let below := num / den
  let rest := num % den
  if 2 * rest < den then below
  else if den < 2 * rest then below + 1
  else if below % 2 = 0 then below else below + 1

/-- Pads a text with zeros on the left. -/
def zeroPadded (width : Nat) (n : Nat) : String :=
  let text := toString n
  String.ofList (List.replicate (width - text.length) '0') ++ text

/-- The text of `num / den` with `places` digits after the point. -/
def fixedRatio (places num den : Nat) : String :=
  let scaled := roundDiv (num * Nat.pow 10 places) den
  let unit := Nat.pow 10 places
  toString (scaled / unit) ++ "." ++ zeroPadded places (scaled % unit)

/-- The text of the number of a bit pattern with `places` digits after the point. -/
def fixedText (places : Nat) (bits : UInt64) : String :=
  match Binary64.ofBits bits with
  | .nan => "NaN"
  | .infinite negative => if negative then "-inf" else "inf"
  | .finite negative m q _ =>
    let (num, den) := Binary64.ratio m q
    (if negative then "-" else "") ++ fixedRatio places num den

end LayeredCache.Decimal
