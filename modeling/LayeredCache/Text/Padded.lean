/-!
# Texts in a field

A field has a width in characters, a character that fills it, and a place for the text. It may also
limit how many characters of the text are shown.
-/

namespace LayeredCache.Text

/-- Where a text stands in its field. -/
inductive Placement where
  | left
  | right
  /-- In the middle; an odd blank goes to the right. -/
  | center
  deriving DecidableEq, Repr

/-- A field for a text. -/
structure Field where
  width : Nat := 0
  placement : Placement := .left
  fill : Char := ' '
  /-- The greatest number of characters of the text that are shown. -/
  limit : Option Nat := none
  deriving DecidableEq, Repr

namespace Field

/-- The characters of a text in a field. -/
def fitList (f : Field) (text : List Char) : List Char :=
  let shown := match f.limit with
    | none => text
    | some n => text.take n
  let missing := f.width - shown.length
  let before := match f.placement with
    | .left => 0
    | .right => missing
    | .center => missing / 2
  List.replicate before f.fill ++ shown ++ List.replicate (missing - before) f.fill

/-- A text in a field. -/
def fit (f : Field) (text : String) : String := String.ofList (f.fitList text.toList)

end Field

end LayeredCache.Text
