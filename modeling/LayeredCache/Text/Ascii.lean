/-!
# Case of ASCII letters

Names are compared without regard to the case of the letters `A` to `Z`; every other character
counts as it is.
-/

namespace LayeredCache.Text

/-- The text with the letters `A` to `Z` in lower case. -/
def asciiLower (s : String) : String := String.ofList (s.toList.map Char.toLower)

@[simp] theorem toList_asciiLower (s : String) :
    (asciiLower s).toList = s.toList.map Char.toLower := by simp [asciiLower]

end LayeredCache.Text
