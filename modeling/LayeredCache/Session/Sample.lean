import LayeredCache.Codec

/-!
# Sample values

A sample is a text that is cached. A text that starts with a certain mark refuses to be encoded, and
one that starts with another mark refuses to be decoded, so that failures of codecs can be provoked.
-/

namespace LayeredCache

/-- A text that is cached. -/
structure Sample where
  text : String
  deriving DecidableEq, Repr

namespace Sample

/-- Whether a sample refuses to be encoded. -/
def refusesEncoding (s : Sample) : Bool := "!enc".toList.isPrefixOf s.text.toList

/-- Whether a sample refuses to be decoded. -/
def refusesDecoding (s : Sample) : Bool := "!dec".toList.isPrefixOf s.text.toList

instance : Codec Sample where
  encode s :=
    if s.refusesEncoding then .error (.refused "value refuses to be encoded")
    else .ok (TextFormat.encode s.text)
  decode bytes :=
    match TextFormat.decode bytes with
    | .error e => .error e
    | .ok text =>
      if Sample.refusesDecoding ⟨text⟩ then .error (.refused "value refuses to be decoded")
      else .ok ⟨text⟩

end Sample

end LayeredCache
