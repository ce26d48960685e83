import LayeredCache.Text.Hex

/-!
# Strings in JSON

Between two quotes, a quote and a backslash follow a backslash, five control characters have a
letter of their own, the others of the first thirty-two are written by number, and all else stands
for itself.
-/

namespace LayeredCache.Text.JsonString

/-- The written form of a character. -/
def escape (c : Char) : List Char :=
  if c = '"' then ['\\', '"']
  else if c = '\\' then ['\\', '\\']
  else if c = '\x08' then ['\\', 'b']
  else if c = '\t' then ['\\', 't']
  else if c = '\n' then ['\\', 'n']
  else if c = '\x0c' then ['\\', 'f']
  else if c = '\r' then ['\\', 'r']
  else if c.toNat < 32 then
    ['\\', 'u', '0', '0', Hex.digit (c.toNat / 16), Hex.digit (c.toNat % 16)]
  else [c]

/-- The written form of a text. -/
def encode (s : String) : String := String.ofList ('"' :: s.toList.flatMap escape ++ ['"'])

end LayeredCache.Text.JsonString
