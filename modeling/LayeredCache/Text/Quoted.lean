import LayeredCache.Text.Visible

/-!
# Texts in quotes for diagnostics

A text stands between two quotes. Quotes, backslashes and the characters NUL, tab, line feed and
carriage return follow a backslash, under a letter of their own where they have one; a character
without a visible form, or a mark that extends the character before it, is written by its number.
-/

namespace LayeredCache.Text.Quoted

/-- The written form of a character. -/
def escape (c : Char) : List Char :=
  if c = '\x00' then ['\\', '0']
  else if c = '\t' then ['\\', 't']
  else if c = '\n' then ['\\', 'n']
  else if c = '\r' then ['\\', 'r']
  else if c = '"' then ['\\', '"']
  else if c = '\\' then ['\\', '\\']
  else if isExtendingMark c || !isPrintable c then
    ['\\', 'u', '\x7b'] ++ Nat.toDigits 16 c.toNat ++ ['\x7d']
  else [c]

/-- The written form of a text. -/
def encode (s : String) : String := String.ofList ('"' :: s.toList.flatMap escape ++ ['"'])

end LayeredCache.Text.Quoted
