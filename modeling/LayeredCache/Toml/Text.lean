import LayeredCache.Text.Hex
import LayeredCache.Toml.Blank

/-!
# Strings and keys in TOML

A string stands in quotes or in apostrophes, on one line or, with three of them, on several lines.
Only strings in quotes know escapes. A string of several lines may end with two quotes of its own
before the three that close it, and its first line end does not count. A key is a string of one line
or a word of letters, digits, underscores and hyphens.
-/

namespace LayeredCache.Toml

/-- The character of a number in hexadecimal digits. -/
def scalar? (digits : List Char) : Option Char :=
  match Text.Hex.number? (String.ofList digits) with
  | none => none
  | some n => if n.isValidChar then some (Char.ofNat n) else none

/-- Reads what follows a backslash. -/
def escape? : List Char → Option (Char × List Char)
  | 'b' :: rest => some ('\x08', rest)
  | 't' :: rest => some ('\t', rest)
  | 'n' :: rest => some ('\n', rest)
  | 'f' :: rest => some ('\x0c', rest)
  | 'r' :: rest => some ('\r', rest)
  | '"' :: rest => some ('"', rest)
  | '\\' :: rest => some ('\\', rest)
  | 'u' :: a :: b :: c :: d :: rest => (scalar? [a, b, c, d]).map (·, rest)
  | 'U' :: a :: b :: c :: d :: e :: f :: g :: h :: rest =>
    (scalar? [a, b, c, d, e, f, g, h]).map (·, rest)
  | _ => none

/-- A string of characters that were read, the last one first. -/
def ofRead (read : List Char) : String := String.ofList read.reverse

/-- Reads a string in quotes on one line after its opening quote; every step takes a character, so
the number of characters bounds the steps. -/
def quoted? (read : List Char) : (fuel : Nat) → List Char → Option (String × List Char)
  | 0, _ | _, [] => none
  | _ + 1, '"' :: rest => some (ofRead read, rest)
  | fuel + 1, '\\' :: rest =>
    match escape? rest with
    | none => none
    | some (c, rest) => quoted? (c :: read) fuel rest
  | fuel + 1, c :: rest => if isText c then quoted? (c :: read) fuel rest else none

/-- Ends a string of several lines after three closing marks; up to two more marks belong to it. -/
def closeLong (mark : Char) (read rest : List Char) : String × List Char :=
  match rest with
  | a :: b :: after =>
    if a = mark ∧ b = mark then (ofRead (mark :: mark :: read), after)
    else if a = mark then (ofRead (mark :: read), b :: after)
    else (ofRead read, rest)
  | [a] => if a = mark then (ofRead (mark :: read), []) else (ofRead read, rest)
  | [] => (ofRead read, [])

/-- What follows blanks and line ends. -/
def skipBlankLines : List Char → List Char
  | '\n' :: rest => skipBlankLines rest
  | '\r' :: '\n' :: rest => skipBlankLines rest
  | c :: rest => if isBlank c then skipBlankLines rest else c :: rest
  | [] => []

/-- What follows a line end that a backslash hides, with all blanks and line ends after it. -/
def hiddenLineEnd? (cs : List Char) : Option (List Char) :=
  (newline? (skipBlanks cs)).map skipBlankLines

/-- Reads a string in quotes on several lines. -/
def longQuoted? (read : List Char) : (fuel : Nat) → List Char → Option (String × List Char)
  | 0, _ | _, [] => none
  | _ + 1, '"' :: '"' :: '"' :: rest => some (closeLong '"' read rest)
  | fuel + 1, '\\' :: rest =>
    match hiddenLineEnd? rest with
    | some rest => longQuoted? read fuel rest
    | none =>
      match escape? rest with
      | none => none
      | some (c, rest) => longQuoted? (c :: read) fuel rest
  | fuel + 1, '\n' :: rest => longQuoted? ('\n' :: read) fuel rest
  | fuel + 1, '\r' :: '\n' :: rest => longQuoted? ('\n' :: read) fuel rest
  | fuel + 1, c :: rest => if isText c then longQuoted? (c :: read) fuel rest else none

/-- Reads a string in apostrophes on one line after its opening apostrophe. -/
def literal? (cs : List Char) : Option (String × List Char) :=
  let content := cs.takeWhile fun c => isText c && c ≠ '\''
  match cs.drop content.length with
  | '\'' :: rest => some (String.ofList content, rest)
  | _ => none

/-- Reads a string in apostrophes on several lines. -/
def longLiteral? (read : List Char) : List Char → Option (String × List Char)
  | [] => none
  | '\'' :: '\'' :: '\'' :: rest => some (closeLong '\'' read rest)
  | '\n' :: rest => longLiteral? ('\n' :: read) rest
  | '\r' :: '\n' :: rest => longLiteral? ('\n' :: read) rest
  | c :: rest => if isText c then longLiteral? (c :: read) rest else none

/-- What follows the first line end of a string of several lines, if it begins with one. -/
def skipFirstLineEnd (cs : List Char) : List Char := (newline? cs).getD cs

/-- Reads a string of one line. -/
def shortString? : List Char → Option (String × List Char)
  | '"' :: rest => quoted? [] (rest.length + 1) rest
  | '\'' :: rest => literal? rest
  | _ => none

/-- Reads a string. -/
def string? : List Char → Option (String × List Char)
  | '"' :: '"' :: '"' :: rest =>
    let rest := skipFirstLineEnd rest
    longQuoted? [] (rest.length + 1) rest
  | '\'' :: '\'' :: '\'' :: rest => longLiteral? [] (skipFirstLineEnd rest)
  | cs => shortString? cs

/-- Whether a character may stand in a key without quotes. -/
def isBare (c : Char) : Bool := c.isAlphanum || c = '_' || c = '-'

/-- Reads one part of a key. -/
def simpleKey? (cs : List Char) : Option (String × List Char) :=
  match cs.takeWhile isBare with
  | [] => shortString? cs
  | word => some (String.ofList word, cs.drop word.length)

/-- The greatest number of parts of a key, and of values inside one another, plus one. -/
def nestingLimit : Nat := 80

/-- Reads parts of a key with points between them. -/
def keyParts? : (fuel : Nat) → List Char → Option (List String × List Char)
  | 0, _ => none
  | fuel + 1, cs =>
    match simpleKey? (skipBlanks cs) with
    | none => none
    | some (part, rest) =>
      match skipBlanks rest with
      | '.' :: rest => (keyParts? fuel rest).map fun r => (part :: r.1, r.2)
      | rest => some ([part], rest)

/-- Reads a key and the blanks around it. -/
def key? (cs : List Char) : Option (List String × List Char) :=
  match keyParts? (cs.length + 1) cs with
  | none => none
  | some (parts, rest) => if parts.length < nestingLimit then some (parts, rest) else none

end LayeredCache.Toml
