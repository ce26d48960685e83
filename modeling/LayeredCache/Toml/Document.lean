import LayeredCache.Toml.Number
import LayeredCache.Toml.Text
import LayeredCache.Toml.Tree

/-!
# TOML texts

A text is a sequence of headers and assignments, one to a line, with blank lines and comments
between them. An array may go over several lines and end with a comma; a table in braces stands on
one line and does not. The statements are read first and then taken in one after the other.
-/

namespace LayeredCache.Toml

mutual

/-- Reads a value that has `depth` values around it. Every call takes a character or comes from one
that did, so a multiple of the number of characters bounds the calls. -/
def value? (depth : Nat) : (fuel : Nat) → List Char → Option (Value × List Char)
  | 0, _ => none
  | _ + 1, 't' :: 'r' :: 'u' :: 'e' :: rest => some (.boolean true, rest)
  | _ + 1, 'f' :: 'a' :: 'l' :: 's' :: 'e' :: rest => some (.boolean false, rest)
  | fuel + 1, '[' :: rest =>
    if depth + 1 < nestingLimit then (items? (depth + 1) fuel rest).map fun r => (.array r.1, r.2)
    else none
  | fuel + 1, '\x7b' :: rest =>
    if depth + 1 < nestingLimit then do
      let (pairs, rest) ← match skipBlanks rest with
        | '\x7d' :: rest => some ([], rest)
        | rest => pairs? (depth + 1) fuel rest
      let table ← inlineTable? pairs
      some (table, rest)
    else none
  | _ + 1, c :: rest =>
    if c = '"' ∨ c = '\'' then (string? (c :: rest)).map fun r => (.string r.1, r.2)
    else number? (c :: rest)
  | _ + 1, [] => none

/-- Reads the values of an array after its bracket or a comma. -/
def items? (depth : Nat) : (fuel : Nat) → List Char → Option (List Value × List Char)
  | 0, _ => none
  | fuel + 1, cs => do
    match ← skipGap? false cs with
    | ']' :: rest => some ([], rest)
    | cs =>
      let (v, rest) ← value? depth fuel cs
      match ← skipGap? false rest with
      | ']' :: rest => some ([v], rest)
      | ',' :: rest => (items? depth fuel rest).map fun r => (v :: r.1, r.2)
      | _ => none

/-- Reads the keys and values of a table in braces. -/
def pairs? (depth : Nat) : (fuel : Nat) → List Char →
    Option (List (List String × Value) × List Char)
  | 0, _ => none
  | fuel + 1, cs => do
    let (path, rest) ← key? cs
    let rest ← expect '=' rest
    let (v, rest) ← value? depth fuel (skipBlanks rest)
    match skipBlanks rest with
    | '\x7d' :: rest => some ([(path, v)], rest)
    | ',' :: rest => (pairs? depth fuel rest).map fun r => ((path, v) :: r.1, r.2)
    | _ => none

end

/-- Reads a statement and the rest of its line. -/
def statement? (cs : List Char) : Option (Statement × List Char) :=
  match cs with
  | '[' :: '[' :: rest => do
    let (path, rest) ← key? rest
    let rest ← expect ']' rest
    let rest ← expect ']' rest
    let rest ← lineEnd? rest
    some (.item path, rest)
  | '[' :: rest => do
    let (path, rest) ← key? rest
    let rest ← expect ']' rest
    let rest ← lineEnd? rest
    some (.table path, rest)
  | cs => do
    let (path, rest) ← key? cs
    let rest ← expect '=' rest
    let rest := skipBlanks rest
    let (v, rest) ← value? 0 (2 * rest.length + 2) rest
    let rest ← lineEnd? rest
    some (.assignment path v, rest)

/-- Reads statements up to the end of a text; a blank line or a line with only a comment is none.
Every line takes a character, so the number of characters bounds the lines. -/
def statements? : (fuel : Nat) → List Char → Option (List Statement)
  | 0, _ => none
  | fuel + 1, cs =>
    match skipBlanks cs with
    | [] => some []
    | c :: rest =>
      if c = '#' ∨ c = '\n' ∨ c = '\r' then (lineEnd? (c :: rest)).bind (statements? fuel)
      else do
        let (s, rest) ← statement? (c :: rest)
        (statements? fuel rest).map (s :: ·)

/-- The table that a text stands for. A byte order mark at its beginning does not count. -/
def parse (text : String) : Option Value := do
  let cs := match text.toList with
    | '\ufeff' :: rest => rest
    | all => all
  let statements ← statements? (cs.length + 1) cs
  let draft ← statements.foldlM Draft.add {}
  some (.table (entryValues draft.entries))

end LayeredCache.Toml
