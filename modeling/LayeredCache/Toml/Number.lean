import LayeredCache.Toml.Blank
import LayeredCache.Toml.Value

/-!
# Numbers and points in time in TOML

An integer is written in decimal digits, with or without a sign and without leading zeros, or in
hexadecimal, octal or binary digits after a mark; it has to fit in 64 bits. A number in floating
point has a fraction or an exponent. Single underscores may stand between digits. A point in time is
a date, a time of the day, or both with an offset.
-/

namespace LayeredCache.Toml

/-- Reads the digits that follow a digit; an underscore must stand between two digits. -/
def moreDigits? (isDigit : Char → Bool) : List Char → Option (List Char × List Char)
  | [] => some ([], [])
  | ['_'] => none
  | '_' :: d :: rest =>
    if isDigit d then (moreDigits? isDigit rest).map fun r => (d :: r.1, r.2) else none
  | d :: rest =>
    if isDigit d then (moreDigits? isDigit rest).map fun r => (d :: r.1, r.2)
    else some ([], d :: rest)

/-- Reads digits, at least one, with single underscores between them. -/
def digits? (isDigit : Char → Bool) : List Char → Option (List Char × List Char)
  | [] => none
  | d :: rest =>
    if isDigit d then (moreDigits? isDigit rest).map fun r => (d :: r.1, r.2) else none

/-- The number of digits in a base; a digit is below sixteen. -/
def number (base : Nat) (ds : List Char) : Nat :=
  ds.foldl (fun n c =>
    let d := if c.isDigit then c.toNat - 48
      else if 'a' ≤ c then c.toNat - 87 else c.toNat - 55
    base * n + d) 0

/-- Reads a sign: whether it is a minus sign, and what it is written as. -/
def sign : List Char → Bool × List Char × List Char
  | '+' :: rest => (false, ['+'], rest)
  | '-' :: rest => (true, ['-'], rest)
  | cs => (false, [], cs)

/-- Reads decimal digits without leading zeros. -/
def decimalDigits? (cs : List Char) : Option (List Char × List Char) :=
  match cs with
  | '0' :: rest => some (['0'], rest)
  | _ => digits? Char.isDigit cs

/-- The integers of 64 bits. -/
def inRange (i : Int) : Bool :=
  decide (-9223372036854775808 ≤ i) && decide (i < 9223372036854775808)

/-- The value of an integer that is in range. -/
def integerValue? (i : Int) (rest : List Char) : Option (Value × List Char) :=
  if inRange i then some (.integer i, rest) else none

/-- Reads an integer in digits of a base. -/
def based? (base : Nat) (isDigit : Char → Bool) (cs : List Char) : Option (Value × List Char) :=
  match digits? isDigit cs with
  | none => none
  | some (ds, rest) => integerValue? (number base ds) rest

/-- Whether a character is a hexadecimal digit. -/
def isHexDigit (c : Char) : Bool :=
  c.isDigit || ('a' ≤ c && c ≤ 'f') || ('A' ≤ c && c ≤ 'F')

/-- Reads an integer. -/
def integer? : List Char → Option (Value × List Char)
  | '0' :: 'x' :: rest => based? 16 isHexDigit rest
  | '0' :: 'o' :: rest => based? 8 (fun c => '0' ≤ c && c ≤ '7') rest
  | '0' :: 'b' :: rest => based? 2 (fun c => c = '0' || c = '1') rest
  | cs =>
    let (negative, _, rest) := sign cs
    match decimalDigits? rest with
    | none => none
    | some (ds, rest) =>
      let n : Int := number 10 ds
      integerValue? (if negative then -n else n) rest

/-- Reads an exponent: its value, and what it is written as. -/
def exponent? : List Char → Option (Int × List Char × List Char)
  | [] => none
  | e :: rest =>
    if e = 'e' ∨ e = 'E' then
      let (negative, mark, rest) := sign rest
      match digits? Char.isDigit rest with
      | none => none
      | some (ds, rest) =>
        let n : Int := number 10 ds
        some (if negative then -n else n, e :: mark ++ ds, rest)
    else none

/-- Whether `n * 10 ^ e` is too great for double precision. -/
def overflows (n : Nat) (e : Int) : Bool :=
  let digits := ((toString n).length : Int)
  if n = 0 then false
  else if 400 < digits + e then true
  else if digits + e < 300 then false
  else decide ((Nat.pow 2 54 - 1) * Nat.pow 2 970 * Nat.pow 10 (-e).toNat ≤ n * Nat.pow 10 e.toNat)

/-- Reads a number with a fraction or an exponent. A positive one must not be too great for double
precision. -/
def fractional? (cs : List Char) : Option (Value × List Char) := do
  let (negative, mark, rest) := sign cs
  let (whole, rest) ← decimalDigits? rest
  let (fraction, rest) ← match rest with
    | '.' :: rest => digits? Char.isDigit rest
    | _ => some ([], rest)
  let (e, power, rest) ← match rest with
    | c :: _ => if c = 'e' ∨ c = 'E' then exponent? rest else some (0, [], rest)
    | [] => some (0, [], rest)
  if fraction.isEmpty && power.isEmpty then none
  else if !negative && overflows (number 10 (whole ++ fraction)) (e - fraction.length) then none
  else
    let point := if fraction.isEmpty then [] else '.' :: fraction
    some (.float (String.ofList (mark ++ whole ++ point ++ power)), rest)

/-- Reads an infinity or the value that is no number. -/
def special? (cs : List Char) : Option (Value × List Char) :=
  match sign cs with
  | (_, mark, 'i' :: 'n' :: 'f' :: rest) => some (.float (String.ofList mark ++ "inf"), rest)
  | (_, mark, 'n' :: 'a' :: 'n' :: rest) => some (.float (String.ofList mark ++ "nan"), rest)
  | _ => none

/-- Reads so many decimal digits. -/
def fixedDigits? (count : Nat) (cs : List Char) : Option (List Char × List Char) :=
  let ds := cs.take count
  if ds.length = count ∧ ds.all Char.isDigit then some (ds, cs.drop count) else none

/-- The number of days of a month. -/
def daysOf (year month : Nat) : Nat :=
  if month = 2 then
    if year % 4 = 0 ∧ (year % 100 ≠ 0 ∨ year % 400 = 0) then 29 else 28
  else if month = 4 ∨ month = 6 ∨ month = 9 ∨ month = 11 then 30
  else 31

/-- Reads a date. -/
def date? (cs : List Char) : Option (List Char × List Char) := do
  let (year, rest) ← fixedDigits? 4 cs
  let rest ← expect '-' rest
  let (month, rest) ← fixedDigits? 2 rest
  let rest ← expect '-' rest
  let (day, rest) ← fixedDigits? 2 rest
  let m := number 10 month
  let d := number 10 day
  if 1 ≤ m ∧ m ≤ 12 ∧ 1 ≤ d ∧ d ≤ daysOf (number 10 year) m then
    some (year ++ '-' :: month ++ '-' :: day, rest)
  else none

/-- The digits of a fraction of a second that count: nine at most, without zeros at the end. -/
def fractionDigits (ds : List Char) : List Char :=
  ((ds.take 9).reverse.dropWhile (· = '0')).reverse

/-- Reads a time of the day. -/
def time? (cs : List Char) : Option (List Char × List Char) := do
  let (hour, rest) ← fixedDigits? 2 cs
  let rest ← expect ':' rest
  let (minute, rest) ← fixedDigits? 2 rest
  let rest ← expect ':' rest
  let (second, rest) ← fixedDigits? 2 rest
  let text := hour ++ ':' :: minute ++ ':' :: second
  if 23 < number 10 hour ∨ 59 < number 10 minute ∨ 60 < number 10 second then none
  else
    match rest with
    | '.' :: after =>
      match after.takeWhile Char.isDigit with
      | [] => none
      | ds =>
        let counted := fractionDigits ds
        some (text ++ (if counted.isEmpty then [] else '.' :: counted), after.drop ds.length)
    | _ => some (text, rest)

/-- Reads an offset. -/
def offset? : List Char → Option (List Char × List Char)
  | [] => none
  | c :: rest =>
    if c = 'Z' ∨ c = 'z' then some (['Z'], rest)
    else if c = '+' ∨ c = '-' then do
      let (hour, rest) ← fixedDigits? 2 rest
      let rest ← expect ':' rest
      let (minute, rest) ← fixedDigits? 2 rest
      if 23 < number 10 hour ∨ 59 < number 10 minute then none
      else
        let mark := if number 10 (hour ++ minute) = 0 then '+' else c
        some (mark :: hour ++ ':' :: minute, rest)
    else none

/-- Reads a point in time. -/
def dateTime? (cs : List Char) : Option (Value × List Char) :=
  match date? cs with
  | some (date, rest) =>
    let whole : Value × List Char := (.dateTime (String.ofList date), rest)
    match rest with
    | c :: after =>
      if c = 'T' ∨ c = 't' ∨ c = ' ' then
        match time? after with
        | none => some whole
        | some (time, rest) =>
          match offset? rest with
          | none => some (.dateTime (String.ofList (date ++ 'T' :: time)), rest)
          | some (offset, rest) =>
            some (.dateTime (String.ofList (date ++ 'T' :: time ++ offset)), rest)
      else some whole
    | [] => some whole
  | none => (time? cs).map fun r => (.dateTime (String.ofList r.1), r.2)

/-- Reads a number or a point in time. -/
def number? (cs : List Char) : Option (Value × List Char) :=
  dateTime? cs <|> fractional? cs <|> special? cs <|> integer? cs

end LayeredCache.Toml
