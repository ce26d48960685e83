import LayeredCache.Decimal.Fixed

/-!
# Spans of time and points in time

A span is a number of nanoseconds. It is written in the largest of the units second, millisecond,
microsecond and nanosecond of which it holds at least one, with the shortest exact decimal fraction.
A point in time is a number of seconds from the start of the year 1970 and nanoseconds in that
second, in the proleptic Gregorian calendar and without a zone offset.
-/

namespace LayeredCache

/-- A span of time in nanoseconds. -/
abbrev Span := Nat

namespace Span

/-- The nanoseconds of milliseconds. -/
def ofMillis (ms : Nat) : Span := ms * 1000000

/-- One hour. -/
def hour : Span := 3600 * 1000000000

/-- The text of `num / 10 ^ places`, with as many digits after the point as are needed. -/
def exactDecimal (num places : Nat) : String :=
  let fraction := num % Nat.pow 10 places
  let whole := toString (num / Nat.pow 10 places)
  if fraction = 0 then whole
  else
    let digits := (Decimal.zeroPadded places fraction).toList
    whole ++ "." ++ String.ofList (digits.reverse.dropWhile (· == '0')).reverse

/-- The text of a span. -/
def text (span : Span) : String :=
  if 1000000000 ≤ span then exactDecimal span 9 ++ "s"
  else if 1000000 ≤ span then exactDecimal span 6 ++ "ms"
  else if 1000 ≤ span then exactDecimal span 3 ++ "µs"
  else toString span ++ "ns"

end Span

/-- A day of the proleptic Gregorian calendar. -/
structure CivilDate where
  year : Int
  month : Nat
  day : Nat
  deriving DecidableEq, Repr

/-- The date of a number of days from the first day of 1970. The count is moved to the first of
March of a year that four hundred divides, so that a leap day ends a period of four, a hundred and
four hundred years. -/
def CivilDate.ofDays (days : Int) : CivilDate :=
  let shifted := days + 719468
  let era := Int.fdiv shifted 146097
  let dayOfEra := (shifted - era * 146097).toNat
  let yearOfEra := (dayOfEra - dayOfEra / 1460 + dayOfEra / 36524 - dayOfEra / 146096) / 365
  let dayOfYear := dayOfEra - (365 * yearOfEra + yearOfEra / 4 - yearOfEra / 100)
  let shiftedMonth := (5 * dayOfYear + 2) / 153
  let day := dayOfYear - (153 * shiftedMonth + 2) / 5 + 1
  let month := if shiftedMonth < 10 then shiftedMonth + 3 else shiftedMonth - 9
  ⟨yearOfEra + era * 400 + (if month ≤ 2 then 1 else 0), month, day⟩

/-- A year has four digits; one before the year 0 or after 9999 carries its sign. -/
def CivilDate.yearText (year : Int) : String :=
  if 0 ≤ year ∧ year ≤ 9999 then Decimal.zeroPadded 4 year.toNat
  else (if year < 0 then "-" else "+") ++ Decimal.zeroPadded 4 year.natAbs

/-- The text of a date. -/
def CivilDate.text (date : CivilDate) : String :=
  yearText date.year ++ "-" ++ Decimal.zeroPadded 2 date.month ++ "-" ++
    Decimal.zeroPadded 2 date.day

/-- A point in time. A count of nanoseconds of a whole second or more is a leap second. -/
structure Timestamp where
  seconds : Int
  nanos : Nat
  deriving DecidableEq, Repr

namespace Timestamp

/-- The date. -/
def date (t : Timestamp) : CivilDate := .ofDays (Int.fdiv t.seconds 86400)

/-- Hours, minutes and seconds; a leap second is the second with number sixty. -/
def clockText (t : Timestamp) : String :=
  let second := (t.seconds - Int.fdiv t.seconds 86400 * 86400).toNat
  Decimal.zeroPadded 2 (second / 3600) ++ ":" ++ Decimal.zeroPadded 2 (second / 60 % 60) ++ ":" ++
    Decimal.zeroPadded 2 (second % 60 + t.nanos / 1000000000)

/-- The fraction of the second with none, three, six or nine digits, as few as are exact. -/
def fractionText (t : Timestamp) : String :=
  let nanos := t.nanos % 1000000000
  if nanos = 0 then ""
  else if nanos % 1000000 = 0 then "." ++ Decimal.zeroPadded 3 (nanos / 1000000)
  else if nanos % 1000 = 0 then "." ++ Decimal.zeroPadded 6 (nanos / 1000)
  else "." ++ Decimal.zeroPadded 9 nanos

/-- The text in the form of RFC 3339, with the offset of the zone written as a number. -/
def rfc3339 (t : Timestamp) : String :=
  t.date.text ++ "T" ++ t.clockText ++ t.fractionText ++ "+00:00"

/-- The text with a blank between date and time and the started millisecond. -/
def plain (t : Timestamp) : String :=
  t.date.text ++ " " ++ t.clockText ++ "." ++
    Decimal.zeroPadded 3 (t.nanos % 1000000000 / 1000000)

end Timestamp

end LayeredCache
