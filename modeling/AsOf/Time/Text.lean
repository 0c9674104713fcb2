import AsOf.Text.Basic
import AsOf.Time.Instant

/-!
# Times as texts

How an instant is written, and the two grammars in which a time is read.

## Main definitions

* `Instant.rfc3339`: with a fixed number of digits of the second
* `Instant.plain`: with as many digits as the nanoseconds need
* `ZonedTime`: the parts as they are read
* `ZonedTime.instant?`: the instant that they name, if there is one
* `Instant.readExact?`, `Instant.readLenient?`: the two grammars
-/

namespace AsOf

open Text

/-! ## Writing instants

An instant in UTC as text: the date, the time of day, and digits of the second. Years outside 0 to
9999 carry a sign. The second of a leap second is written 60. -/

/-- A year in at least four digits, with a sign outside 0 to 9999. -/
def Date.printYear (year : Int) : List Char :=
  if 0 ≤ year ∧ year ≤ 9999 then padded 4 year.toNat
  else if 0 ≤ year then '+' :: padded 4 year.toNat
  else '-' :: padded 4 (-year).toNat

/-- A date as year, month and day. -/
def Date.print (d : Date) : List Char :=
  printYear d.year ++ '-' :: padded 2 d.month ++ '-' :: padded 2 d.day

namespace Instant

/-- The time of day in hours, minutes and seconds. -/
def printTime (t : Instant) : List Char :=
  let s := t.secondOfDay.toNat
  padded 2 (s / 3600) ++ ':' :: padded 2 (s / 60 % 60) ++
    ':' :: padded 2 (s % 60 + if t.inLeapSecond then 1 else 0)

/-- The nanoseconds within the second as it is written. -/
def subsecond (t : Instant) : Nat := t.nanos % 1000000000

/-- How many digits of the second are written. -/
inductive Precision where
  | seconds
  | millis

/-- A point and the digits of the second. -/
def printSubsecond (t : Instant) : Precision → List Char
  | .seconds => []
  | .millis => '.' :: padded 3 (t.subsecond / 1000000)

/-- The instant in UTC in the form of RFC 3339, digits beyond the precision cut off. -/
def rfc3339 (t : Instant) (precision : Precision) : String :=
  String.ofList (t.date.print ++ 'T' :: t.printTime ++ t.printSubsecond precision ++ ['Z'])

/-- The fewest digits of the second, out of none, three, six and nine, that lose nothing. -/
def printExactSubsecond (t : Instant) : List Char :=
  let n := t.subsecond
  if n = 0 then []
  else if n % 1000000 = 0 then '.' :: padded 3 (n / 1000000)
  else if n % 1000 = 0 then '.' :: padded 6 (n / 1000)
  else '.' :: padded 9 n

/-- Date, time of day and the zone, with blanks between them. -/
def plain (t : Instant) : String :=
  String.ofList (t.date.print ++ ' ' :: t.printTime ++ t.printExactSubsecond) ++ " UTC"

end Instant

/-! ## Reading instants

Two grammars for a date, a time of day and an offset from UTC. The exact one is that of RFC 3339:
fixed widths and no blanks. The lenient one admits blanks between the parts, short and signed
years, one digit where two are usual, `UTC` for the zone and an offset without its colon. -/

/-- A date, a time of day and an offset from UTC in seconds, as read. -/
structure ZonedTime where
  date : Date
  hour : Nat
  minute : Nat
  second : Nat
  nanos : Nat
  offset : Int

/-- Whether the calendar reaches the year. -/
def Date.inRange (year : Int) : Bool := -262143 ≤ year && year ≤ 262142

/-- The instant that the parts name: the date exists, the time of day is in range, where second 60
is a leap second, the offset is less than a day, and the year is in range in UTC as well. -/
def ZonedTime.instant? (z : ZonedTime) : Option Instant :=
  if z.date.Valid ∧ Date.inRange z.date.year ∧ z.hour < 24 ∧ z.minute < 60 ∧ z.second ≤ 60 ∧
      z.offset.natAbs < 86400 then
    let second := if z.second = 60 then 59 else z.second
    let nanos := if z.second = 60 then z.nanos + 1000000000 else z.nanos
    let secs := z.date.toDayNumber * 86400 + z.hour * 3600 + z.minute * 60 + second - z.offset
    (Instant.ofParts? secs nanos).filter (Date.inRange ·.date.year)
  else none

namespace TimeReader

/-! ### Parts of both grammars -/

/-- A number of at least `least` and at most `most` digits, and the rest of the text. -/
def number (least most : Nat) (cs : List Char) : Option (Nat × List Char) :=
  let ds := (cs.take most).takeWhile Char.isDigit
  if ds.length < least then none else some (numeralValue ds, cs.drop ds.length)

/-- The rest of a text behind a given character. -/
def char (c : Char) : List Char → Option (List Char)
  | d :: cs => if c = d then some cs else none
  | [] => none

/-- The rest of a text behind `T`, `t` or one space. -/
def separator : List Char → Option (List Char)
  | c :: cs => if c = 'T' ∨ c = 't' ∨ c = ' ' then some cs else none
  | [] => none

/-- The nanoseconds that the digits behind a point stand for, if there is a point; digits beyond
the ninth count for nothing. -/
def subsecond : List Char → Option (Nat × List Char)
  | '.' :: cs =>
    let (ds, rest) := spanDigits cs
    if ds.isEmpty then none
    else
      some (numeralValue ((ds ++ List.replicate 9 '0').take 9), rest)
  | cs => some (0, cs)

/-- An offset from UTC: `Z`, or a sign, two digits for the hours and two for the minutes; `between`
takes off what stands between the two. A minus sign is U+002D or U+2212. -/
def offset (between : List Char → Option (List Char)) : List Char → Option (Int × List Char)
  | [] => none
  | c :: cs =>
    if c = 'Z' ∨ c = 'z' then some (0, cs)
    else if c = '+' ∨ c = '-' ∨ c = '\u2212' then do
      let (hours, cs) ← number 2 2 cs
      let cs ← between cs
      let (minutes, cs) ← number 2 2 cs
      if minutes < 60 then
        let seconds : Int := hours * 3600 + minutes * 60
        return (if c = '+' then seconds else -seconds, cs)
      else none
    else none

/-! ### The exact grammar -/

/-- A date, a time of day and an offset in the form of RFC 3339. -/
def exact (cs : List Char) : Option (ZonedTime × List Char) := do
  let (year, cs) ← number 4 4 cs
  let (month, cs) ← number 2 2 (← char '-' cs)
  let (day, cs) ← number 2 2 (← char '-' cs)
  let (hour, cs) ← number 2 2 (← separator cs)
  let (minute, cs) ← number 2 2 (← char ':' cs)
  let (second, cs) ← number 2 2 (← char ':' cs)
  let (nanos, cs) ← subsecond cs
  let (offset, cs) ← offset (char ':') cs
  return (⟨⟨year, month, day⟩, hour, minute, second, nanos, offset⟩, cs)

/-! ### The lenient grammar -/

/-- A year: any number of digits behind a sign, or up to four without one. -/
def year : List Char → Option (Int × List Char)
  | '-' :: cs => (number 1 cs.length cs).map fun (n, cs) => (-n, cs)
  | '+' :: cs => (number 1 cs.length cs).map fun (n, cs) => (n, cs)
  | cs => (number 1 4 cs).map fun (n, cs) => (n, cs)

/-- The rest of a text behind blanks and a given character. -/
def spacedChar (c : Char) (cs : List Char) : Option (List Char) := char c (trimStart cs)

/-- One or two digits behind blanks. -/
def spacedNumber (cs : List Char) : Option (Nat × List Char) := number 1 2 (trimStart cs)

/-- The rest of a text behind colons and blanks. -/
def skipColons (cs : List Char) : List Char := cs.dropWhile fun c => c == ':' || isBlank c

/-- An offset, where `UTC` in any case is one too. -/
def zone : List Char → Option (Int × List Char)
  | u :: t :: c :: cs =>
    if u.toUpper = 'U' ∧ t.toUpper = 'T' ∧ c.toUpper = 'C' then some (0, cs)
    else offset (fun cs => some (skipColons cs)) (u :: t :: c :: cs)
  | cs => offset (fun cs => some (skipColons cs)) cs

/-- A date, a time of day and an offset with blanks between the parts. -/
def lenient (cs : List Char) : Option (ZonedTime × List Char) := do
  let (year, cs) ← year (trimStart cs)
  let (month, cs) ← spacedNumber (← spacedChar '-' cs)
  let (day, cs) ← spacedNumber (← spacedChar '-' cs)
  let (hour, cs) ← spacedNumber (← separator cs)
  let (minute, cs) ← spacedNumber (← spacedChar ':' cs)
  let (second, cs) ← spacedNumber (← spacedChar ':' cs)
  let (nanos, cs) ← subsecond cs
  let (offset, cs) ← zone (trimStart cs)
  return (⟨⟨year, month, day⟩, hour, minute, second, nanos, offset⟩, trimStart cs)

/-- The instant that a whole text names under a grammar. -/
def whole (grammar : List Char → Option (ZonedTime × List Char)) (s : String) : Option Instant := do
  let (z, rest) ← grammar s.toList
  if rest.isEmpty then z.instant? else none

end TimeReader

/-- The instant that a text names in the form of RFC 3339. -/
def Instant.readExact? (s : String) : Option Instant := TimeReader.whole TimeReader.exact s

/-- The instant that a text names in the lenient form. -/
def Instant.readLenient? (s : String) : Option Instant := TimeReader.whole TimeReader.lenient s

end AsOf
