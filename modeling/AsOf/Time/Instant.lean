/-!
# Instants and dates

Points on the time line, and the dates of the days on which they lie.

## Main definitions

* `Instant`: a point in time, ordered by second and then by nanosecond
* `Instant.since`: the nanoseconds from one instant to another
* `Instant.day`, `Instant.secondOfDay`: the date and the time of day
* `Date`: year, month and day of the month
* `Date.toDayNumber`, `Date.ofDayNumber`: the number of a date, the date with a number
* `Date.Valid`: the month exists and has that day
-/

namespace AsOf

/-! ## Instants

Points on the time line, counted in seconds since the epoch and nanoseconds within the second. A
leap second is the second before it with a thousand million or more nanoseconds. -/

/-- A point in time. From a thousand million nanoseconds on it lies in a leap second. -/
structure Instant where
  secs : Int
  nanos : Nat
  nanos_lt : nanos < 2000000000 := by decide
deriving DecidableEq

namespace Instant

/-- The start of 1 January 1970. -/
def epoch : Instant := ⟨0, 0, by decide⟩

instance : Inhabited Instant := ⟨epoch⟩

/-- The instant with given seconds and nanoseconds, if there are not too many of the latter. -/
def ofParts? (secs : Int) (nanos : Nat) : Option Instant :=
  if h : nanos < 2000000000 then some ⟨secs, nanos, h⟩ else none

instance : LE Instant :=
  ⟨fun s t => s.secs < t.secs ∨ (s.secs = t.secs ∧ s.nanos ≤ t.nanos)⟩

instance : LT Instant :=
  ⟨fun s t => s.secs < t.secs ∨ (s.secs = t.secs ∧ s.nanos < t.nanos)⟩

theorem le_def {s t : Instant} :
    s ≤ t ↔ s.secs < t.secs ∨ (s.secs = t.secs ∧ s.nanos ≤ t.nanos) := Iff.rfl

theorem lt_def {s t : Instant} :
    s < t ↔ s.secs < t.secs ∨ (s.secs = t.secs ∧ s.nanos < t.nanos) := Iff.rfl

instance (s t : Instant) : Decidable (s ≤ t) := decidable_of_iff _ le_def.symm

instance (s t : Instant) : Decidable (s < t) := decidable_of_iff _ lt_def.symm

/-! ### Operations -/

/-- The later of two instants. -/
def latest (s t : Instant) : Instant := if s ≤ t then t else s

/-- The number of the day, counted from the epoch. -/
def day (t : Instant) : Int := t.secs / 86400

/-- The second within the day. -/
def secondOfDay (t : Instant) : Int := t.secs % 86400

/-- Whether the instant lies in a leap second. -/
def inLeapSecond (t : Instant) : Bool := 1000000000 ≤ t.nanos

/-- The nanoseconds from `s` to `t`. A leap second that one of the two times of day lies in counts
as a second of its own against a time of day on its far side. -/
def since (t s : Instant) : Int :=
  let leap : Int :=
    if s.secondOfDay < t.secondOfDay then (if s.inLeapSecond then 1 else 0)
    else if t.secondOfDay < s.secondOfDay then (if t.inLeapSecond then -1 else 0)
    else 0
  (t.secs - s.secs + leap) * 1000000000 + (t.nanos - s.nanos)

/-! ### The order is total -/

theorem le_refl (t : Instant) : t ≤ t := Or.inr ⟨rfl, Nat.le_refl _⟩

theorem le_trans {r s t : Instant} (h : r ≤ s) (h' : s ≤ t) : r ≤ t := by
  rw [le_def] at *
  omega

theorem not_lt {s t : Instant} : ¬s < t ↔ t ≤ s := by
  rw [lt_def, le_def]
  omega

theorem not_le {s t : Instant} : ¬s ≤ t ↔ t < s := by
  rw [lt_def, le_def]
  omega

theorem le_antisymm {s t : Instant} (h : s ≤ t) (h' : t ≤ s) : s = t := by
  cases s
  cases t
  simp only [le_def] at h h'
  simp only [mk.injEq]
  omega

theorem le_of_lt {s t : Instant} (h : s < t) : s ≤ t := by
  rw [lt_def] at h
  rw [le_def]
  omega

theorem le_latest_left (s t : Instant) : s ≤ latest s t := by
  unfold latest
  split
  · assumption
  · exact le_refl s

theorem le_latest_right (s t : Instant) : t ≤ latest s t := by
  unfold latest
  split
  · exact le_refl t
  · exact le_of_lt (not_le.mp ‹_›)

/-- Between instants outside leap seconds the difference is the plain one. -/
theorem since_eq {s t : Instant} (hs : s.nanos < 1000000000) (ht : t.nanos < 1000000000) :
    t.since s = (t.secs - s.secs) * 1000000000 + (t.nanos - s.nanos) := by
  have hs' : s.inLeapSecond = false := by simp [inLeapSecond]; omega
  have ht' : t.inLeapSecond = false := by simp [inLeapSecond]; omega
  simp [since, hs', ht']

end Instant

/-! ## The calendar

The proleptic Gregorian calendar: dates, and their numbers counted in days from 1 January 1970. -/

/-- A day by year, month and day of the month, the last two counted from one. -/
structure Date where
  year : Int
  month : Nat
  day : Nat
deriving DecidableEq, Repr

namespace Date

/-- Whether the year has 29 February. -/
def isLeapYear (year : Int) : Bool :=
  year % 4 == 0 && (year % 100 != 0 || year % 400 == 0)

/-- The lengths of the months of a year. -/
def monthLengths (leap : Bool) : List Nat :=
  [31, if leap then 29 else 28, 31, 30, 31, 30, 31, 31, 30, 31, 30, 31]

/-- The days before the first of a month. -/
def daysBeforeMonth (leap : Bool) (month : Nat) : Nat :=
  ((monthLengths leap).take (month - 1)).foldl (· + ·) 0

/-- The days from 1 January of the year 1 to 1 January of the given year. -/
def daysBeforeYear (year : Int) : Int :=
  365 * (year - 1) + (year - 1) / 4 - (year - 1) / 100 + (year - 1) / 400

/-- The days from 1 January of the year 1 to the epoch. -/
def daysBeforeEpoch : Int := 719162

/-- The date exists in the calendar. -/
def Valid (d : Date) : Prop :=
  1 ≤ d.month ∧ d.month ≤ 12 ∧ 1 ≤ d.day ∧
    d.day ≤ (monthLengths (isLeapYear d.year)).getD (d.month - 1) 0

instance (d : Date) : Decidable d.Valid := by unfold Valid; infer_instance

/-- The number of a date, counted from the epoch. -/
def toDayNumber (d : Date) : Int :=
  daysBeforeYear d.year + daysBeforeMonth (isLeapYear d.year) d.month + d.day - 1 - daysBeforeEpoch

/-- The month and the day of the month that lie a number of days behind the start of the month
`month`, given the lengths of that month and those after it. -/
def monthAndDay (month : Nat) : List Nat → Nat → Nat × Nat
  | [], days => (month, days + 1)
  | length :: rest, days =>
    if days < length then (month, days + 1) else monthAndDay (month + 1) rest (days - length)

/-- The year that a day lies in, given by the days since 1 January of the year 1, and the days
since 1 January of that year. A cycle of the calendar is 400 years; its centuries, the spans of
four years in them and the years in those are taken off in turn. -/
def yearAndDay (days : Int) : Int × Int :=
  let cycles := days / 146097
  let inCycle := days % 146097
  let centuries := min 3 (inCycle / 36524)
  let inCentury := inCycle - centuries * 36524
  let spans := inCentury / 1461
  let inSpan := inCentury % 1461
  let years := min 3 (inSpan / 365)
  (400 * cycles + 100 * centuries + 4 * spans + years + 1, inSpan - years * 365)

/-- The date with a number counted from the epoch. -/
def ofDayNumber (n : Int) : Date :=
  let (year, days) := yearAndDay (n + daysBeforeEpoch)
  let (month, day) := monthAndDay 1 (monthLengths (isLeapYear year)) days.toNat
  ⟨year, month, day⟩

end Date

/-- The UTC date of an instant. -/
def Instant.date (t : Instant) : Date := .ofDayNumber t.day

end AsOf
