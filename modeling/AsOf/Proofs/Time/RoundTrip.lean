import AsOf.Proofs.Text.Basic
import AsOf.Time.Instant
import AsOf.Time.Text
import Mathlib.Algebra.Ring.Nat
import Mathlib.Data.List.TakeWhile

/-!
# Times that are written and read

Every day has one date. So an instant that is written is read again as the start of its second, where its year
has four digits.

## Main definitions

* `Instant.OnClock`: a leap second ends a minute
* `Instant.wholeSecond`: the start of the second of an instant

## Main results

* `Date.valid_ofDayNumber`: the date with a number exists
* `Date.toDayNumber_ofDayNumber`: its number is that number
* `Instant.readExact?_rfc3339`, `Instant.readExact?_rfc3339_eq_none`: what was written is read again
* `Instant.onClock_of_readLenient?`: what is read is on the clock
-/

namespace AsOf

open Text

/-! ## Dates and their numbers

Every day has one date: the date with a number exists in the calendar, and has that number. A day is
split into its year and the day in it, and that into the month and the day of the month. Each part is
counted in full where the next one starts, so putting the parts together gives the number back. -/

namespace Date

/-- The length of a year in days. -/
def yearLength (leap : Bool) : Nat := if leap then 366 else 365

theorem sum_monthLengths (leap : Bool) : (monthLengths leap).sum = yearLength leap := by
  cases leap <;> rfl

theorem daysBeforeMonth_eq (leap : Bool) (month : Nat) :
    daysBeforeMonth leap month = ((monthLengths leap).take (month - 1)).sum :=
  List.sum_eq_foldl_nat.symm

/-- No month has more than 31 days. -/
theorem Valid.day_le {d : Date} (h : d.Valid) : d.day ≤ 31 := by
  obtain ⟨hfirst, hlast, -, hday⟩ := h
  have hlengths : ∀ leap : Bool, ∀ i < 12, (monthLengths leap).getD i 0 ≤ 31 := by decide
  exact Nat.le_trans hday (hlengths _ _ (by omega))

/-! ### Years -/

/-- The years of a cycle in order: the fourth of each span is a leap year, except for the last one of the
first three centuries. -/
theorem isLeapYear_eq {c k s a : Int} (hk : 0 ≤ k ∧ k ≤ 3) (hs : 0 ≤ s ∧ s ≤ 24)
    (ha : 0 ≤ a ∧ a ≤ 3) :
    isLeapYear (400 * c + 100 * k + 4 * s + a + 1) = true ↔ a = 3 ∧ (s ≤ 23 ∨ k = 3) := by
  simp only [isLeapYear, Bool.and_eq_true, Bool.or_eq_true, beq_iff_eq, bne_iff_ne]
  omega

/-- The days in front of a year in the cycle. -/
theorem daysBeforeYear_eq {c k s a : Int} (hk : 0 ≤ k ∧ k ≤ 3) (hs : 0 ≤ s ∧ s ≤ 24)
    (ha : 0 ≤ a ∧ a ≤ 3) :
    daysBeforeYear (400 * c + 100 * k + 4 * s + a + 1) =
      146097 * c + 36524 * k + 1461 * s + 365 * a := by
  have hfour : (400 * c + 100 * k + 4 * s + a) / 4 = 100 * c + 25 * k + s := by omega
  have hhundred : (400 * c + 100 * k + 4 * s + a) / 100 = 4 * c + k := by omega
  have hcycle : (400 * c + 100 * k + 4 * s + a) / 400 = c := by omega
  rw [daysBeforeYear, Int.add_sub_cancel, hfour, hhundred, hcycle]
  omega

/-- The year of a day has begun by it, and has not ended. -/
theorem yearAndDay_spec (days : Int) :
    daysBeforeYear (yearAndDay days).1 + (yearAndDay days).2 = days ∧
      0 ≤ (yearAndDay days).2 ∧
      (yearAndDay days).2 < (yearLength (isLeapYear (yearAndDay days).1) : Nat) := by
  -- Four quotients name the year. The bound of three keeps the last day of a cycle or a span in it.
  rw [yearAndDay]
  generalize hc : days / 146097 = c
  generalize hk : min 3 (days % 146097 / 36524) = k
  generalize hs : (days % 146097 - k * 36524) / 1461 = s
  generalize ha : min 3 ((days % 146097 - k * 36524) % 1461 / 365) = a
  have hk' : 0 ≤ k ∧ k ≤ 3 := by omega
  have hs' : 0 ≤ s ∧ s ≤ 24 := by omega
  have ha' : 0 ≤ a ∧ a ≤ 3 := by omega
  rw [daysBeforeYear_eq hk' hs' ha']
  refine ⟨by omega, by omega, ?_⟩
  -- Only the last day of a leap year lies 365 days behind the first.
  by_cases hleap : a = 3 ∧ (s ≤ 23 ∨ k = 3)
  · rw [(isLeapYear_eq hk' hs' ha').mpr hleap, yearLength, if_pos rfl]
    omega
  · rw [Bool.eq_false_iff.mpr (mt (isLeapYear_eq hk' hs' ha').mp hleap), yearLength,
      if_neg Bool.false_ne_true]
    omega

/-! ### Months -/

/-- The month of a day has begun by it, and has not ended. -/
theorem monthAndDay_spec {lengths : List Nat} {days : Nat} (h : days < lengths.sum) (month : Nat) :
    ∃ i, (monthAndDay month lengths days).1 = month + i ∧ i < lengths.length ∧
      1 ≤ (monthAndDay month lengths days).2 ∧
      (monthAndDay month lengths days).2 ≤ lengths.getD i 0 ∧
      (lengths.take i).sum + (monthAndDay month lengths days).2 = days + 1 := by
  induction lengths generalizing month days with
  | nil => exact absurd h (Nat.not_lt_zero _)
  | cons length rest ih =>
    rw [monthAndDay]
    split
    · next hlt => exact ⟨0, rfl, Nat.succ_pos _, Nat.succ_pos _, hlt, Nat.zero_add _⟩
    · next hle =>
      rw [List.sum_cons] at h
      have hrest : days - length < rest.sum := by omega
      obtain ⟨i, hmonth, hi, hpos, hday, hsum⟩ := ih hrest (month + 1)
      refine ⟨i + 1, by omega, Nat.succ_lt_succ hi, hpos, hday, ?_⟩
      rw [List.take_succ_cons, List.sum_cons]
      omega

/-! ### Dates -/

/-- The date in a year that lies a number of days behind its first one. -/
def ofYearAndDay (year : Int) (days : Nat) : Date :=
  ⟨year, (monthAndDay 1 (monthLengths (isLeapYear year)) days).1,
    (monthAndDay 1 (monthLengths (isLeapYear year)) days).2⟩

theorem ofDayNumber_eq (n : Int) : ofDayNumber n =
    ofYearAndDay (yearAndDay (n + daysBeforeEpoch)).1 (yearAndDay (n + daysBeforeEpoch)).2.toNat :=
  rfl

theorem ofYearAndDay_spec {year : Int} {days : Nat} (h : days < yearLength (isLeapYear year)) :
    (ofYearAndDay year days).Valid ∧
      (ofYearAndDay year days).toDayNumber = daysBeforeYear year + days - daysBeforeEpoch := by
  rw [← sum_monthLengths] at h
  obtain ⟨i, hmonth, hi, hpos, hday, hsum⟩ := monthAndDay_spec h 1
  have hmonth : (ofYearAndDay year days).month = 1 + i := hmonth
  have hindex : (ofYearAndDay year days).month - 1 = i := by rw [hmonth, Nat.add_sub_cancel_left]
  have hi : i < 12 := hi
  have hsum : (((monthLengths (isLeapYear year)).take i).sum : Int) + (ofYearAndDay year days).day =
      days + 1 := by exact_mod_cast hsum
  constructor
  · exact ⟨by omega, by omega, hpos, hindex.symm ▸ hday⟩
  · rw [toDayNumber, daysBeforeMonth_eq, hindex]
    show daysBeforeYear year + (((monthLengths (isLeapYear year)).take i).sum : Nat) +
      (ofYearAndDay year days).day - 1 - daysBeforeEpoch = _
    omega

theorem ofDayNumber_spec (n : Int) : (ofDayNumber n).Valid ∧ (ofDayNumber n).toDayNumber = n := by
  obtain ⟨hyear, hstart, hend⟩ := yearAndDay_spec (n + daysBeforeEpoch)
  have hend : (yearAndDay (n + daysBeforeEpoch)).2.toNat <
      yearLength (isLeapYear (yearAndDay (n + daysBeforeEpoch)).1) := by omega
  obtain ⟨hvalid, hnumber⟩ := ofYearAndDay_spec hend
  rw [ofDayNumber_eq]
  exact ⟨hvalid, by omega⟩

/-- The date with a number exists in the calendar. -/
theorem valid_ofDayNumber (n : Int) : (ofDayNumber n).Valid := (ofDayNumber_spec n).1

/-- The number of the date with a number is that number. -/
theorem toDayNumber_ofDayNumber (n : Int) : (ofDayNumber n).toDayNumber = n := (ofDayNumber_spec n).2

end Date

/-! ## Reading what was written

An instant written without digits of the second is read again as the start of its second, if its year
has four digits. A year outside 0 to 9999 is written with a sign, which the exact grammar has no place
for.

Leap seconds come back only where they end a minute, since the second 60 is the one behind 59. Both
grammars read no others. -/

namespace Instant

/-- The instant is one that a clock shows: leap seconds end minutes. -/
def OnClock (t : Instant) : Prop := t.inLeapSecond = true → t.secs % 60 = 59

/-- The start of the second that the instant lies in. -/
def wholeSecond (t : Instant) : Instant :=
  ⟨t.secs, if t.inLeapSecond then 1000000000 else 0, by split <;> decide⟩

theorem wholeSecond_le (t : Instant) : t.wholeSecond ≤ t := by
  refine .inr ⟨rfl, ?_⟩
  show (if t.inLeapSecond then 1000000000 else 0) ≤ t.nanos
  split
  · next h => exact of_decide_eq_true h
  · exact Nat.zero_le _

end Instant

namespace TimeReader

/-! ### Parts -/

theorem number_padded {w n : Nat} (hw : 0 < w) (h : n < 10 ^ w) (rest : List Char) :
    number w w (padded w n ++ rest) = some (n, rest) := by
  have hlength := length_padded hw h
  have hdigits : ((padded w n ++ rest).take w).takeWhile Char.isDigit = padded w n := by
    rw [List.take_left' hlength, List.takeWhile_eq_self_iff]
    exact fun c hc => isDigit_of_mem_padded hc
  rw [number]
  simp only [hdigits, hlength, Nat.lt_irrefl, if_false, numeralValue_padded, List.drop_left' hlength]

/-- No number starts with a sign. -/
theorem number_of_not_isDigit {c : Char} (hc : c.isDigit = false) {w : Nat} (hw : 0 < w)
    (cs : List Char) : number w w (c :: cs) = none := by
  obtain ⟨w, rfl⟩ := Nat.exists_eq_add_one.mpr hw
  simp [number, hc]

/-- The digits of a second are read as less than a second. -/
theorem subsecond_lt {cs rest : List Char} {nanos : Nat} (h : subsecond cs = some (nanos, rest)) :
    nanos < 1000000000 := by
  unfold subsecond at h
  split at h
  · next cs =>
    obtain ⟨-, h⟩ := Option.ite_none_left_eq_some.mp h
    obtain ⟨rfl, -⟩ := Prod.mk.inj (Option.some.inj h)
    refine Nat.lt_of_lt_of_le (numeralValue_lt fun c hc => ?_)
      (Nat.pow_le_pow_right (by decide) (List.length_take_le 9 _))
    rcases List.mem_append.mp (List.mem_of_mem_take hc) with hc | hc
    · exact List.mem_takeWhile_imp hc
    · rw [List.eq_of_mem_replicate hc]
      decide
  · obtain ⟨rfl, -⟩ := Prod.mk.inj (Option.some.inj h)
    decide

/-- Offsets are counted in minutes. -/
theorem offset_emod {between : List Char → Option (List Char)} {cs rest : List Char} {seconds : Int}
    (h : offset between cs = some (seconds, rest)) : seconds % 60 = 0 := by
  unfold offset at h
  split at h
  · cases h
  · split at h
    · obtain ⟨rfl, -⟩ := Prod.mk.inj (Option.some.inj h)
      rfl
    · split at h
      · simp only [Option.bind_eq_bind, Option.bind_eq_some_iff] at h
        obtain ⟨⟨hours, _⟩, -, _, -, ⟨minutes, _⟩, -, h⟩ := h
        split at h
        · obtain ⟨rfl, -⟩ := Prod.mk.inj (Option.some.inj h)
          split <;> omega
        · cases h
      · cases h

theorem zone_emod {cs rest : List Char} {seconds : Int} (h : zone cs = some (seconds, rest)) :
    seconds % 60 = 0 := by
  unfold zone at h
  split at h
  · split at h
    · obtain ⟨rfl, -⟩ := Prod.mk.inj (Option.some.inj h)
      rfl
    · exact offset_emod h
  · exact offset_emod h

@[simp]
theorem char_self (c : Char) (cs : List Char) : char c (c :: cs) = some cs := if_pos rfl

/-! ### Whole texts -/

/-- A date with a year of four digits and a time of day are read as they were written. -/
theorem exact_print {d : Date} {hour minute second : Nat} (hd : d.Valid)
    (hyear : 0 ≤ d.year ∧ d.year ≤ 9999) (hhour : hour < 24) (hminute : minute < 60)
    (hsecond : second ≤ 60) :
    exact (d.print ++ 'T' :: (padded 2 hour ++ ':' :: padded 2 minute ++ ':' :: padded 2 second) ++
      ['Z']) = some (⟨d, hour, minute, second, 0, 0⟩, []) := by
  have two {n : Nat} (hn : n < 100) (rest : List Char) :
      number 2 2 (padded 2 n ++ rest) = some (n, rest) := number_padded (by decide) hn rest
  have hmonth : d.month < 100 := Nat.lt_of_le_of_lt hd.2.1 (by decide)
  have hday : d.day < 100 := Nat.lt_of_le_of_lt hd.day_le (by decide)
  have hseparator (cs : List Char) : separator ('T' :: cs) = some cs := rfl
  have hsubsecond : subsecond ['Z'] = some (0, ['Z']) := rfl
  have hoffset : offset (char ':') ['Z'] = some (0, []) := rfl
  have hfour : (d.year.toNat : Int) = d.year := Int.toNat_of_nonneg hyear.1
  rw [exact, Date.print, Date.printYear, if_pos hyear]
  simp only [List.append_assoc, List.cons_append]
  rw [number_padded (by decide) (by omega)]
  simp only [Option.bind_eq_bind, Option.bind_some, char_self, hseparator, hsubsecond, hoffset, hfour,
    two hmonth, two hday, two (show hour < 100 by omega), two (show minute < 100 by omega),
    two (show second < 100 by omega)]
  rfl

/-- A year with a sign is not read. -/
theorem exact_print_eq_none {d : Date} (hyear : ¬(0 ≤ d.year ∧ d.year ≤ 9999)) (rest : List Char) :
    exact (d.print ++ rest) = none := by
  have hsign (c : Char) (hc : c.isDigit = false) (cs : List Char) : exact (c :: cs) = none := by
    rw [exact, number_of_not_isDigit hc (by decide)]
    rfl
  rw [Date.print, Date.printYear, if_neg hyear]
  split
  · exact hsign _ rfl _
  · exact hsign _ rfl _

theorem lenient_spec {cs rest : List Char} {z : ZonedTime} (h : lenient cs = some (z, rest)) :
    z.nanos < 1000000000 ∧ z.offset % 60 = 0 := by
  simp only [lenient, Option.bind_eq_bind, Option.bind_eq_some_iff] at h
  -- Only the digits of the second and the offset matter, the last two of the thirteen parts.
  obtain ⟨_, -, _, -, _, -, _, -, _, -, _, -, _, -, _, -, _, -, _, -, _, -, subsecond, hsubsecond,
    zone, hzone, h⟩ := h
  obtain ⟨rfl, -⟩ := Prod.mk.inj (Option.some.inj h)
  exact ⟨subsecond_lt hsubsecond, zone_emod hzone⟩

end TimeReader

/-- A leap second is read as the second behind the 59th, whichever minute of the hour it is in UTC. -/
theorem ZonedTime.onClock_of_instant? {z : ZonedTime} {t : Instant} (hnanos : z.nanos < 1000000000)
    (hoffset : z.offset % 60 = 0) (h : z.instant? = some t) : t.OnClock := by
  rw [ZonedTime.instant?] at h
  obtain ⟨-, h⟩ := Option.ite_none_right_eq_some.mp h
  obtain ⟨h, -⟩ := Option.filter_eq_some_iff.mp h
  unfold Instant.ofParts? at h
  obtain ⟨_, h⟩ := Option.dite_none_right_eq_some.mp h
  obtain rfl := Option.some.inj h
  intro hleap
  have hleap := of_decide_eq_true hleap
  -- Fewer nanoseconds than a second were read, so it is the second 60 that makes it a leap second.
  by_cases hsixty : z.second = 60
  · simp only [hsixty, if_true]
    omega
  · simp only [hsixty, if_false] at hleap
    omega

namespace Instant

variable {t : Instant}

theorem onClock_of_readLenient? {s : String} (h : readLenient? s = some t) :
    t.OnClock := by
  rw [readLenient?, TimeReader.whole] at h
  obtain ⟨⟨z, rest⟩, hz, h⟩ := Option.bind_eq_some_iff.mp h
  obtain ⟨hnanos, hoffset⟩ := TimeReader.lenient_spec hz
  obtain ⟨-, h⟩ := Option.ite_none_right_eq_some.mp h
  exact z.onClock_of_instant? hnanos hoffset h

theorem ofParts?_eq (t : Instant) : ofParts? t.secs t.nanos = some t := dif_pos t.nanos_lt

theorem hour_lt (t : Instant) : t.secondOfDay.toNat / 3600 < 24 := by
  have : t.secondOfDay < 86400 := Int.emod_lt_of_pos _ (by decide)
  omega

theorem minute_lt (t : Instant) : t.secondOfDay.toNat / 60 % 60 < 60 := Nat.mod_lt _ (by decide)

/-- The second of the minute as it is written. -/
def writtenSecond (t : Instant) : Nat :=
  t.secondOfDay.toNat % 60 + if t.inLeapSecond then 1 else 0

theorem writtenSecond_le (t : Instant) : t.writtenSecond ≤ 60 := by
  unfold writtenSecond
  split <;> omega

/-- The second 60 is written in leap seconds and in no others. -/
theorem OnClock.writtenSecond_eq (h : t.OnClock) :
    (t.writtenSecond = 60 ↔ t.inLeapSecond = true) ∧
      (if t.writtenSecond = 60 then 59 else t.writtenSecond) = t.secondOfDay.toNat % 60 := by
  unfold writtenSecond
  cases hleap : t.inLeapSecond with
  | false =>
    have hne : t.secondOfDay.toNat % 60 ≠ 60 := by omega
    simp [hne]
  | true =>
    have hlast := h hleap
    have hlast : t.secondOfDay.toNat % 60 = 59 := by
      rw [secondOfDay]
      omega
    simp [hlast]

/-- The parts that an instant is written in name the start of its second. -/
theorem instant?_parts (h : t.OnClock) (hyear : 0 ≤ t.date.year ∧ t.date.year ≤ 9999) :
    ZonedTime.instant? ⟨t.date, t.secondOfDay.toNat / 3600, t.secondOfDay.toNat / 60 % 60,
      t.writtenSecond, 0, 0⟩ = some t.wholeSecond := by
  obtain ⟨hsixty, hsecond⟩ := h.writtenSecond_eq
  have hrange : Date.inRange t.date.year = true := by
    simp only [Date.inRange, Bool.and_eq_true, decide_eq_true_eq]
    omega
  have hsecs : t.date.toDayNumber * 86400 + (t.secondOfDay.toNat / 3600 : Nat) * 3600 +
      (t.secondOfDay.toNat / 60 % 60 : Nat) * 60 +
      (if t.writtenSecond = 60 then 59 else t.writtenSecond : Nat) - 0 = t.wholeSecond.secs := by
    show _ = t.secs
    rw [hsecond, show t.date.toDayNumber = t.secs / 86400 from Date.toDayNumber_ofDayNumber t.day,
      secondOfDay]
    omega
  have hnanos : (if t.writtenSecond = 60 then 0 + 1000000000 else 0) = t.wholeSecond.nanos := by
    simp only [hsixty]
    rfl
  rw [ZonedTime.instant?, if_pos ⟨Date.valid_ofDayNumber t.day, hrange, t.hour_lt, t.minute_lt,
    t.writtenSecond_le, (by decide : (0 : Int).natAbs < 86400)⟩]
  simp only [hsecs, hnanos, ofParts?_eq]
  exact Option.filter_eq_some_iff.mpr ⟨rfl, hrange⟩

/-- What was written is read again, up to the digits of the second that were cut off. -/
theorem readExact?_rfc3339 (h : t.OnClock) (hyear : 0 ≤ t.date.year ∧ t.date.year ≤ 9999) :
    readExact? (t.rfc3339 .seconds) = some t.wholeSecond := by
  have hexact := TimeReader.exact_print (Date.valid_ofDayNumber t.day) hyear t.hour_lt t.minute_lt
    t.writtenSecond_le
  have htext : (t.rfc3339 .seconds).toList = t.date.print ++ 'T' :: t.printTime ++ ['Z'] := by
    rw [rfc3339, String.toList_ofList, printSubsecond, List.append_nil]
  rw [readExact?, TimeReader.whole, htext, printTime]
  exact (congrArg (Option.bind · _) hexact).trans (instant?_parts h hyear)

theorem readExact?_rfc3339_eq_none (hyear : ¬(0 ≤ t.date.year ∧ t.date.year ≤ 9999)) :
    readExact? (t.rfc3339 .seconds) = none := by
  rw [readExact?, TimeReader.whole, rfc3339, String.toList_ofList]
  simp only [List.append_assoc]
  rw [TimeReader.exact_print_eq_none hyear]
  rfl

end Instant

end AsOf
