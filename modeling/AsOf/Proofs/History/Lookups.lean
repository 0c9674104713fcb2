import AsOf.Proofs.History.Search

/-!
# Lookups, entry by entry

What the searches of a timeline find, told by going through all of its entries. The floor of a time is the
entry with the greatest number among those that do not lie behind the time. Between the floor and the entry
right behind it there is nothing, so no other entry is closer to the time than both of them, however many
entries share a time.

## Main definitions

* `Instant.gap`: how far two instants lie apart
* `Timeline.ofTimes`: the timeline that arises by pushing times
* `Timeline.IsFloor`, `Timeline.IsNext`: the floor of a time, and the entry right behind it
* `Timeline.IsNearest`: the closer one of the two, the later one if they are equally far

## Main results

* `Timeline.ordered_ofTimes`: a timeline is ordered, whatever was pushed
* `Timeline.Ordered.exists_gap_le`: no entry is closer to a time than its floor and the one right behind
* `Timeline.Ordered.nearest_eq_some_iff`: the timeline finds the closest entry
* `Timeline.lookups_linear`: all lookups of a timeline, told by its entries
-/

namespace AsOf

/-! ## Distances -/

namespace Instant

variable {r s t : Instant}

/-- The nanoseconds between two instants, whichever of them is the earlier one. -/
def gap (s t : Instant) : Nat :=
  ((s.secs - t.secs) * 1000000000 + ((s.nanos : Int) - t.nanos)).natAbs

theorem gap_comm (s t : Instant) : s.gap t = t.gap s := by
  unfold gap
  omega

theorem nanos_lt_of_not_inLeapSecond (h : s.inLeapSecond = false) : s.nanos < 1000000000 := by
  simpa [inLeapSecond] using h

/-- Outside leap seconds the distance is the difference from the earlier instant to the later one. -/
theorem since_eq_gap (hs : s.inLeapSecond = false) (ht : t.inLeapSecond = false) (h : s ≤ t) :
    t.since s = s.gap t := by
  have hs := nanos_lt_of_not_inLeapSecond hs
  have ht := nanos_lt_of_not_inLeapSecond ht
  rw [since_eq hs ht]
  rw [le_def] at h
  unfold gap
  omega

/-- Outside leap seconds an instant in between is closer to the later one than the earlier one is. -/
theorem gap_le_gap (hr : r.inLeapSecond = false) (hs : s.inLeapSecond = false)
    (ht : t.inLeapSecond = false) (hrs : r ≤ s) (hst : s ≤ t) : s.gap t ≤ r.gap t := by
  have hr := nanos_lt_of_not_inLeapSecond hr
  have hs := nanos_lt_of_not_inLeapSecond hs
  have ht := nanos_lt_of_not_inLeapSecond ht
  rw [le_def] at hrs hst
  unfold gap
  omega

/-- Outside leap seconds an instant in between is closer to the earlier one than the later one is. -/
theorem gap_le_gap_of_ge (hr : r.inLeapSecond = false) (hs : s.inLeapSecond = false)
    (ht : t.inLeapSecond = false) (hrs : r ≤ s) (hst : s ≤ t) : s.gap r ≤ t.gap r := by
  have hr := nanos_lt_of_not_inLeapSecond hr
  have hs := nanos_lt_of_not_inLeapSecond hs
  have ht := nanos_lt_of_not_inLeapSecond ht
  rw [le_def] at hrs hst
  unfold gap
  omega

end Instant

namespace Timeline

/-! ## Timelines that arise -/

/-- The timeline after a time was pushed; one that is refused leaves it as it is. -/
def pushed (t : Timeline) (time : Instant) : Timeline := (t.push time).elim t (·.2)

/-- The timeline after times were pushed one after the other. -/
def ofTimes (times : List Instant) : Timeline := times.foldl pushed ⟨#[]⟩

variable {t : Timeline} {time : Instant} {s u : RevisionStamp}

theorem Ordered.pushed (ht : t.Ordered) (time : Instant) : (t.pushed time).Ordered := by
  unfold Timeline.pushed
  cases h : t.push time with
  | none => exact ht
  | some p => exact ht.push h

/-- A timeline is ordered, whatever was pushed. -/
theorem ordered_ofTimes (times : List Instant) : (ofTimes times).Ordered := by
  suffices h : ∀ t : Timeline, t.Ordered → (times.foldl Timeline.pushed t).Ordered from h _ ordered_empty
  induction times with
  | nil => exact fun _ ht => ht
  | cons time times ih => exact fun t ht => ih _ (ht.pushed time)

/-! ## Entries -/

theorem mem_toList_iff : s ∈ t.toList ↔ ∃ i : Nat, t.revisions[i]? = some s := by
  rw [toList, Array.mem_toList_iff, Array.mem_iff_getElem?]

theorem Ordered.mem_toList_iff_get? (ht : t.Ordered) : s ∈ t.toList ↔ t.get? s.number = some s := by
  rw [mem_toList_iff]
  constructor
  · rintro ⟨i, hi⟩
    exact ht.get?_number hi
  · exact fun h => ⟨_, h⟩

/-- The entry that is found by a number is the one that carries it. -/
theorem Ordered.get?_eq_some_iff (ht : t.Ordered) {number : RevisionNumber} :
    t.get? number = some s ↔ s ∈ t.toList ∧ s.number = number := by
  rw [ht.mem_toList_iff_get?]
  constructor
  · intro h
    have hnumber := ht.number_of_get? h
    exact ⟨hnumber ▸ h, hnumber⟩
  · rintro ⟨h, rfl⟩
    exact h

/-- A number carries an entry if it is not greater than the number of entries. -/
theorem exists_get?_iff {number : RevisionNumber} :
    (∃ s, t.get? number = some s) ↔ number.val ≤ t.size := by
  have hpos := number.pos
  rw [← Option.isSome_iff_exists, get?, isSome_getElem?, RevisionNumber.index, size]
  omega

/-! ## The floor and the entry right behind it -/

/-- The entry has the greatest number among those that do not lie behind the time. -/
structure IsFloor (t : Timeline) (time : Instant) (s : RevisionStamp) : Prop where
  mem : s ∈ t.toList
  time_le : s.time ≤ time
  greatest : ∀ u ∈ t.toList, u.time ≤ time → u.number ≤ s.number

/-- All entries lie behind the time. -/
def StartsAfter (t : Timeline) (time : Instant) : Prop := ∀ u ∈ t.toList, time < u.time

/-- The entry stands right behind the floor, or is the first one where there is no floor. -/
structure IsNext (t : Timeline) (time : Instant) (s : RevisionStamp) : Prop where
  mem : s ∈ t.toList
  number_eq : (∃ below, t.IsFloor time below ∧ s.number = below.number.next) ∨
    t.StartsAfter time ∧ s.number = .first

/-- The timeline finds the floor. -/
theorem Ordered.floor_eq_some_iff_isFloor (ht : t.Ordered) :
    t.floor time = some s ↔ t.IsFloor time s := by
  rw [ht.floor_eq_some_iff]
  constructor
  · rintro ⟨hs, hle, hmax⟩
    exact ⟨ht.mem_toList_iff_get?.mpr hs, hle, fun u hu => hmax (ht.mem_toList_iff_get?.mp hu)⟩
  · intro h
    exact ⟨ht.mem_toList_iff_get?.mp h.mem, h.time_le,
      fun hu => h.greatest _ (ht.mem_toList_iff_get?.mpr hu)⟩

/-- The timeline finds no floor exactly if all entries lie behind the time. -/
theorem Ordered.floor_eq_none_iff_startsAfter (ht : t.Ordered) :
    t.floor time = none ↔ t.StartsAfter time := by
  rw [ht.floor_eq_none_iff]
  constructor
  · exact fun h u hu => h (ht.mem_toList_iff_get?.mp hu)
  · exact fun h u hu => h u (ht.mem_toList_iff_get?.mpr hu)

theorem Ordered.isFloor_unique (ht : t.Ordered) (hs : t.IsFloor time s) (hu : t.IsFloor time u) :
    s = u :=
  Option.some.inj
    ((ht.floor_eq_some_iff_isFloor.mpr hs).symm.trans (ht.floor_eq_some_iff_isFloor.mpr hu))

/-- The first entry that the search counts as lying behind the time stands right behind the floor. -/
theorem Ordered.getElem?_partitionPoint_iff (ht : t.Ordered) :
    t.revisions[t.partitionPoint time]? = some s ↔ t.IsNext time s := by
  constructor
  · intro h
    refine ⟨mem_toList_iff.mpr ⟨_, h⟩, ?_⟩
    have hindex := ht.index_eq h
    cases hfloor : t.floor time with
    | some below =>
      refine .inl ⟨below, ht.floor_eq_some_iff_isFloor.mp hfloor, ?_⟩
      apply RevisionNumber.index_injective
      rw [hindex, RevisionNumber.index_next, ht.val_floor hfloor]
    | none =>
      refine .inr ⟨ht.floor_eq_none_iff_startsAfter.mp hfloor, ?_⟩
      apply RevisionNumber.index_injective
      rw [hindex, ht.partitionPoint_of_floor_eq_none hfloor, RevisionNumber.index_first]
  · rintro ⟨hmem, hnumber⟩
    have hget : t.revisions[s.number.index]? = some s := ht.mem_toList_iff_get?.mp hmem
    suffices hindex : s.number.index = t.partitionPoint time from hindex ▸ hget
    rcases hnumber with ⟨below, hbelow, hnext⟩ | ⟨hafter, hfirst⟩
    · rw [hnext, RevisionNumber.index_next, ht.val_floor (ht.floor_eq_some_iff_isFloor.mpr hbelow)]
    · rw [hfirst, RevisionNumber.index_first,
        ht.partitionPoint_of_floor_eq_none (ht.floor_eq_none_iff_startsAfter.mpr hafter)]

theorem Ordered.isNext_unique (ht : t.Ordered) (hs : t.IsNext time s) (hu : t.IsNext time u) : s = u :=
  Option.some.inj
    ((ht.getElem?_partitionPoint_iff.mpr hs).symm.trans (ht.getElem?_partitionPoint_iff.mpr hu))

/-- The entry right behind the floor lies behind the time. -/
theorem Ordered.lt_of_isNext (ht : t.Ordered) (hs : t.IsNext time s) : time < s.time := by
  have hget := ht.getElem?_partitionPoint_iff.mpr hs
  refine Instant.not_le.mp fun hle => ?_
  exact Nat.lt_irrefl _ ((ht.time_le_iff hget).mp hle)

/-- Where an entry does not lie behind the time, there is a floor, and it lies between them. -/
theorem Ordered.exists_isFloor (ht : t.Ordered) (hu : u ∈ t.toList) (hle : u.time ≤ time) :
    ∃ below, t.IsFloor time below ∧ u.time ≤ below.time := by
  cases hfloor : t.floor time with
  | none => exact absurd hle (Instant.not_le.mpr (ht.floor_eq_none_iff_startsAfter.mp hfloor u hu))
  | some below =>
    have hbelow := ht.floor_eq_some_iff_isFloor.mp hfloor
    have hmem := ht.mem_toList_iff_get?.mp hbelow.mem
    have hnumber := hbelow.greatest u hu hle
    exact ⟨below, hbelow, ht.time_le_of_number_le (ht.mem_toList_iff_get?.mp hu) hmem hnumber⟩

/-- Where an entry lies behind the time, there is one right behind the floor, and it lies between them. -/
theorem Ordered.exists_isNext (ht : t.Ordered) (hu : u ∈ t.toList) (hlt : time < u.time) :
    ∃ above, t.IsNext time above ∧ above.time ≤ u.time := by
  obtain ⟨i, hi⟩ := mem_toList_iff.mp hu
  have hle : t.partitionPoint time ≤ i := by
    refine Nat.le_of_not_lt fun h => ?_
    exact Instant.not_le.mpr hlt ((ht.time_le_iff hi).mpr h)
  have hsize := (Array.getElem?_eq_some_iff.mp hi).1
  have habove := Array.getElem?_eq_getElem (Nat.lt_of_le_of_lt hle hsize)
  exact ⟨_, ht.getElem?_partitionPoint_iff.mp habove, ht.time_le habove hi hle⟩

/-! ## The closest entry -/

/-- The entry is the floor of the time or the one right behind it. No entry is closer to the time, and if
those two are equally far from it, it is the later one. -/
structure IsNearest (t : Timeline) (time : Instant) (s : RevisionStamp) : Prop where
  beside : t.IsFloor time s ∨ t.IsNext time s
  closest : ∀ u ∈ t.toList, s.time.gap time ≤ u.time.gap time
  later : ∀ below above, t.IsFloor time below → t.IsNext time above →
    below.time.gap time = above.time.gap time → s = above

theorem IsNearest.mem (h : t.IsNearest time s) : s ∈ t.toList := h.beside.elim (·.mem) (·.mem)

/-- A time has one closest entry. -/
theorem Ordered.isNearest_unique (ht : t.Ordered) (hs : t.IsNearest time s) (hu : t.IsNearest time u) :
    s = u := by
  have heq : s.time.gap time = u.time.gap time :=
    Nat.le_antisymm (hs.closest u hu.mem) (hu.closest s hs.mem)
  rcases hs.beside with hsfloor | hsnext <;> rcases hu.beside with hufloor | hunext
  · exact ht.isFloor_unique hsfloor hufloor
  · exact hs.later s u hsfloor hunext heq
  · exact (hu.later u s hufloor hsnext heq.symm).symm
  · exact ht.isNext_unique hsnext hunext

/-- What the timeline finds to be the closest entry is the floor or the one right behind it. -/
theorem Ordered.beside_of_nearest (ht : t.Ordered) (h : t.nearest time = some s) :
    t.IsFloor time s ∨ t.IsNext time s := by
  unfold nearest at h
  split at h
  · next below above hbelow habove =>
    split at h
    · exact .inl (ht.floor_eq_some_iff_isFloor.mp (hbelow.trans h))
    · exact .inr (ht.getElem?_partitionPoint_iff.mp (habove.trans h))
  · next below hbelow _ => exact .inl (ht.floor_eq_some_iff_isFloor.mp (hbelow.trans h))
  · exact .inr (ht.getElem?_partitionPoint_iff.mp h)

/-- The timeline finds no closest entry exactly if there is no entry. -/
theorem Ordered.nearest_eq_none_iff (ht : t.Ordered) : t.nearest time = none ↔ t.toList = [] := by
  constructor
  · intro h
    have hfloor := floor_eq_none_of_nearest_eq_none h
    have hnext : t.revisions[t.partitionPoint time]? = none := by
      rwa [nearest, hfloor] at h
    refine List.eq_nil_iff_forall_not_mem.mpr fun u hu => ?_
    -- An entry would have the floor or the one right behind it next to it.
    by_cases hle : u.time ≤ time
    · obtain ⟨below, hbelow, -⟩ := ht.exists_isFloor hu hle
      cases hfloor.symm.trans (ht.floor_eq_some_iff_isFloor.mpr hbelow)
    · obtain ⟨above, habove, -⟩ := ht.exists_isNext hu (Instant.not_le.mp hle)
      cases hnext.symm.trans (ht.getElem?_partitionPoint_iff.mpr habove)
  · intro h
    cases hnearest : t.nearest time with
    | none => rfl
    | some s =>
      have hmem : s ∈ t.toList := (ht.beside_of_nearest hnearest).elim (·.mem) (·.mem)
      rw [h] at hmem
      cases hmem

section OutsideLeapSeconds

variable (htime : time.inLeapSecond = false) (hplain : ∀ u ∈ t.toList, u.time.inLeapSecond = false)
include htime hplain

/-- The floor or the entry right behind it is as close to the time as any other entry. -/
theorem Ordered.exists_gap_le (ht : t.Ordered) (hu : u ∈ t.toList) :
    (∃ below, t.IsFloor time below ∧ below.time.gap time ≤ u.time.gap time) ∨
      ∃ above, t.IsNext time above ∧ above.time.gap time ≤ u.time.gap time := by
  by_cases hle : u.time ≤ time
  · obtain ⟨below, hbelow, hub⟩ := ht.exists_isFloor hu hle
    have hgap := Instant.gap_le_gap (hplain u hu) (hplain below hbelow.mem) htime hub hbelow.time_le
    exact .inl ⟨below, hbelow, hgap⟩
  · obtain ⟨above, habove, hau⟩ := ht.exists_isNext hu (Instant.not_le.mp hle)
    have hta := Instant.le_of_lt (ht.lt_of_isNext habove)
    have hgap := Instant.gap_le_gap_of_ge htime (hplain above habove.mem) (hplain u hu) hta hau
    exact .inr ⟨above, habove, hgap⟩

/-- The floor is closest to the time if it is strictly closer than the entry right behind it. -/
theorem Ordered.isNearest_of_isFloor (ht : t.Ordered) (hs : t.IsFloor time s)
    (hcloser : ∀ above, t.IsNext time above → s.time.gap time < above.time.gap time) :
    t.IsNearest time s := by
  refine ⟨.inl hs, fun u hu => ?_, fun below above hbelow habove heq => ?_⟩
  · rcases ht.exists_gap_le htime hplain hu with ⟨below, hbelow, hle⟩ | ⟨above, habove, hle⟩
    · exact ht.isFloor_unique hbelow hs ▸ hle
    · exact Nat.le_trans (Nat.le_of_lt (hcloser above habove)) hle
  · rw [ht.isFloor_unique hbelow hs] at heq
    exact absurd heq (Nat.ne_of_lt (hcloser above habove))

/-- The entry right behind the floor is closest to the time if the floor is not closer. -/
theorem Ordered.isNearest_of_isNext (ht : t.Ordered) (hs : t.IsNext time s)
    (hcloser : ∀ below, t.IsFloor time below → s.time.gap time ≤ below.time.gap time) :
    t.IsNearest time s := by
  refine ⟨.inr hs, fun u hu => ?_, fun _ above _ habove _ => ht.isNext_unique hs habove⟩
  rcases ht.exists_gap_le htime hplain hu with ⟨below, hbelow, hle⟩ | ⟨above, habove, hle⟩
  · exact Nat.le_trans (hcloser below hbelow) hle
  · exact ht.isNext_unique habove hs ▸ hle

/-- The floor is strictly closer to the time than the entry right behind it exactly if the difference up to
the time is less than the one from there on. -/
theorem Ordered.since_lt_since_iff (ht : t.Ordered) (hs : t.IsFloor time s) (hu : t.IsNext time u) :
    time.since s.time < u.time.since time ↔ s.time.gap time < u.time.gap time := by
  have hlt := ht.lt_of_isNext hu
  rw [Instant.since_eq_gap (hplain s hs.mem) htime hs.time_le,
    Instant.since_eq_gap htime (hplain u hu.mem) (Instant.le_of_lt hlt), Instant.gap_comm time u.time,
    Int.ofNat_lt]

/-- What the timeline finds is closest to the time. -/
theorem Ordered.isNearest_of_nearest (ht : t.Ordered) (h : t.nearest time = some s) :
    t.IsNearest time s := by
  unfold nearest at h
  split at h
  · next below above hbelow habove =>
    have hbelow := ht.floor_eq_some_iff_isFloor.mp hbelow
    have habove := ht.getElem?_partitionPoint_iff.mp habove
    have hcloser := ht.since_lt_since_iff htime hplain hbelow habove
    split at h
    · next hlt =>
      obtain rfl := Option.some.inj h
      refine ht.isNearest_of_isFloor htime hplain hbelow fun a ha => ?_
      exact ht.isNext_unique ha habove ▸ hcloser.mp hlt
    · next hnot =>
      obtain rfl := Option.some.inj h
      refine ht.isNearest_of_isNext htime hplain habove fun b hb => ?_
      exact ht.isFloor_unique hb hbelow ▸ Nat.le_of_not_lt (mt hcloser.mpr hnot)
  · next below hbelow hnone =>
    obtain rfl := Option.some.inj h
    refine ht.isNearest_of_isFloor htime hplain (ht.floor_eq_some_iff_isFloor.mp hbelow) fun a ha => ?_
    cases hnone.symm.trans (ht.getElem?_partitionPoint_iff.mpr ha)
  · next hnone =>
    refine ht.isNearest_of_isNext htime hplain (ht.getElem?_partitionPoint_iff.mp h) fun b hb => ?_
    cases hnone.symm.trans (ht.floor_eq_some_iff_isFloor.mpr hb)

/-- The timeline finds the closest entry. -/
theorem Ordered.nearest_eq_some_iff (ht : t.Ordered) :
    t.nearest time = some s ↔ t.IsNearest time s := by
  constructor
  · exact ht.isNearest_of_nearest htime hplain
  · intro hs
    cases hnearest : t.nearest time with
    | none =>
      have hmem := hs.mem
      rw [ht.nearest_eq_none_iff.mp hnearest] at hmem
      cases hmem
    | some u =>
      have hu := ht.isNearest_of_nearest htime hplain hnearest
      exact congrArg some (ht.isNearest_unique hu hs)

end OutsideLeapSeconds

/-- **Lookups tell what the entries tell.** Take any timeline that arose by pushing times, refused ones among
them, and any time. The floor is the entry with the greatest number among those that do not lie behind the
time, and there is none exactly if all entries do. There is a closest entry unless there is no entry at all,
and it is the floor or the one right behind it, or the first one where there is no floor. Outside leap seconds
it is the one entry of these two that no entry is closer than, and the later one if both are equally far. A
number finds the entry that carries it, and finds one exactly if it is not greater than the number of
entries. -/
theorem lookups_linear (times : List Instant) (time : Instant) :
    let t := ofTimes times
    (∀ s, t.floor time = some s ↔ t.IsFloor time s) ∧
    (t.floor time = none ↔ t.StartsAfter time) ∧
    (t.nearest time = none ↔ t.toList = []) ∧
    (∀ s, t.nearest time = some s → t.IsFloor time s ∨ t.IsNext time s) ∧
    (time.inLeapSecond = false → (∀ u ∈ t.toList, u.time.inLeapSecond = false) →
      ∀ s, t.nearest time = some s ↔ t.IsNearest time s) ∧
    ∀ number, (∀ s, t.get? number = some s ↔ s ∈ t.toList ∧ s.number = number) ∧
      ((∃ s, t.get? number = some s) ↔ number.val ≤ t.size) := by
  intro t
  have ht : t.Ordered := ordered_ofTimes times
  refine ⟨fun s => ht.floor_eq_some_iff_isFloor, ht.floor_eq_none_iff_startsAfter, ht.nearest_eq_none_iff,
    fun s => ht.beside_of_nearest, ?_, fun number => ⟨fun s => ht.get?_eq_some_iff, exists_get?_iff⟩⟩
  intro htime hplain s
  exact ht.nearest_eq_some_iff htime hplain

/-- Between two entries at one time and the next one, with a refused time among them. -/
theorem lookups_linear_halfway :
    let t := ofTimes [⟨10, 0, by decide⟩, ⟨20, 0, by decide⟩, ⟨20, 0, by decide⟩, ⟨15, 0, by decide⟩,
      ⟨30, 0, by decide⟩]
    let time : Instant := ⟨25, 0, by decide⟩
    time.inLeapSecond = false ∧ (∀ u ∈ t.toList, u.time.inLeapSecond = false) ∧
      t.IsFloor time ⟨⟨3, by decide⟩, ⟨20, 0, by decide⟩⟩ ∧
      t.IsNearest time ⟨⟨4, by decide⟩, ⟨30, 0, by decide⟩⟩ := by
  intro t time
  have htime : time.inLeapSecond = false := by decide
  have hplain : ∀ u ∈ t.toList, u.time.inLeapSecond = false := by decide
  obtain ⟨hfloor, -, -, -, hnearest, -⟩ := lookups_linear
    [⟨10, 0, by decide⟩, ⟨20, 0, by decide⟩, ⟨20, 0, by decide⟩, ⟨15, 0, by decide⟩, ⟨30, 0, by decide⟩] time
  exact ⟨htime, hplain, (hfloor _).mp (by decide +kernel), (hnearest htime hplain _).mp (by decide +kernel)⟩

end Timeline

end AsOf
