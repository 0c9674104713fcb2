import AsOf.Lookup.Snapshot
import AsOf.Proofs.Journal.Effect
import AsOf.Proofs.Resource.Run

/-!
# Lookups for reading

The snapshot that a lookup for reading finds is told by the sealed history alone.

## Main definitions

* `Observed.foundRecords`, `Observed.absentRecords`: how a lookup is told at its end
* `Resource.Reading`: what reading as of a time yields and leaves

## Main results

* `Observed.Reports.snapshotAsOf`, `Observed.Reports.snapshotOf`: what a lookup does, given what the
  lease does
* `Resource.Sound.reports_readerAsOf`: what reading as of a time does
* `snapshotAsOf_readOnly`: the read-only snapshot as of a time is the floor of the time
-/

namespace AsOf

/-! ## Snapshots in their scopes

A lookup of a snapshot is a lease in a scope: it yields what the lease yields, leaves the resource
that the lease leaves, and counts one thing more, namely whether there was a snapshot. -/

namespace Observed

variable {f : Faults} {access : Access} {r r' : Resource} {ks : List Counter}

/-- The records of a snapshot that was found on a revision: the lookup is complete, and its outcome. -/
def foundRecords (about : Fields) (access : Access) (revision : RevisionNumber) : List Record :=
  let bound := ("revision", revision.text)
  [(lookupScope about access).completed [bound],
    Event.snapshotResolved.record (about ++ [bound, ("access", access.name)])]

/-- The records of a snapshot that there is not: the lookup is complete, and its outcome. -/
def absentRecords (about : Fields) (access : Access) : List Record :=
  [(lookupScope about access).completed [],
    Event.snapshotAbsent.record (about ++ [("access", access.name)])]

theorem does_reportFound (about : Fields) (access : Access) (found : Lease) (r : Resource) :
    Does (reportFound about access found) r (.ok ()) r [.snapshotsResolved]
      (foundRecords about access (found.base r).number) :=
  (does_current r).bind <| (does_count r _).bind <| (does_record r _).bind (does_record r _)

theorem does_reportAbsent (about : Fields) (access : Access) (r : Resource) :
    Does (reportAbsent about access) r (.ok ()) r [.snapshotsAbsent] (absentRecords about access) :=
  (does_count r _).bind <| (does_record r _).bind (does_record r _)

theorem reports_reportStep (offered previous : RevisionNumber) (r : Resource) :
    Reports (reportStep offered previous) r (.ok ()) r [] :=
  (reports_current r).bind (reports_report r _ _)

/-- The snapshot as of a time is the lease as of that time; whether there is one is counted. -/
theorem Reports.snapshotAsOf {time : Instant} {found : Option Lease}
    (h : Reports (leaseAsOf f time access) r (.ok found) r' ks) :
    ∃ written, Does (snapshotAsOf f time access) r (.ok found) r'
      (ks ++ [found.elim .snapshotsAbsent fun _ => .snapshotsResolved]) written := by
  let about : Fields := [("resource", r.name), ("point_in_time", time.rfc3339 .millis)]
  obtain ⟨_, hlease⟩ := h.within (lookupScope about access) StoreError.message
  cases found with
  | none =>
    have habsent := does_reportAbsent about access r'
    exact ⟨_, (does_current r).bind <| hlease.bind <| habsent.bind (does_pure r' none)⟩
  | some lease =>
    have hfound := does_reportFound about access lease r'
    exact ⟨_, (does_current r).bind <| hlease.bind <| hfound.bind (does_pure r' (some lease))⟩

/-- The snapshot of a revision is the lease on it, and it is counted. -/
theorem Reports.snapshotOf {choice : RevisionChoice} {found : Lease}
    (h : Reports (leaseRevision f (choice.resolve r.mostRecent) r.mostRecent access) r (.ok found)
      r' ks) :
    ∃ written, Does (snapshotOf f choice access) r (.ok found) r' (ks ++ [.snapshotsResolved])
      written := by
  let about : Fields := [("resource", r.name), ("requested", choice.text)]
  obtain ⟨_, hlease⟩ := h.within (lookupScope about access) StoreError.message
  have hfound := does_reportFound about access found r'
  exact ⟨_, (does_current r).bind <| hlease.bind <| hfound.bind (does_pure r' found)⟩

end Observed

/-! ## Read-only snapshots

A read transaction is opened on the revision that the store offers for a time. If that one lies
behind the time, the transaction ends, and another one is opened on the revision before. This always
suffices, since the store offers the floor of the time or the revision right behind it. -/

section Reader

open Observed

variable {r : Resource} {time : Instant} {s : RevisionStamp} {tree : Tree}

/-- The revision that is to be shown. -/
def ReadTarget.number (r : Resource) : ReadTarget → RevisionNumber
  | .revision number => number
  | .time time => r.candidate time

/-- A read transaction on a sealed revision shows its tree, from the document root on. -/
theorem reports_takeReader (target : ReadTarget)
    (hs : r.history.revision? (target.number r) = some (s, tree)) :
    Reports (takeReader .none target) r (.ok { base := s, tree }) r.countedOpen
      [.readTrxOpened] := by
  have hstart : r.startReader (target.number r) = .ok ({ base := s, tree }, r.countedOpen) :=
    Resource.startReader_eq_ok_iff.mpr ⟨s, tree, hs, rfl, rfl⟩
  have hnew : Reports (newReader .none target) r (.ok { base := s, tree }) r.countedOpen [] := by
    cases target with
    | revision number | time time =>
      exact (reports_ofExcept r (.ok ())).bind (reports_update hstart)
  exact hnew.bind <| (reports_current _).bind <| (reports_count _ _).bind <|
    (reports_report _ _ _).bind (reports_pure _ _)

namespace Resource

/-- What reading as of a time yields, which resource it leaves, and how many read transactions it
opens. -/
inductive Reading (r : Resource) (time : Instant) : Option Transaction → Resource → Nat → Prop
  | offered {s : RevisionStamp} {tree : Tree} (floor : r.history.IsFloor time s tree)
      (h : r.candidate time = s.number) :
      Reading r time (some { base := s, tree }) r.countedOpen 1
  | before {s : RevisionStamp} {tree : Tree} (floor : r.history.IsFloor time s tree)
      (h : r.candidate time = s.number.next) :
      Reading r time (some { base := s, tree }) r.countedOpen.countedClose.countedOpen 2
  | absent (h : r.history.StartsAfter time) (hc : r.candidate time = .first) :
      Reading r time none r.countedOpen.countedClose 1

/-- What reading as of a time does. -/
theorem Sound.reports_readerAsOf (hr : r.Sound) (time : Instant) :
    ∃ found r' opened, r.Reading time found r' opened ∧
      Reports (readerAsOf .none time) r (.ok found) r' (List.replicate opened .readTrxOpened) := by
  rcases hr.standsFor_candidate time with ⟨s, tree, floor, hc | ⟨hc, hle⟩⟩ | ⟨hafter, hc⟩
  · refine ⟨_, _, _, .offered floor hc, ?_⟩
    have hs : r.history.revision? (r.candidate time) = some (s, tree) := hc ▸ floor.sealed
    refine (reports_takeReader (.time time) hs).bind ?_
    rw [if_pos floor.time_le]
    exact reports_pure _ _
  · refine ⟨_, _, _, .before floor hc, ?_⟩
    obtain ⟨u, tree', hu⟩ := hr.history.exists_revision?_iff.mpr hle
    refine (reports_takeReader (.time time) (hc ▸ hu)).bind ?_
    rw [if_neg (Instant.not_le.mpr (floor.lt_next hu))]
    refine (reports_update rfl).bind ?_
    rw [hr.history.number_of_revision? hu, RevisionNumber.previous_next]
    have hs : r.countedOpen.countedClose.history.revision? s.number = some (s, tree) := floor.sealed
    refine (reports_takeReader (.revision s.number) hs).bind ?_
    exact (reports_reportStep _ _ _).bind (reports_pure _ _)
  · refine ⟨_, _, _, .absent hafter hc, ?_⟩
    obtain ⟨first, tree, hfirst, hlt⟩ := hafter
    refine (reports_takeReader (.time time) (hc ▸ hfirst)).bind ?_
    rw [if_neg (Instant.not_le.mpr hlt)]
    refine (reports_update rfl).bind ?_
    rw [hr.history.number_of_revision? hfirst, RevisionNumber.previous_first]
    exact reports_pure _ _

variable {found : Option Transaction} {r' : Resource} {opened : Nat}

/-- What is read is the floor of the time, and the store offered it or the revision behind it. -/
theorem Reading.isFloor {trx : Transaction} (h : r.Reading time (some trx) r' opened) :
    ∃ s tree, trx = { base := s, tree } ∧ r.history.IsFloor time s tree ∧
      (r.candidate time = s.number ∨ r.candidate time = s.number.next) := by
  cases h with
  | offered floor hc => exact ⟨_, _, rfl, floor, .inl hc⟩
  | before floor hc => exact ⟨_, _, rfl, floor, .inr hc⟩

/-- Nothing is read exactly for the times before the first revision. -/
theorem Reading.eq_none_iff (hr : r.Sound) (h : r.Reading time found r' opened) :
    found = none ↔ r.history.StartsAfter time := by
  cases h with
  | offered floor | before floor =>
    constructor
    · intro h
      cases h
    · intro h
      exact absurd h (floor.not_startsAfter hr.history)
  | absent h => exact ⟨fun _ => h, fun _ => rfl⟩

/-- What is read is determined by the floor of the time. -/
theorem Reading.found_eq {r₁ r₂ : Resource} {found' : Option Transaction} {opened' : Nat}
    (hr : r.Sound) (hr₁ : r₁.Sound) (h : r.Reading time found r' opened)
    (h₁ : r₁.Reading time found' r₂ opened')
    (floors : ∀ {s tree}, r.history.IsFloor time s tree → r₁.history.IsFloor time s tree)
    (starts : r.history.StartsAfter time → r₁.history.StartsAfter time) : found' = found := by
  cases found with
  | none => exact (h₁.eq_none_iff hr₁).mpr (starts ((h.eq_none_iff hr).mp rfl))
  | some trx =>
    obtain ⟨s, tree, rfl, floor, -⟩ := h.isFloor
    have hfloor := floors floor
    cases found' with
    | none => exact absurd ((h₁.eq_none_iff hr₁).mp rfl) (hfloor.not_startsAfter hr₁.history)
    | some trx' =>
      obtain ⟨s', tree', rfl, floor', -⟩ := h₁.isFloor
      obtain ⟨rfl, rfl⟩ := hfloor.unique floor'
      rfl

/-- Reading changes nothing but the number of read transactions. -/
theorem Reading.state_eq (h : r.Reading time found r' opened) : r' = { r with tally := r'.tally } := by
  cases h <;> rfl

end Resource

/-- A read-only snapshot is what is read. -/
theorem Resource.Sound.does_snapshotAsOf_readOnly (hr : r.Sound) (time : Instant) :
    ∃ found r' opened counted written, r.Reading time found r' opened ∧
      Does (snapshotAsOf .none time .readOnly) r (.ok (found.map .reader)) r' counted written := by
  obtain ⟨found, r', opened, hreading, hreports⟩ := hr.reports_readerAsOf time
  have hlease : Reports (leaseAsOf .none time .readOnly) r (.ok (found.map .reader)) r' _ :=
    hreports.bind_pure _
  obtain ⟨written, hdoes⟩ := hlease.snapshotAsOf
  exact ⟨found, r', opened, _, written, hreading, hdoes⟩

/-- **The read-only snapshot as of a time is the floor of the time.** Whatever happened to the
resource, whatever the clock showed and whichever policy it has, the lookup is not refused. There is
no snapshot exactly if the time lies before the first revision; otherwise the snapshot is a new read
transaction on the floor, and the store offered the floor or the revision right behind it. -/
theorem snapshotAsOf_readOnly (name : String) (lookup : LookupPolicy) (created : Instant)
    (events : List ResourceEvent) (time : Instant) (c : Counters) (j : Journal) :
    let r := (Resource.create name lookup created).run events
    ∃ found o, snapshotAsOf .none time .readOnly ⟨r, c, j⟩ = (.ok found, o) ∧
      (found = none ↔ r.history.StartsAfter time) ∧
      (∀ {lease}, found = some lease → ∃ s tree, lease = .reader { base := s, tree } ∧
        r.history.IsFloor time s tree ∧
        (∀ {u tree'}, r.history.revision? s.number.next = some (u, tree') → time < u.time) ∧
        (r.candidate time = s.number ∨ r.candidate time = s.number.next)) ∧
      o.state = { r with tally := o.state.tally } := by
  intro r
  have hr : r.Sound := Resource.sound_run name lookup created events
  obtain ⟨found, r', opened, hreading, hreports⟩ := hr.reports_readerAsOf time
  have hlease : Reports (leaseAsOf .none time .readOnly) r (.ok (found.map .reader)) r' _ :=
    hreports.bind_pure _
  obtain ⟨written, hdoes⟩ := hlease.snapshotAsOf
  refine ⟨_, _, hdoes c j, ?_, ?_, hreading.state_eq⟩
  · rw [Option.map_eq_none_iff]
    exact hreading.eq_none_iff hr
  · intro lease hfound
    obtain ⟨trx, rfl, rfl⟩ := Option.map_eq_some_iff.mp hfound
    obtain ⟨s, tree, rfl, floor, hc⟩ := hreading.isFloor
    exact ⟨s, tree, rfl, floor, floor.lt_next, hc⟩

end Reader

end AsOf
