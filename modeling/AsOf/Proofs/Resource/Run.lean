import AsOf.Lookup.Snapshot
import AsOf.Proofs.Journal.Effect
import AsOf.Proofs.Resource.Sound

/-!
# Runs of a resource

Whatever happens to a resource, it happens one event after the other: a transaction is opened or
closed, a write transaction is edited through some handle, a snapshot is looked up. An event that is
refused leaves the resource as it is. The clock may show anything at any time, so each edit brings
its own reading of it.

## Main definitions

* `Query`, `Query.resolve`: what a lookup asks for, and the lookup
* `ResourceEvent`, `Resource.after`: an event, and the resource after it
* `ResourceEvent.Opens`: the events that may open a write transaction
* `Resource.run`: the resource after a run of events
* `ResourceEvent.backToFirst`: a run that leaves the transaction two revisions behind

## Main results

* `keeps_resolve_readOnly`, `keeps_resolve`: what counting read transactions keeps, read-only lookups
  keep, and what the steps of lookups keep, lookups keep
* `Resource.sound_run`: whatever happened to a new resource, it is sound
-/

namespace AsOf

/-- What a lookup asks a resource for: its state as of a time, or one of its revisions. -/
inductive Query where
  | asOf (time : Instant)
  | revision (choice : RevisionChoice)
deriving DecidableEq

/-- The snapshot that is asked for, if there is one. -/
def Query.resolve (access : Access) : Query → Action (Observed Resource) StoreError (Option Lease)
  | .asOf time => snapshotAsOf .none time access
  | .revision choice => return some (← snapshotOf .none choice access)

/-! ## Lookups in their scopes -/

section Scopes

open Observed

variable {Q : Resource → Prop} {f : Faults} {access : Access}

theorem keeps_reportStep (offered previous : RevisionNumber) :
    Keeps Q (reportStep offered previous) :=
  keeps_current.bind fun _ => keeps_report _ _

theorem keeps_reportFound (about : Fields) (access : Access) (found : Lease) :
    Keeps Q (reportFound about access found) :=
  keeps_current.bind fun _ => (keeps_count _).bind fun _ => (keeps_record _).bind fun _ =>
    keeps_report _ _

/-- A snapshot as of a time keeps what the lease keeps. -/
theorem keeps_snapshotAsOf {time : Instant} (h : Keeps Q (leaseAsOf f time access)) :
    Keeps Q (snapshotAsOf f time access) := by
  refine keeps_current.bind fun r => (keeps_within _ _ h).bind fun found => ?_
  dsimp only
  split
  · exact (keeps_reportFound _ _ _).bind fun _ => keeps_pure _
  · refine ((keeps_count _).bind fun _ => (keeps_record _).bind fun _ => ?_).bind fun _ => ?_
    · exact keeps_report _ _
    · exact keeps_pure _

/-- A snapshot of a revision keeps what the lease keeps. -/
theorem keeps_snapshotOf {choice : RevisionChoice}
    (h : ∀ target mostRecent, Keeps Q (leaseRevision f target mostRecent access)) :
    Keeps Q (snapshotOf f choice access) := by
  refine keeps_current.bind fun r => (keeps_within _ _ (h _ _)).bind fun found => ?_
  exact (keeps_reportFound _ _ _).bind fun _ => keeps_pure _

end Scopes

/-! ## Read-only lookups count read transactions -/

section Readers

open Observed

variable {Q : Resource → Prop} (hopen : ∀ r : Resource, Q r → Q r.countedOpen)
  (hclose : ∀ r : Resource, Q r → Q r.countedClose) (f : Faults)

include hopen in
theorem keeps_newReader (target : ReadTarget) : Keeps Q (newReader f target) := by
  cases target with
  | revision number | time time =>
    refine (keeps_ofExcept _).bind fun _ => keeps_update fun hr h => ?_
    obtain ⟨-, -, -, -, rfl⟩ := Resource.startReader_eq_ok_iff.mp h
    exact hopen _ hr

include hopen in
theorem keeps_takeReader (target : ReadTarget) : Keeps Q (takeReader f target) := by
  refine (keeps_newReader hopen f target).bind fun trx => keeps_current.bind fun r => ?_
  exact (keeps_count _).bind fun _ => (keeps_report _ _).bind fun _ => keeps_pure trx

include hopen hclose in
theorem keeps_readerAsOf (time : Instant) : Keeps Q (readerAsOf f time) := by
  refine (keeps_takeReader hopen f _).bind fun trx => ?_
  split
  · exact keeps_pure _
  · refine (keeps_update fun hr h => ?_).bind fun _ => ?_
    · cases h
      unfold Resource.endReader
      split
      · exact hr
      · exact hclose _ hr
    · split
      · exact keeps_pure _
      · refine (keeps_takeReader hopen f _).bind fun _ => (keeps_reportStep _ _).bind fun _ => ?_
        exact keeps_pure _

include hopen hclose in
/-- What counting read transactions keeps, read-only lookups keep. -/
theorem keeps_resolve_readOnly (q : Query) : Keeps Q (q.resolve .readOnly) := by
  cases q with
  | asOf time =>
    exact keeps_snapshotAsOf ((keeps_readerAsOf hopen hclose _ time).bind fun _ => keeps_pure _)
  | revision choice =>
    refine (keeps_snapshotOf fun target _ => ?_).bind fun _ => keeps_pure _
    exact (keeps_takeReader hopen _ (.revision target)).bind fun _ => keeps_pure _

end Readers

/-! ## Lookups take the steps of lookups -/

section Writers

open Observed

variable {Q : Resource → Prop}
  (hQ : ∀ {r r' : Resource}, Q r → r.WriterStep r' → Q r') (f : Faults)
include hQ

theorem keeps_newWriter : Keeps Q (newWriter f) := by
  refine keeps_current.bind fun r => (keeps_ofExcept _).bind fun _ => ?_
  have hupdate : Keeps Q (Observed.update Resource.startWriter) := keeps_update fun hr h =>
    hQ hr (Resource.writerStep_of_startWriter h)
  refine hupdate.bind fun handle => ?_
  exact (keeps_count _).bind fun _ => (keeps_report _ _).bind fun _ => keeps_pure handle

theorem keeps_takeWriter : Keeps Q (takeWriter f) := by
  refine keeps_current.bind fun r => ?_
  split
  · split
    · exact (keeps_count _).bind fun _ => (keeps_report _ _).bind fun _ => keeps_pure _
    · exact (keeps_report _ _).bind fun _ => keeps_newWriter hQ f
  · exact keeps_newWriter hQ f

theorem keeps_goBack (handle : Nat) (target : RevisionNumber) : Keeps Q (goBack handle target) := by
  have hupdate : Keeps Q (Observed.update fun r => return ((), ← r.revert handle target)) := by
    refine keeps_update fun hr h => ?_
    obtain ⟨r', h, hpair⟩ := except_bind_eq_ok_iff.mp h
    cases hpair
    exact hQ hr (Resource.writerStep_of_revert h)
  refine hupdate.bind fun _ => keeps_current.bind fun r => ?_
  exact (keeps_count _).bind fun _ => keeps_report _ _

theorem keeps_steer (handle : Nat) (target mostRecent : RevisionNumber) :
    Keeps Q (steer handle target mostRecent) := by
  refine keeps_current.bind fun r => ?_
  dsimp only
  split
  · exact keeps_pure ()
  · split
    · exact keeps_goBack hQ handle target
    · exact keeps_report _ _

theorem keeps_settle (handle : Nat) (time : Instant) (offered : RevisionNumber) :
    Keeps Q (settle handle time offered) := by
  refine keeps_current.bind fun r => ?_
  dsimp only
  split
  · exact keeps_pure _
  · split
    · exact keeps_pure _
    · refine (keeps_goBack hQ handle _).bind fun _ => (keeps_reportStep _ _).bind fun _ => ?_
      exact keeps_pure _

theorem keeps_writerAsOf (time : Instant) : Keeps Q (writerAsOf f time) := by
  refine (keeps_takeWriter hQ f).bind fun handle => keeps_current.bind fun r => ?_
  exact (keeps_steer hQ handle _ _).bind fun _ => keeps_settle hQ handle time _

end Writers

section Lookups

open Observed

variable {Q : Resource → Prop} {access : Access}
  (hQ : ∀ {r r' : Resource}, Q r → r.LookupStep access r' → Q r') (f : Faults)
include hQ

theorem keeps_leaseAsOf (time : Instant) : Keeps Q (leaseAsOf f time access) := by
  cases access with
  | readOnly =>
    have hreader := keeps_readerAsOf (fun _ hr => hQ hr .countOpen) (fun _ hr => hQ hr .countClose) f time
    exact hreader.bind fun _ => keeps_pure _
  | updatable =>
    exact (keeps_writerAsOf (fun hr h => hQ hr (.writer rfl h)) f time).bind fun _ => keeps_pure _

theorem keeps_leaseRevision (target mostRecent : RevisionNumber) :
    Keeps Q (leaseRevision f target mostRecent access) := by
  cases access with
  | readOnly =>
    exact (keeps_takeReader (fun _ hr => hQ hr .countOpen) f _).bind fun _ => keeps_pure _
  | updatable =>
    have hwriter {r r' : Resource} (hr : Q r) (h : r.WriterStep r') : Q r' := hQ hr (.writer rfl h)
    refine (keeps_takeWriter hwriter f).bind fun handle => ?_
    exact (keeps_steer hwriter handle target mostRecent).bind fun _ => keeps_pure _

theorem keeps_takeLease (target : ReadTarget) : Keeps Q (takeLease f access target) := by
  cases access with
  | readOnly =>
    exact (keeps_takeReader (fun _ hr => hQ hr .countOpen) f target).bind fun _ => keeps_pure _
  | updatable =>
    exact (keeps_takeWriter (fun hr h => hQ hr (.writer rfl h)) f).bind fun _ => keeps_pure _

omit f in
/-- What holds of a resource whatever a lookup can do to it, holds behind a lookup. -/
theorem keeps_resolve (q : Query) : Keeps Q (q.resolve access) := by
  cases q with
  | asOf time => exact keeps_snapshotAsOf (keeps_leaseAsOf hQ _ time)
  | revision choice =>
    refine (keeps_snapshotOf fun target mostRecent => ?_).bind fun _ => keeps_pure _
    exact keeps_leaseRevision hQ _ target mostRecent

end Lookups

/-! ## Events and runs -/

/-- What can happen to a resource. -/
inductive ResourceEvent where
  | startWriter
  | endWriter
  | startReader (number : RevisionNumber)
  | endReader (trx : Transaction)
  | edit (handle : Nat) (now : Instant) (e : Edit)
  | lookUp (q : Query) (access : Access)

/-- The event may open a write transaction: it asks for one, or for a document that may be changed. -/
def ResourceEvent.Opens : ResourceEvent → Prop
  | .startWriter | .lookUp _ .updatable => True
  | _ => False

namespace Resource

/-- The resource that a change leaves; a change that is refused leaves the one before. -/
def orKeep {α : Type} (r : Resource) : Except StoreError (α × Resource) → Resource
  | .ok (_, r') => r'
  | .error _ => r

/-- The resource after an event. -/
def after (r : Resource) : ResourceEvent → Resource
  | .startWriter => r.orKeep r.startWriter
  | .endWriter => r.endWriter.2
  | .startReader number => r.orKeep (r.startReader number)
  | .endReader trx => (r.endReader trx).2
  | .edit handle now e => r.orKeep (r.edit handle now e)
  | .lookUp q access => (q.resolve access ⟨r, {}, {}⟩).2.state

/-- The resource after a run of events. -/
def run (r : Resource) (events : List ResourceEvent) : Resource := events.foldl after r

theorem run_append (r : Resource) (events more : List ResourceEvent) :
    r.run (events ++ more) = (r.run events).run more :=
  List.foldl_append

theorem orKeep_of_step {α : Type} {r : Resource} {Q : Resource → Prop}
    {x : Except StoreError (α × Resource)} (hr : Q r) (h : ∀ {a r'}, x = .ok (a, r') → Q r') :
    Q (r.orKeep x) := by
  cases x with
  | error e => exact hr
  | ok p => exact h rfl

/-- What steps keep, every event keeps. -/
theorem keeps_after {Q : Resource → Prop} (hQ : ∀ {r r' : Resource}, Q r → r.Step r' → Q r')
    {r : Resource} (hr : Q r) (event : ResourceEvent) : Q (r.after event) := by
  cases event with
  | startWriter => exact orKeep_of_step hr fun h => hQ hr (step_of_startWriter h)
  | endWriter => exact hQ hr (step_endWriter r)
  | startReader number => exact orKeep_of_step hr fun h => hQ hr (step_of_startReader h)
  | endReader trx => exact hQ hr (step_endReader r trx)
  | edit handle now e => exact orKeep_of_step hr fun h => hQ hr (step_of_edit h)
  | lookUp q access => exact keeps_resolve (fun hr h => hQ hr h.step) q ⟨r, {}, {}⟩ hr

/-- What steps keep, every run keeps. -/
theorem keeps_run {Q : Resource → Prop} (hQ : ∀ {r r' : Resource}, Q r → r.Step r' → Q r')
    {r : Resource} (hr : Q r) (events : List ResourceEvent) : Q (r.run events) := by
  induction events generalizing r with
  | nil => exact hr
  | cons event events ih => exact ih (keeps_after hQ hr event)

theorem name_run (r : Resource) (events : List ResourceEvent) : (r.run events).name = r.name :=
  keeps_run (fun hname h => h.name_eq.trans hname) rfl events

theorem Sound.after_event {r : Resource} (hr : r.Sound) (event : ResourceEvent) :
    (r.after event).Sound :=
  keeps_after Sound.step hr event

theorem Sound.run {r : Resource} (hr : r.Sound) (events : List ResourceEvent) :
    (r.run events).Sound :=
  keeps_run Sound.step hr events

/-- Whatever happened to a new resource, it is sound. -/
theorem sound_run (name : String) (lookup : LookupPolicy) (created : Instant)
    (events : List ResourceEvent) : ((create name lookup created).run events).Sound :=
  (sound_create name lookup created).run events

/-- What the steps of sound resources keep, every event that happens to a sound resource keeps. -/
theorem Sound.keeps_after {Q : Resource → Prop}
    (hQ : ∀ {r r' : Resource}, r.Sound → Q r → r.Step r' → Q r') {r : Resource} (hr : r.Sound)
    (hq : Q r) (event : ResourceEvent) : Q (r.after event) :=
  (Resource.keeps_after (Q := fun r => r.Sound ∧ Q r) (fun h hs => ⟨h.1.step hs, hQ h.1 h.2 hs⟩)
    ⟨hr, hq⟩ event).2

/-- What the steps of sound resources keep, every run of a sound resource keeps. -/
theorem Sound.keeps_run {Q : Resource → Prop}
    (hQ : ∀ {r r' : Resource}, r.Sound → Q r → r.Step r' → Q r') {r : Resource} (hr : r.Sound)
    (hq : Q r) (events : List ResourceEvent) : Q (r.run events) :=
  (Resource.keeps_run (Q := fun r => r.Sound ∧ Q r) (fun h hs => ⟨h.1.step hs, hQ h.1 h.2 hs⟩)
    ⟨hr, hq⟩ events).2

end Resource

/-! ## A run -/

/-- A second since the epoch. -/
def Instant.second (secs : Int) : Instant := { Instant.epoch with secs }

/-- Revisions are sealed in the twentieth and the thirtieth second, and the transaction goes back to
the first one. -/
def ResourceEvent.backToFirst : List ResourceEvent :=
  [.startWriter, .edit 0 (.second 20) .commit, .edit 0 (.second 30) .commit,
    .edit 0 (.second 30) (.revert .first)]

end AsOf
