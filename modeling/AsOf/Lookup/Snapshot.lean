import AsOf.Journal.Observed
import AsOf.Store.Database
import AsOf.Time.Text

/-!
# Snapshots

Which state of a resource a caller means by a revision or by a time, and the transaction on it that the caller
gets. The snapshot as of a time is the last revision that was sealed at that time or before it, whatever the
policy of the store.

## Main definitions

* `Access`, `ReadTarget`, `Lease`: how, where and what
* `takeWriter`, `takeReader`, `takeLease`: getting a lease
* `goBack`: a write transaction goes back to an earlier revision
* `steer`: a write transaction goes to a revision as far as it may
* `readerAsOf`, `writerAsOf`: transactions as of a time
* `settle`: the step back of a write transaction
* `snapshotOf`: the snapshot of a revision
* `snapshotAsOf`: the snapshot as of a time
-/

namespace AsOf

open Observed AsOf.Action

/-! ## Leases

What a caller gets of a resource: a read transaction of its own, or a share of the one running write
transaction, which is opened if there is none.

A store that does not behave may say that a write transaction is running and not hand it out. Then a
new one is opened, which the resource refuses if the old one is running after all. -/

/-- Whether a document is to be read only or may be changed. -/
inductive Access where
  | readOnly
  | updatable
deriving DecidableEq, Inhabited, Repr

namespace Access

/-- The access that a flag asks for. -/
def ofUpdatable (flag : Bool) : Access := if flag then updatable else readOnly

/-- The name of an access. -/
def name : Access → String
  | readOnly => "read_only"
  | updatable => "updatable"

end Access

/-- What a read transaction is to show: a revision, or the one that the store offers for a time. -/
inductive ReadTarget where
  | revision (number : RevisionNumber)
  | time (time : Instant)
deriving DecidableEq

/-- A share in a resource: a read transaction, or the handle of a write transaction. -/
inductive Lease where
  | reader (trx : Transaction)
  | writer (handle : Nat)
deriving DecidableEq, Inhabited

namespace Lease

/-- How the lease gives access. -/
def access : Lease → Access
  | reader _ => .readOnly
  | writer _ => .updatable

/-- Whether the lease is on a write transaction. -/
def isUpdatable : Lease → Bool
  | reader _ => false
  | writer _ => true

/-- The revision that the transaction is based on. -/
def base (r : Resource) : Lease → RevisionStamp
  | reader trx => trx.base
  | writer handle => r.writerBase handle

end Lease

/-- A new write transaction. -/
def newWriter (f : Faults) : Action (Observed Resource) StoreError Nat := do
  let r ← current
  ofExcept (f.check .startWriter)
  let handle ← update Resource.startWriter
  count .writeTrxOpened
  report .writeTrxOpened [("resource", r.name)]
  return handle

/-- The running write transaction, or a new one. -/
def takeWriter (f : Faults) : Action (Observed Resource) StoreError Nat := do
  let r ← current
  if f.hasRunning r then
    match f.runningHandle r with
    | some handle =>
      count .writeTrxReused
      report .writeTrxReused [("resource", r.name)]
      return handle
    | none =>
      report .writeTrxHandleMissing [("resource", r.name)]
      newWriter f
  else newWriter f

/-- A new read transaction. -/
def newReader (f : Faults) : ReadTarget → Action (Observed Resource) StoreError Transaction
  | .revision number => do
    ofExcept (f.check .startReader)
    update (·.startReader number)
  | .time time => do
    ofExcept (f.check .startReaderAsOf)
    update fun r => r.startReader (f.candidate r time)

/-- A new read transaction, reported. -/
def takeReader (f : Faults) (target : ReadTarget) :
    Action (Observed Resource) StoreError Transaction := do
  let trx ← newReader f target
  let r ← current
  count .readTrxOpened
  report .readTrxOpened [("resource", r.name), ("revision", trx.base.number.text)]
  return trx

/-- A lease of either kind; what to read is of no account to a write transaction. -/
def takeLease (f : Faults) (access : Access) (target : ReadTarget) :
    Action (Observed Resource) StoreError Lease :=
  match access with
  | .updatable => return .writer (← takeWriter f)
  | .readOnly => return .reader (← takeReader f target)

/-! ## Steering write transactions

A write transaction is shared by everyone who asked for one, and a lookup of one caller must not
show the others a later revision than they had. So a lookup that wants the transaction on some
revision moves it by going back only, which a resource allows to any revision before the most recent
one. It stays where it is if it is there already, or if the revision does not lie before the most
recent one; the latter is reported, since the caller may then get another revision than the one
asked for. -/

/-- A write transaction goes back to a revision before the most recent one. -/
def goBack (handle : Nat) (target : RevisionNumber) :
    Action (Observed Resource) StoreError Unit := do
  update fun r => return ((), ← r.revert handle target)
  let r ← current
  count .reverts
  report .writeTrxReverted [("resource", r.name), ("revision", target.text)]

/-- A write transaction goes back to a revision, unless it is based on that one or the revision does
not lie before the most recent one. -/
def steer (handle : Nat) (target mostRecent : RevisionNumber) :
    Action (Observed Resource) StoreError Unit := do
  let r ← current
  let base := (r.writerBase handle).number
  if target = base then return ()
  else if target < mostRecent then goBack handle target
  else
    report .revertSkipped
      [("resource", r.name), ("target", target.text), ("current", base.text)]

/-! ## Revisions and times

Which state of a resource a caller means by a revision or by a time. The snapshot as of a time is
the last revision that was sealed at that time or before it, whatever the policy of the store.

What the store offers for a time is either that revision or the one right behind it, since a store
may go by the closest time. Times never decrease along a timeline, so an offered revision that lies
behind the time is the first one that does, and its predecessor is the snapshot. The first revision
has no predecessor; when it lies behind the time there is no snapshot. -/

/-- One step back from an offered revision is reported. -/
def reportStep (offered previous : RevisionNumber) :
    Action (Observed Resource) StoreError Unit := do
  let r ← current
  report .snapshotSteppedBack
    [("resource", r.name), ("found", offered.text), ("revision", previous.text)]

/-- A read transaction on the last revision that does not lie behind a time, if there is one: on the
revision that the store offers, or else on the one before. -/
def readerAsOf (f : Faults) (time : Instant) :
    Action (Observed Resource) StoreError (Option Transaction) := do
  let trx ← takeReader f (.time time)
  if trx.base.time ≤ time then return some trx
  else
    update fun r => return ((), (r.endReader trx).2)
    match trx.base.number.previous with
    | none => return none
    | some previous =>
      let earlier ← takeReader f (.revision previous)
      reportStep trx.base.number previous
      return some earlier

/-- A write transaction whose revision lies behind a time goes one step back, if there is a revision
before. -/
def settle (handle : Nat) (time : Instant) (offered : RevisionNumber) :
    Action (Observed Resource) StoreError (Option Nat) := do
  let base := (← current).writerBase handle
  if base.time ≤ time then return some handle
  else
    match base.number.previous with
    | none => return none
    | some previous =>
      goBack handle previous
      reportStep offered previous
      return some handle

/-- The write transaction, brought to a revision that does not lie behind a time, if there is one:
it is steered to the revision that the store offers and goes one step further back if need be. -/
def writerAsOf (f : Faults) (time : Instant) :
    Action (Observed Resource) StoreError (Option Nat) := do
  let handle ← takeWriter f
  let r ← current
  let offered := f.candidate r time
  steer handle offered r.mostRecent
  settle handle time offered

/-- A lease as of a time, if there is one. -/
def leaseAsOf (f : Faults) (time : Instant) :
    Access → Action (Observed Resource) StoreError (Option Lease)
  | .updatable => return (← writerAsOf f time).map .writer
  | .readOnly => return (← readerAsOf f time).map .reader

/-- A lease on a revision: a read transaction on it, or the write transaction steered to it. -/
def leaseRevision (f : Faults) (target mostRecent : RevisionNumber) :
    Access → Action (Observed Resource) StoreError Lease
  | .updatable => do
    let handle ← takeWriter f
    steer handle target mostRecent
    return .writer handle
  | .readOnly => return .reader (← takeReader f (.revision target))

/-- The scope of a lookup and the fields that say what was asked for. -/
def lookupScope (about : Fields) (access : Access) : Scope :=
  ⟨"RESOLVE", about ++ [("access", access.name)]⟩

/-- A snapshot that was found is counted and reported with its revision. -/
def reportFound (about : Fields) (access : Access) (found : Lease) :
    Action (Observed Resource) StoreError Unit := do
  let bound := ("revision", (found.base (← current)).number.text)
  count .snapshotsResolved
  record ((lookupScope about access).completed [bound])
  report .snapshotResolved (about ++ [bound, ("access", access.name)])

/-- That there is no snapshot is counted and reported. -/
def reportAbsent (about : Fields) (access : Access) :
    Action (Observed Resource) StoreError Unit := do
  count .snapshotsAbsent
  record ((lookupScope about access).completed [])
  report .snapshotAbsent (about ++ [("access", access.name)])

/-- The snapshot of a revision. -/
def snapshotOf (f : Faults) (revision : RevisionChoice) (access : Access) :
    Action (Observed Resource) StoreError Lease := do
  let r ← current
  let about : Fields := [("resource", r.name), ("requested", revision.text)]
  let found ← within (lookupScope about access) StoreError.message
    (leaseRevision f (revision.resolve r.mostRecent) r.mostRecent access)
  reportFound about access found
  return found

/-- The snapshot as of a time, if the resource is that old. -/
def snapshotAsOf (f : Faults) (time : Instant) (access : Access) :
    Action (Observed Resource) StoreError (Option Lease) := do
  let r ← current
  let about : Fields := [("resource", r.name), ("point_in_time", time.rfc3339 .millis)]
  let found ← within (lookupScope about access) StoreError.message (leaseAsOf f time access)
  match found with
  | some lease => reportFound about access lease
  | none => reportAbsent about access
  return found

end AsOf
