import AsOf.Proofs.Journal.Ensure
import AsOf.Proofs.Resource.Run

/-!
# Accounts of leases

A resource does not know who holds leases on it. An account keeps them in a list beside the resource: what is
given out is entered, a read transaction may move its cursor and is closed once, and what is no open read
transaction may be struck out. Whatever holds of a resource and its leases through these changes holds
through every lookup, whichever way it goes: what it finds is entered, and what it opens on the way and
does not give out is closed and struck out again.

## Main definitions

* `Lease.reads`: how many open read transactions a lease is
* `Resource.ReadsAs`: the counts of read transactions are the same
* `Resource.Account`: a property of resources and the leases on them that these changes keep

## Main results

* `Resource.Account.ensures_snapshotAsOf`, `Resource.Account.ensures_snapshotOf`,
  `Resource.Account.ensures_takeLease`: what lookups find is entered
-/

namespace AsOf

/-- How many open read transactions a lease is. -/
def Lease.reads : Lease → Nat
  | .reader trx => if trx.closed then 0 else 1
  | .writer _ => 0

namespace Resource

/-- The resource counts as many read transactions as opened, and as many as closed, as another one. -/
structure ReadsAs (r r' : Resource) : Prop where
  opened : r'.tally.readOpened = r.tally.readOpened
  closed : r'.tally.readClosed = r.tally.readClosed

/-- A property of resources and the leases on them that are out. Nothing is out of a new resource. The order
of the leases is of no account, and neither is what is done to the resource apart from read transactions.
A read transaction is entered when it is opened, the running write transaction whenever it is shared. -/
structure Account (R : List Lease → Resource → Prop) : Prop where
  create : ∀ (name : String) (lookup : LookupPolicy) (now : Instant), R [] (create name lookup now)
  perm : ∀ {ls ms : List Lease} {r : Resource}, ls.Perm ms → R ls r → R ms r
  step : ∀ {ls : List Lease} {r r' : Resource}, R ls r → r.Step r' → r.ReadsAs r' → R ls r'
  opened : ∀ {ls : List Lease} {r : Resource} {n : RevisionNumber} {s : RevisionStamp} {tree : Tree},
    R ls r → r.history.revision? n = some (s, tree) →
      R (.reader { base := s, tree } :: ls) r.countedOpen
  shared : ∀ {ls : List Lease} {r : Resource} {handle : Nat}, R ls r → r.running = some handle →
    R (.writer handle :: ls) r
  visited : ∀ {ls : List Lease} {r : Resource} {t : Transaction} {key : Nat},
    R (.reader t :: ls) r → t.tree.contains key = true → R (.reader { t with cursor := key } :: ls) r
  closed : ∀ {ls : List Lease} {r : Resource} {t : Transaction}, t.closed = false →
    R (.reader t :: ls) r → R (.reader t.close :: ls) r.countedClose
  struck : ∀ {ls : List Lease} {r : Resource} {l : Lease}, l.reads = 0 → R (l :: ls) r → R ls r

variable {r r' : Resource}

theorem ReadsAs.refl (r : Resource) : r.ReadsAs r := ⟨rfl, rfl⟩

theorem WriterStep.readsAs (h : r.WriterStep r') : r.ReadsAs r' := by
  cases h <;> exact ⟨rfl, rfl⟩

theorem readsAs_endWriter (r : Resource) : r.ReadsAs r.endWriter.2 := by
  unfold Resource.endWriter
  split <;> exact ⟨rfl, rfl⟩

/-- A read transaction that has ended is not open any more. -/
theorem reads_endReader (r : Resource) (t : Transaction) : (Lease.reader (r.endReader t).1).reads = 0 := by
  unfold Resource.endReader
  cases hclosed : t.closed with
  | true => simp [Lease.reads, hclosed]
  | false => rfl

/-- No edit opens or closes a read transaction. -/
theorem readsAs_of_edit {handle : Nat} {now : Instant} {e : Edit} {answer : EditAnswer}
    (h : r.edit handle now e = .ok (answer, r')) : r.ReadsAs r' := by
  by_cases he : e.IsLocal
  · rcases moved_of_edit he h with rfl | ⟨t, t', -, -, rfl⟩ <;> exact ⟨rfl, rfl⟩
  · cases e with
    | commit =>
      obtain ⟨⟨number, u⟩, hu, h⟩ := except_bind_eq_ok_iff.mp h
      obtain ⟨t, -, -, rfl⟩ := commit_eq_ok_iff.mp hu
      cases h
      exact ⟨rfl, rfl⟩
    | revert target =>
      obtain ⟨u, hu, h⟩ := except_bind_eq_ok_iff.mp h
      cases h
      exact (writerStep_of_revert hu).readsAs
    | _ => exact absurd trivial he

namespace Account

open Observed

variable {R : List Lease → Resource → Prop} (hR : Account R) {ls : List Lease}
include hR

theorem writerStep (hr : R ls r) (h : r.WriterStep r') : R ls r' := hR.step hr h.step h.readsAs

/-- A write transaction that is opened may be shared. -/
theorem startWriter {handle : Nat} (hr : R ls r) (h : r.startWriter = .ok (handle, r')) :
    R (.writer handle :: ls) r' := by
  have hr' : R ls r' := hR.writerStep hr (writerStep_of_startWriter h)
  obtain ⟨-, rfl, s, tree, -, rfl⟩ := startWriter_eq_ok_iff.mp h
  exact hR.shared hr' rfl

/-- A read transaction that ends is closed, unless it was closed before. -/
theorem endReader {t : Transaction} (hr : R (.reader t :: ls) r) :
    R (.reader (r.endReader t).1 :: ls) (r.endReader t).2 := by
  unfold Resource.endReader
  cases hclosed : t.closed with
  | true => exact hr
  | false => exact hR.closed hclosed hr

/-! ## Read transactions -/

variable (f : Faults)

theorem ensures_newReader (target : ReadTarget) :
    Ensures (R ls) (newReader f target) (fun trx => R (.reader trx :: ls)) (R ls) := by
  cases target with
  | revision number | time time =>
    refine (keeps_ofExcept _).bind_ensures fun _ => ensures_update (fun hr h => ?_) fun hr _ => hr
    obtain ⟨s, tree, hs, rfl, rfl⟩ := startReader_eq_ok_iff.mp h
    exact hR.opened hr hs

theorem ensures_takeReader (target : ReadTarget) :
    Ensures (R ls) (takeReader f target) (fun trx => R (.reader trx :: ls)) (R ls) :=
  (hR.ensures_newReader f target).bind fun _ _ ho => ho

/-- A read transaction behind the time is closed again before another one is opened. -/
theorem ensures_readerAsOf (time : Instant) :
    Ensures (R ls) (readerAsOf f time) (fun found => R ((found.map Lease.reader).toList ++ ls)) (R ls) := by
  refine (hR.ensures_takeReader f _).bind fun trx => ?_
  split
  · exact ensures_pure fun _ h => h
  · have hend : Ensures (R (.reader trx :: ls))
        (Observed.update fun r => return ((), (r.endReader trx).2) :
          Action (Observed Resource) StoreError Unit) (fun _ => R ls) (R ls) := by
      refine ensures_update (fun hr h => ?_) fun _ h => by cases h
      cases h
      exact hR.struck (reads_endReader _ trx) (hR.endReader hr)
    refine hend.bind fun _ => ?_
    split
    · exact ensures_pure fun _ h => h
    · exact (hR.ensures_takeReader f _).bind fun earlier o ho => ho

/-! ## Write transactions -/

theorem ensures_newWriter :
    Ensures (R ls) (newWriter f) (fun handle => R (.writer handle :: ls)) (R ls) := by
  refine keeps_current.bind_ensures fun r => (keeps_ofExcept _).bind_ensures fun _ => ?_
  have hstart : Ensures (R ls) (Observed.update Resource.startWriter)
      (fun handle => R (.writer handle :: ls)) (R ls) :=
    ensures_update (fun hr h => hR.startWriter hr h) fun hr _ => hr
  exact hstart.bind fun handle o ho => ho

/-- The write transaction that is running is shared, or a new one is opened. A store that does not behave may
say that there is none, but names no other one than the one that is running. -/
theorem ensures_takeWriter :
    Ensures (R ls) (takeWriter f) (fun handle => R (.writer handle :: ls)) (R ls) := by
  refine ensures_current_bind fun r hr => ?_
  have hnew : Ensures (· = r) (newWriter f) (fun handle => R (.writer handle :: ls)) (R ls) := by
    intro o ho
    have ho : o.state = r := ho
    exact hR.ensures_newWriter f o (show R ls o.state from ho ▸ hr)
  split
  · split
    · next handle hhandle =>
      have hrunning : r.running = some handle := by
        unfold Faults.runningHandle at hhandle
        split at hhandle
        · cases hhandle
        · exact hhandle
      intro o ho
      have ho : o.state = r := ho
      show R (.writer handle :: ls) o.state
      rw [ho]
      exact hR.shared hr hrunning
    · intro o ho
      exact hnew _ ho
  · exact hnew

/-- A step back either succeeds or is refused and leaves the write transaction with whoever shares it. -/
theorem ensures_settle (handle : Nat) (time : Instant) (offered : RevisionNumber) :
    Ensures (R (.writer handle :: ls)) (settle handle time offered)
      (fun found => R ((found.map Lease.writer).toList ++ ls)) (R (.writer handle :: ls)) := by
  refine keeps_current.bind_ensures fun r => ?_
  dsimp only
  split
  · exact ensures_pure fun _ h => h
  · split
    · exact ensures_pure fun _ h => hR.struck rfl h
    · refine (keeps_goBack hR.writerStep handle _).bind_ensures fun _ => ?_
      exact (keeps_reportStep _ _).bind_ensures fun _ => ensures_pure fun _ h => h

theorem ensures_writerAsOf (time : Instant) :
    Ensures (R ls) (writerAsOf f time) (fun found => R ((found.map Lease.writer).toList ++ ls)) (R ls) := by
  refine (hR.ensures_takeWriter f).bind fun handle => ?_
  have hsettled : Ensures (R (.writer handle :: ls))
      (do
        let r ← current
        steer handle (f.candidate r time) r.mostRecent
        settle handle time (f.candidate r time))
      (fun found => R ((found.map Lease.writer).toList ++ ls)) (R (.writer handle :: ls)) := by
    refine keeps_current.bind_ensures fun r => ?_
    refine (keeps_steer hR.writerStep handle _ _).bind_ensures fun _ => ?_
    exact hR.ensures_settle handle time _
  exact hsettled.imp_error fun _ h => hR.struck rfl h

/-! ## Lookups -/

theorem ensures_leaseAsOf (time : Instant) (access : Access) :
    Ensures (R ls) (leaseAsOf f time access) (fun found => R (found.toList ++ ls)) (R ls) := by
  cases access with
  | readOnly => exact (hR.ensures_readerAsOf f time).bind fun found => ensures_pure fun r h => h
  | updatable => exact (hR.ensures_writerAsOf f time).bind fun found => ensures_pure fun r h => h

theorem ensures_leaseRevision (target mostRecent : RevisionNumber) (access : Access) :
    Ensures (R ls) (leaseRevision f target mostRecent access) (fun lease => R (lease :: ls)) (R ls) := by
  cases access with
  | readOnly => exact (hR.ensures_takeReader f _).bind fun trx => ensures_pure fun _ h => h
  | updatable =>
    refine (hR.ensures_takeWriter f).bind fun handle => ?_
    have hsteered : Ensures (R (.writer handle :: ls))
        (do
          steer handle target mostRecent
          return .writer handle) (fun lease => R (lease :: ls)) (R (.writer handle :: ls)) :=
      (keeps_steer hR.writerStep handle target mostRecent).bind_ensures fun _ =>
        ensures_pure fun _ h => h
    exact hsteered.imp_error fun _ h => hR.struck rfl h

theorem ensures_takeLease (access : Access) (target : ReadTarget) :
    Ensures (R ls) (takeLease f access target) (fun lease => R (lease :: ls)) (R ls) := by
  cases access with
  | readOnly => exact (hR.ensures_takeReader f target).bind fun trx => ensures_pure fun _ h => h
  | updatable => exact (hR.ensures_takeWriter f).bind fun _ => ensures_pure fun _ h => h

theorem ensures_snapshotAsOf (time : Instant) (access : Access) :
    Ensures (R ls) (snapshotAsOf f time access) (fun found => R (found.toList ++ ls)) (R ls) := by
  refine keeps_current.bind_ensures fun r => ?_
  refine ((hR.ensures_leaseAsOf f time access).within _ _).bind fun found => ?_
  cases found <;> exact fun o ho => ho

theorem ensures_snapshotOf (choice : RevisionChoice) (access : Access) :
    Ensures (R ls) (snapshotOf f choice access) (fun lease => R (lease :: ls)) (R ls) := by
  refine keeps_current.bind_ensures fun r => ?_
  exact ((hR.ensures_leaseRevision f _ _ access).within _ _).bind fun lease o ho => ho

end Account

end Resource

end AsOf
