import AsOf.Lookup.Snapshot
import AsOf.Proofs.Journal.Effect
import AsOf.Proofs.Journal.Law
import AsOf.Proofs.Lookup.Reader
import AsOf.Proofs.Resource.Run

/-!
# What lookups tell

Each lookup is counted and reported, in the journal and in the tally of the resource.

## Main definitions

* `Resource.Tallies`: what was counted is what the tally of a resource shows
* `Access.counted`: what a lookup counts on its way
* `Query.ask`, `Query.askGuarded`: the snapshot that is asked for, and how its guard fares
* `Query.about`, `Query.scope`: what all records of a lookup carry
* `Query.ending`, `Query.outcome`: the record that ends a lookup, and the event that tells its outcome

## Main results

* `obeys_takeWriter`, `obeys_takeReader`, `obeys_steer`, `obeys_settle`: the parts of a lookup
* `obeys_leaseAsOf`, `obeys_leaseRevision`: the way to a lease
* `Query.exists_does_ask`: what a lookup counts and writes, whatever it comes to
* `Query.askGuarded_eq`: a lookup lets go of the guard of its scope once its end is told
* `Query.brackets_written`: what a lookup writes is bracketed
-/

namespace AsOf

open Observed Resource

/-! ## Counts of lookups

A lookup counts the transactions that it opens and how often it goes back, and the resource keeps a
tally of its own. The two never come apart, whichever way the lookup takes and whether or not it is
refused on it. On the way to its outcome a lookup reports no outcome. -/

section Tally

open Observed

namespace Resource

/-- The tally of a resource rose by what was counted, which is of the given kinds, and no outcome was
reported. -/
structure Tallies (kinds : List Counter) (r r' : Resource) (ks : List Counter)
    (es : List (Event × Fields)) : Prop where
  writeOpened : r'.tally.writeOpened = r.tally.writeOpened + ks.count .writeTrxOpened
  readOpened : r'.tally.readOpened = r.tally.readOpened + ks.count .readTrxOpened
  reverts : r'.tally.reverts = r.tally.reverts + ks.count .reverts
  counted : ks ⊆ kinds
  reported : ∀ e ∈ es, e.1 ∉ Event.outcomes

theorem law_tallies (kinds : List Counter) : Law (Tallies kinds) where
  refl _ := ⟨rfl, rfl, rfl, List.nil_subset _, by simp⟩
  trans h h' :=
    { writeOpened := by rw [h'.writeOpened, h.writeOpened, List.count_append, Nat.add_assoc]
      readOpened := by rw [h'.readOpened, h.readOpened, List.count_append, Nat.add_assoc]
      reverts := by rw [h'.reverts, h.reverts, List.count_append, Nat.add_assoc]
      counted := List.append_subset.mpr ⟨h.counted, h'.counted⟩
      reported := fun e he => (List.mem_append.mp he).elim (h.reported e) (h'.reported e) }

theorem Tallies.mono {kinds kinds' : List Counter} {r r' : Resource} {ks : List Counter}
    {es : List (Event × Fields)} (h : Tallies kinds r r' ks es) (hsub : kinds ⊆ kinds') :
    Tallies kinds' r r' ks es :=
  { h with counted := List.Subset.trans h.counted hsub }

/-- What is not among the kinds is not counted. -/
theorem Tallies.count_eq_zero {kinds : List Counter} {r r' : Resource} {ks : List Counter}
    {es : List (Event × Fields)} (h : Tallies kinds r r' ks es) {k : Counter} (hk : k ∉ kinds) :
    ks.count k = 0 :=
  List.count_eq_zero.mpr fun hmem => hk (h.counted hmem)

end Resource

open Resource

variable (f : Faults)

theorem obeys_report_tallies {kinds : List Counter} {e : Event} (fields : Fields)
    (h : e ∉ Event.outcomes) :
    Obeys (Tallies kinds) (report e fields : Action (Observed Resource) StoreError Unit) := by
  refine obeys_report fun r => ⟨rfl, rfl, rfl, List.nil_subset _, ?_⟩
  simpa using h

/-! ### Taking transactions -/

/-- How a lookup comes by the write transaction: it is handed out, or opened. -/
abbrev writerKinds : List Counter := [.writeTrxReused, .writeTrxOpened]

theorem obeys_newWriter : Obeys (Tallies writerKinds) (newWriter f) := by
  have hlaw := law_tallies writerKinds
  refine .bind hlaw (obeys_current hlaw) fun r => .bind hlaw (obeys_ofExcept hlaw _) fun _ => ?_
  refine obeys_update_bind hlaw fun {s handle s'} hstart => ?_
  refine ⟨_, s', [.writeTrxOpened], [(.writeTrxOpened, _)],
    (does_count s' _).bind <| (does_report s' _ _).bind (does_pure s' handle), ?_⟩
  obtain ⟨-, -, -, tree, -, rfl⟩ := startWriter_eq_ok_iff.mp hstart
  exact ⟨rfl, rfl, rfl, by simp, by simp [Event.outcomes]⟩

/-- Whether the write transaction is handed out or a new one opened, one thing is counted, and the
tally shows if it is a new one. -/
theorem obeys_takeWriter : Obeys (Tallies writerKinds) (takeWriter f) := by
  have hlaw := law_tallies writerKinds
  refine .bind hlaw (obeys_current hlaw) fun r => ?_
  split
  · split
    · refine .bind hlaw (obeys_count fun s => ⟨rfl, rfl, rfl, by simp, by simp⟩) fun _ => ?_
      exact .bind hlaw (obeys_report_tallies _ (by decide)) fun _ => obeys_pure hlaw _
    · exact .bind hlaw (obeys_report_tallies _ (by decide)) fun _ => obeys_newWriter f
  · exact obeys_newWriter f

theorem obeys_takeReader (target : ReadTarget) :
    Obeys (Tallies [.readTrxOpened]) (takeReader f target) := by
  have hlaw := law_tallies [.readTrxOpened]
  have hopened {r r' : Resource} {number : RevisionNumber} {trx : Transaction}
      (hstart : r.startReader number = .ok (trx, r')) (fields : Fields) :
      Tallies [.readTrxOpened] r r' [.readTrxOpened] [(.readTrxOpened, fields)] := by
    obtain ⟨-, -, -, -, rfl⟩ := startReader_eq_ok_iff.mp hstart
    exact ⟨rfl, rfl, rfl, by simp, by simp [Event.outcomes]⟩
  cases target with
  | revision number | time time =>
    rw [takeReader, newReader, bind_assoc]
    refine .bind hlaw (obeys_ofExcept hlaw _) fun _ => ?_
    refine obeys_update_bind hlaw fun {s trx s'} hstart => ?_
    exact ⟨_, s', _, [(.readTrxOpened, _)], (does_current s').bind <| (does_count s' _).bind <|
      (does_report s' _ _).bind (does_pure s' trx), hopened hstart _⟩

/-! ### Steering -/

theorem obeys_goBack (handle : Nat) (target : RevisionNumber) :
    Obeys (Tallies [.reverts]) (goBack handle target) := by
  have hlaw := law_tallies [.reverts]
  refine obeys_update_bind hlaw fun {s a s'} hrevert => ?_
  refine ⟨_, s', [.reverts], [(.writeTrxReverted, _)],
    (does_current s').bind <| (does_count s' _).bind (does_report s' _ _), ?_⟩
  rw [except_bind_eq_ok_iff] at hrevert
  obtain ⟨u, hrevert, h⟩ := hrevert
  cases h
  obtain ⟨t, info, tree, -, -, -, rfl⟩ := revert_eq_ok_iff.mp hrevert
  exact ⟨rfl, rfl, rfl, by simp, by simp [Event.outcomes]⟩

theorem obeys_steer (handle : Nat) (target mostRecent : RevisionNumber) :
    Obeys (Tallies [.reverts]) (steer handle target mostRecent) := by
  have hlaw := law_tallies [.reverts]
  refine .bind hlaw (obeys_current hlaw) fun r => ?_
  dsimp only
  split
  · exact obeys_pure hlaw ()
  · split
    · exact obeys_goBack handle target
    · exact obeys_report_tallies _ (by decide)

theorem obeys_reportStep (offered previous : RevisionNumber) {kinds : List Counter} :
    Obeys (Tallies kinds) (reportStep offered previous) :=
  .bind (law_tallies kinds) (obeys_current (law_tallies kinds)) fun _ => obeys_report_tallies _ (by decide)

theorem obeys_settle (handle : Nat) (time : Instant) (offered : RevisionNumber) :
    Obeys (Tallies [.reverts]) (settle handle time offered) := by
  have hlaw := law_tallies [.reverts]
  refine .bind hlaw (obeys_current hlaw) fun r => ?_
  dsimp only
  split
  · exact obeys_pure hlaw _
  · split
    · exact obeys_pure hlaw _
    · refine .bind hlaw (obeys_goBack handle _) fun _ => ?_
      exact .bind hlaw (obeys_reportStep offered _) fun _ => obeys_pure hlaw _

/-! ### Leases -/

/-- Ending a read transaction opens none and reverts nothing. -/
theorem Resource.tallies_endReader {kinds : List Counter} (r : Resource) (trx : Transaction) :
    Tallies kinds r (r.endReader trx).2 [] [] := by
  unfold endReader
  split
  · exact (law_tallies kinds).refl r
  · exact ⟨rfl, rfl, rfl, List.nil_subset _, by simp⟩

/-- What a lookup counts on its way. -/
def Access.counted : Access → List Counter
  | .readOnly => [.readTrxOpened]
  | .updatable => .reverts :: writerKinds

theorem obeys_readerAsOf (time : Instant) : Obeys (Tallies [.readTrxOpened]) (readerAsOf f time) := by
  have hlaw := law_tallies [.readTrxOpened]
  refine .bind hlaw (obeys_takeReader f _) fun trx => ?_
  split
  · exact obeys_pure hlaw _
  · refine .bind hlaw (obeys_update hlaw fun {s a s'} hend => ?_) fun _ => ?_
    · cases hend
      exact tallies_endReader s trx
    · split
      · exact obeys_pure hlaw _
      · refine .bind hlaw (obeys_takeReader f _) fun earlier => ?_
        exact .bind hlaw (obeys_reportStep _ _) fun _ => obeys_pure hlaw _

/-- The write transaction is taken, and what follows takes no other one. -/
theorem obeys_takeWriter_bind {α : Type} {g : Nat → Action (Observed Resource) StoreError α}
    (hg : ∀ handle, Obeys (Tallies [.reverts]) (g handle)) :
    Obeys (Tallies Access.updatable.counted) (takeWriter f >>= g) := by
  refine .bind (law_tallies _) ((obeys_takeWriter f).imp fun h => h.mono ?_) fun handle =>
    (hg handle).imp fun h => h.mono ?_
  · exact List.subset_cons_self _ _
  · exact List.cons_subset_cons _ (List.nil_subset _)

theorem obeys_writerAsOf (time : Instant) :
    Obeys (Tallies Access.updatable.counted) (writerAsOf f time) := by
  have hlaw := law_tallies [.reverts]
  refine obeys_takeWriter_bind f fun handle => .bind hlaw (obeys_current hlaw) fun r => ?_
  exact .bind hlaw (obeys_steer _ _ _) fun _ => obeys_settle _ _ _

theorem obeys_leaseAsOf (time : Instant) (access : Access) :
    Obeys (Tallies access.counted) (leaseAsOf f time access) := by
  cases access with
  | updatable => exact .bind (law_tallies _) (obeys_writerAsOf f time) fun _ => obeys_pure (law_tallies _) _
  | readOnly => exact .bind (law_tallies _) (obeys_readerAsOf f time) fun _ => obeys_pure (law_tallies _) _

theorem obeys_leaseRevision (target mostRecent : RevisionNumber) (access : Access) :
    Obeys (Tallies access.counted) (leaseRevision f target mostRecent access) := by
  cases access with
  | updatable =>
    have hlaw := law_tallies [.reverts]
    exact obeys_takeWriter_bind f fun handle =>
      .bind hlaw (obeys_steer _ _ _) fun _ => obeys_pure hlaw _
  | readOnly => exact .bind (law_tallies _) (obeys_takeReader f _) fun _ => obeys_pure (law_tallies _) _

end Tally

/-! ## How lookups are told

A lookup of either kind is told in the journal from its beginning to its outcome: that it begins, what
happens on its way, how it ends, and which snapshot was found if it was not refused. What it counts is
what its lease counts, and whether there was a snapshot. -/

namespace Query

/-- The snapshot that is asked for, if there is one. -/
def ask (f : Faults) (access : Access) : Query → Action (Observed Resource) StoreError (Option Lease)
  | .asOf time => snapshotAsOf f time access
  | .revision choice => return some (← snapshotOf f choice access)

/-- What was asked, and of which resource. -/
def about (r : Resource) : Query → Fields
  | .asOf time => [("resource", r.name), ("point_in_time", time.rfc3339 .millis)]
  | .revision choice => [("resource", r.name), ("requested", choice.text)]

/-- The scope of a lookup. -/
def scope (q : Query) (r : Resource) (access : Access) : Scope := lookupScope (q.about r) access

/-- The lease that is asked for, if there is one. -/
def lease (f : Faults) (access : Access) (r : Resource) :
    Query → Action (Observed Resource) StoreError (Option Lease)
  | .asOf time => leaseAsOf f time access
  | .revision choice =>
    return some (← leaseRevision f (choice.resolve r.mostRecent) r.mostRecent access)

/-- The snapshot that is asked for, with the guard of the lookup: its end is told, in whichever way it comes
about, and that lets go of the guard. -/
def askGuarded (f : Faults) (access : Access) (q : Query) :
    Action (Observed Resource) StoreError (Option Lease) := do
  let r ← current
  let guard ← Guard.start (q.scope r access)
  match ← (q.lease f access r).attempt with
  | .ok (some lease) =>
    let bound := ("revision", (lease.base (← current)).number.text)
    count .snapshotsResolved
    guard.complete [bound]
    report .snapshotResolved (q.about r ++ [bound, ("access", access.name)])
    return some lease
  | .ok none =>
    count .snapshotsAbsent
    guard.complete []
    report .snapshotAbsent (q.about r ++ [("access", access.name)])
    return none
  | .error e =>
    guard.fail e.message
    Action.fail e

/-- The guard adds nothing to what is told of a lookup. -/
theorem askGuarded_eq (f : Faults) (access : Access) (q : Query) :
    q.askGuarded f access = q.ask f access := by
  cases q with
  | asOf time =>
    refine congrArg (current >>= ·) (funext fun r => ?_)
    simp only [within, Guard.start, Guard.complete_eq, Guard.fail_eq, bind_assoc, pure_bind]
    refine congrArg (record _ >>= ·) (funext fun _ => congrArg (Action.attempt _ >>= ·) (funext fun a => ?_))
    rcases a with e | (_ | lease)
    · rfl
    · rfl
    · rfl
  | revision choice =>
    simp only [askGuarded, ask, snapshotOf, bind_assoc]
    refine congrArg (current >>= ·) (funext fun r => ?_)
    simp only [within, Guard.start, Guard.complete_eq, Guard.fail_eq, bind_assoc, pure_bind]
    refine congrArg (record _ >>= ·) (funext fun _ => funext fun o => ?_)
    simp only [Action.bind_run, Action.attempt, lease]
    -- Both lease the revision behind the same beginning, and differ in how its outcome is taken apart.
    rcases leaseRevision f (choice.resolve r.mostRecent) r.mostRecent access o with ⟨e | found, o'⟩
    · rfl
    · rfl

/-- The field that tells the revision of a lease. -/
def bound (r : Resource) (lease : Lease) : String × String := ("revision", (lease.base r).number.text)

/-- The record that ends a lookup: it is complete, on the revision that was found if there is one, or
it failed. -/
def ending (q : Query) (r : Resource) (access : Access) (r' : Resource) :
    Except StoreError (Option Lease) → Record
  | .ok (some lease) => (q.scope r access).completed [bound r' lease]
  | .ok none => (q.scope r access).completed []
  | .error e => (q.scope r access).failed e.message

/-- The event that tells what was found. Of a lookup that failed none does. -/
def outcome (q : Query) (r : Resource) (access : Access) (r' : Resource) :
    Except StoreError (Option Lease) → List (Event × Fields)
  | .ok (some lease) =>
    [(.snapshotResolved, q.about r ++ [bound r' lease, ("access", access.name)])]
  | .ok none => [(.snapshotAbsent, q.about r ++ [("access", access.name)])]
  | .error _ => []

/-- Whether something was found is counted, unless the lookup failed. -/
def counted {ε α : Type} : Except ε (Option α) → List Counter
  | .ok (some _) => [.snapshotsResolved]
  | .ok none => [.snapshotsAbsent]
  | .error _ => []

variable {f : Faults} {access : Access} {r r' : Resource} {ks : List Counter}
  {es : List (Event × Fields)}

/-- The records of a lookup in order: its beginning, what happens on its way, its end, the outcome. -/
def written (q : Query) (r : Resource) (access : Access) (es : List (Event × Fields)) (r' : Resource)
    (found : Except StoreError (Option Lease)) : List Record :=
  (q.scope r access).began :: eventRecords es ++
    q.ending r access r' found :: eventRecords (q.outcome r access r' found)

theorem does_ask_asOf {time : Instant} {found : Except StoreError (Option Lease)}
    (h : Does (leaseAsOf f time access) r found r' ks (eventRecords es)) :
    Does ((Query.asOf time).ask f access) r found r' (ks ++ counted found)
      ((Query.asOf time).written r access es r' found) := by
  have hwithin := h.within (scope (.asOf time) r access) StoreError.message
  match found with
  | .error e =>
    rw [counted, List.append_nil]
    exact (does_current r).bind hwithin.bind_error
  | .ok none =>
    rw [failureRecords, List.append_nil] at hwithin
    exact (does_current r).bind <| hwithin.bind <|
      (does_reportAbsent (about r (.asOf time)) access r').bind (does_pure r' none)
  | .ok (some lease) =>
    rw [failureRecords, List.append_nil] at hwithin
    exact (does_current r).bind <| hwithin.bind <|
      (does_reportFound (about r (.asOf time)) access lease r').bind (does_pure r' (some lease))

theorem does_ask_revision {choice : RevisionChoice} {found : Except StoreError Lease}
    (h : Does (leaseRevision f (choice.resolve r.mostRecent) r.mostRecent access) r found r' ks
      (eventRecords es)) :
    Does ((Query.revision choice).ask f access) r (found.map some) r' (ks ++ counted (found.map some))
      ((Query.revision choice).written r access es r' (found.map some)) := by
  have hwithin := h.within (scope (.revision choice) r access) StoreError.message
  cases found with
  | error e =>
    rw [Except.map, counted, List.append_nil]
    have hfailed : Does (snapshotOf f choice access) r (.error e) r' ks _ :=
      (does_current r).bind hwithin.bind_error
    exact hfailed.bind_error
  | ok lease =>
    rw [failureRecords, List.append_nil] at hwithin
    have hfound : Does (snapshotOf f choice access) r (.ok lease) r' (ks ++ [.snapshotsResolved]) _ :=
      (does_current r).bind <| hwithin.bind <|
        (does_reportFound (about r (.revision choice)) access lease r').bind (does_pure r' lease)
    exact hfound.bind_pure some

/-- Whatever a lookup comes to, it counts what its lease counts and the outcome, and writes its
beginning, the events of its lease, its end and the outcome. -/
theorem exists_does_ask (q : Query) (f : Faults) (access : Access) (r : Resource) :
    ∃ found r' ks es, Tallies access.counted r r' ks es ∧
      Does (q.ask f access) r found r' (ks ++ counted found) (q.written r access es r' found) := by
  cases q with
  | asOf time =>
    obtain ⟨found, r', ks, es, hlease, htallies⟩ := obeys_leaseAsOf f time access r
    exact ⟨found, r', ks, es, htallies, does_ask_asOf hlease⟩
  | revision choice =>
    obtain ⟨found, r', ks, es, hlease, htallies⟩ :=
      obeys_leaseRevision f (choice.resolve r.mostRecent) r.mostRecent access r
    exact ⟨_, r', ks, es, htallies, does_ask_revision hlease⟩

theorem apart_scope (q : Query) (r : Resource) (access : Access) : (q.scope r access).Apart := by
  have hname : Scope.Apart ⟨"RESOLVE", []⟩ :=
    { event_ne_began := fun e => by cases e <;> decide
      event_not_mem := fun e => by cases e <;> decide
      began_not_mem := by decide }
  exact hname.with_fields _

theorem brackets_written (q : Query) (r : Resource) (access : Access) {es : List (Event × Fields)}
    (hes : ∀ e ∈ es, e.1 ∉ Event.outcomes) (r' : Resource) (found : Except StoreError (Option Lease)) :
    (q.scope r access).Brackets (q.written r access es r' found) (q.ending r access r' found)
      (eventRecords (q.outcome r access r' found)) := by
  refine (q.apart_scope r access).brackets ?_ hes ?_
  · match found with
    | .ok (some _) => exact List.mem_cons_self
    | .ok none => exact List.mem_cons_self
    | .error _ => exact List.mem_cons_of_mem _ List.mem_cons_self
  · match found with
    | .ok (some _) => simp [outcome, Event.outcomes]
    | .ok none => simp [outcome, Event.outcomes]
    | .error _ => simp [outcome]

end Query

end AsOf
