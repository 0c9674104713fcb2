import AsOf.Proofs.Lookup.Reader
import AsOf.Proofs.Lookup.Writer

/-!
# Lookups of revisions

What a lookup finds where no write transaction is running, and what is found by the number of a revision.

## Main definitions

* `Resource.GoesBackTo`: when a lookup of a revision takes a write transaction back

## Main results

* `Resource.Sound.does_snapshotAsOf_of_idle`: a lookup as of a time binds the floor of the time
* `Resource.Sound.does_snapshotOf_of_idle`: a lookup of a revision binds that revision
* `Resource.Sound.exists_revision?_of_snapshotOf`: a lookup of any number finds a sealed revision, if any
* `Resource.does_snapshotOf_readOnly`, `Resource.does_snapshotOf_readOnly_error`: what is read of it
* `Resource.Steered.goesBack`, `Resource.Steered.stays`: what steering does, by this condition
* `snapshotOf_exact`: what a lookup of a revision does
-/

namespace AsOf

open Observed

/-! ## Lookups of idle resources

While no write transaction of a resource is running, both kinds of lookups bind the same revision. A
write transaction that is opened for a lookup is based on the latest revision, so it may go back to any
other one. -/

theorem Lease.isUpdatable_of_access {lease : Lease} {flag : Bool}
    (h : lease.access = .ofUpdatable flag) : lease.isUpdatable = flag := by
  cases lease <;> cases flag <;> first | rfl | cases h

namespace Resource

variable {r r' : Resource} {handle times : Nat} {t : Transaction} {s : RevisionStamp} {tree : Tree}
  {target : RevisionNumber}

/-- A transaction that was based on the latest revision is steered to the target. -/
theorem Steered.base_eq (live : r.liveWriter handle = .ok t) (hbase : t.base = r.history.latest)
    (hr : r.Sound) (hs : r.history.revision? target = some (s, tree))
    (h : r.Steered handle t target r' times) : r'.writerBase handle = s := by
  cases h with
  | there h =>
    obtain ⟨latest, hlatest⟩ := hr.history.exists_revision?_latest
    rw [h, hbase, hlatest] at hs
    obtain ⟨rfl, -⟩ := Prod.mk.inj (Option.some.inj hs)
    exact (writerBase_of_live live).trans hbase
  | skipped h late =>
    have hle : target ≤ r.mostRecent := hr.history.exists_revision?_iff.mp ⟨s, tree, hs⟩
    have hne : target ≠ r.mostRecent := fun heq => h (heq.trans (congrArg _ hbase.symm))
    exact absurd (RevisionNumber.lt_of_le_of_ne hle hne) late
  | back _ _ hback =>
    obtain ⟨rfl, rfl⟩ := Prod.mk.inj (Option.some.inj (hback.symm.trans hs))
    exact writerBase_of_live (liveWriter_rewound live 1 _ _)

/-- A transaction that was based on the latest revision shows a sealed one wherever it was to be
steered. -/
theorem Steered.exists_revision? (live : r.liveWriter handle = .ok t)
    (hbase : t.base = r.history.latest) (hr : r.Sound) (h : r.Steered handle t target r' times) :
    ∃ n tree, r.history.revision? n = some (r'.writerBase handle, tree) := by
  have hlatest : ∃ n tree, r.history.revision? n = some (r.writerBase handle, tree) := by
    rw [writerBase_of_live live, hbase]
    exact ⟨_, hr.history.exists_revision?_latest⟩
  cases h with
  | there h => exact hlatest
  | skipped h late => exact hlatest
  | @back _ tree _ _ hback =>
    refine ⟨target, tree, ?_⟩
    rw [writerBase_of_live (liveWriter_rewound live 1 _ _)]
    exact hback

/-- A lookup as of a time finds nothing exactly for the times before the first revision, and binds the
floor of every other time. -/
theorem Sound.does_snapshotAsOf_of_idle (hr : r.Sound) (idle : r.running = none) (time : Instant)
    (access : Access) :
    ∃ found r' counted written,
      Does (snapshotAsOf .none time access) r (.ok found) r' counted written ∧
      (found = none ↔ r.history.StartsAfter time) ∧
      ∀ {lease}, found = some lease → lease.access = access ∧
        ∃ tree, r.history.IsFloor time (lease.base r') tree := by
  cases access with
  | readOnly =>
    obtain ⟨found, r', opened, counted, written, hreading, hdoes⟩ :=
      hr.does_snapshotAsOf_readOnly time
    refine ⟨_, r', counted, written, hdoes, ?_, fun {lease} hlease => ?_⟩
    · rw [Option.map_eq_none_iff]
      exact hreading.eq_none_iff hr
    · obtain ⟨trx, rfl, rfl⟩ := Option.map_eq_some_iff.mp hlease
      obtain ⟨s, tree, rfl, floor, -⟩ := hreading.isFloor
      exact ⟨rfl, tree, floor⟩
  | updatable =>
    obtain ⟨handle, t, r₁, k, found, r', times, htaken, hlanding, hlease⟩ := hr.reports_leaseAsOf time
    obtain ⟨written, hdoes⟩ := hlease.snapshotAsOf
    have hhistory := htaken.history_eq
    have hbase : t.base.number = r₁.mostRecent := by
      cases htaken with
      | reused hrunning => cases idle.symm.trans hrunning
      | opened => rfl
    refine ⟨_, r', _, written, hdoes, ?_, fun {lease} hlease => ?_⟩
    · rw [Option.map_eq_none_iff, ← hhistory]
      exact hlanding.eq_none_iff (htaken.sound hr) htaken.live
    · obtain ⟨landed, rfl, rfl⟩ := Option.map_eq_some_iff.mp hlease
      obtain ⟨rfl, -⟩ := hlanding.exists_live htaken.live
      obtain ⟨t', tree, live, floor, -⟩ := hlanding.isFloor htaken.live hbase
      refine ⟨rfl, tree, ?_⟩
      rw [Lease.base, writerBase_of_live live, ← hhistory]
      exact floor

/-- A read-only lookup of a revision is a new read transaction on it. -/
theorem does_snapshotOf_readOnly {choice : RevisionChoice}
    (hs : r.history.revision? (choice.resolve r.mostRecent) = some (s, tree)) :
    ∃ counted written, Does (snapshotOf .none choice .readOnly) r
      (.ok (.reader { base := s, tree })) r.countedOpen counted written := by
  have hlease : Reports (leaseRevision .none (choice.resolve r.mostRecent) r.mostRecent .readOnly) r
      (.ok (.reader { base := s, tree })) r.countedOpen _ :=
    (reports_takeReader (.revision _) hs).bind_pure Lease.reader
  obtain ⟨written, hdoes⟩ := hlease.snapshotOf
  exact ⟨_, written, hdoes⟩

/-- A read-only lookup of a revision that is not there is refused, and counts nothing. -/
theorem does_snapshotOf_readOnly_error {choice : RevisionChoice}
    (hs : r.history.revision? (choice.resolve r.mostRecent) = none) :
    ∃ written, Does (snapshotOf .none choice .readOnly) r
      (.error (.revisionOutOfRange (choice.resolve r.mostRecent) r.mostRecent)) r [] written := by
  have hstart : r.startReader (choice.resolve r.mostRecent) =
      .error (.revisionOutOfRange (choice.resolve r.mostRecent) r.mostRecent) := by
    rw [startReader, hs]
  have hnew : Reports (newReader .none (.revision (choice.resolve r.mostRecent))) r _ r _ :=
    (reports_ofExcept r (.ok ())).bind (reports_update_error hstart)
  have hlease : Reports (leaseRevision .none (choice.resolve r.mostRecent) r.mostRecent .readOnly) r
      _ r [] := hnew.bind_error.bind_error
  let about : Fields := [("resource", r.name), ("requested", choice.text)]
  obtain ⟨_, hwithin⟩ := hlease.within (lookupScope about .readOnly) StoreError.message
  exact ⟨_, (does_current r).bind hwithin.bind_error⟩

/-- A lookup of a revision that is to be changed yields a write transaction on that revision, or on
another sealed one if there is none with its number. -/
theorem Sound.does_snapshotOf_updatable_of_idle (hr : r.Sound) (idle : r.running = none)
    (choice : RevisionChoice) :
    ∃ handle r' counted written,
      Does (snapshotOf .none choice .updatable) r (.ok (.writer handle)) r' counted written ∧
      (∀ {s tree}, r.history.revision? (choice.resolve r.mostRecent) = some (s, tree) →
        r'.writerBase handle = s) ∧
      ∃ n tree, r.history.revision? n = some (r'.writerBase handle, tree) := by
  obtain ⟨handle, t, r₁, k, r', times, written, htaken, hsteered, hdoes⟩ :=
    hr.does_snapshotOf_updatable choice
  have hbase : t.base = r₁.history.latest := by
    cases htaken with
    | reused hrunning => cases idle.symm.trans hrunning
    | opened => rfl
  rw [← htaken.history_eq]
  exact ⟨handle, r', _, written, hdoes, hsteered.base_eq htaken.live hbase (htaken.sound hr),
    hsteered.exists_revision? htaken.live hbase (htaken.sound hr)⟩

/-- A lookup of a revision binds it. -/
theorem Sound.does_snapshotOf_of_idle (hr : r.Sound) (idle : r.running = none)
    {choice : RevisionChoice} (access : Access)
    (hs : r.history.revision? (choice.resolve r.mostRecent) = some (s, tree)) :
    ∃ lease r' counted written,
      Does (snapshotOf .none choice access) r (.ok lease) r' counted written ∧
      lease.access = access ∧ lease.base r' = s := by
  cases access with
  | readOnly =>
    obtain ⟨counted, written, hdoes⟩ := does_snapshotOf_readOnly hs
    exact ⟨_, _, counted, written, hdoes, rfl, rfl⟩
  | updatable =>
    obtain ⟨handle, r', counted, written, hdoes, hbase, -⟩ :=
      hr.does_snapshotOf_updatable_of_idle idle choice
    exact ⟨_, r', counted, written, hdoes, rfl, hbase hs⟩

/-- Whichever revision is looked up, what is found is a sealed one. -/
theorem Sound.exists_revision?_of_snapshotOf (hr : r.Sound) (idle : r.running = none)
    (choice : RevisionChoice) (access : Access) :
    ∃ found r' counted written, Does (snapshotOf .none choice access) r found r' counted written ∧
      ∀ {lease}, found = .ok lease → lease.access = access ∧
        ∃ n tree, r.history.revision? n = some (lease.base r', tree) := by
  cases access with
  | readOnly =>
    cases hs : r.history.revision? (choice.resolve r.mostRecent) with
    | none =>
      obtain ⟨written, hdoes⟩ := does_snapshotOf_readOnly_error hs
      exact ⟨_, r, _, written, hdoes, fun hfound => nomatch hfound⟩
    | some entry =>
      obtain ⟨counted, written, hdoes⟩ := does_snapshotOf_readOnly hs
      refine ⟨_, _, counted, written, hdoes, fun hfound => ?_⟩
      obtain rfl := Except.ok.inj hfound
      exact ⟨rfl, _, _, hs⟩
  | updatable =>
    obtain ⟨handle, r', counted, written, hdoes, -, hsealed⟩ :=
      hr.does_snapshotOf_updatable_of_idle idle choice
    refine ⟨_, r', counted, written, hdoes, fun hfound => ?_⟩
    obtain rfl := Except.ok.inj hfound
    exact ⟨rfl, hsealed⟩

end Resource

/-! ## Snapshots of revisions

A revision can be read if it was sealed, and a read-only lookup of any other number is refused without
a trace. A lookup of a revision that is to be changed is never refused. Its caller shares the one write
transaction with others, and three orders decide whether it goes back: the target against the revision
that the transaction is based on, the target against the most recent revision, and with both the base
against the most recent one. Going back is refused by the resource to a transaction that is closed, and
for a target that is not sealed or not earlier than the most recent revision; a lookup never meets
these refusals. -/

namespace Resource

variable {r r' : Resource} {handle times : Nat} {t : Transaction} {target : RevisionNumber}

/-- A lookup of a revision takes a write transaction back to it: the revision lies before the most
recent one, and the transaction is not based on it. -/
def GoesBackTo (r : Resource) (t : Transaction) (target : RevisionNumber) : Prop :=
  target < r.mostRecent ∧ target ≠ t.base.number

/-- A transaction that is taken back shows the sealed tree with the cursor on the root. -/
theorem Steered.goesBack (h : r.Steered handle t target r' times) (hback : r.GoesBackTo t target) :
    times = 1 ∧ ∃ s tree, r.history.revision? target = some (s, tree) ∧
      r' = r.rewound handle t 1 s tree := by
  obtain ⟨hlt, hne⟩ := hback
  cases h with
  | there heq => exact absurd heq hne
  | skipped _ late => exact absurd hlt late
  | back _ _ hs => exact ⟨rfl, _, _, hs, rfl⟩

/-- A transaction that is not taken back stays as it is. -/
theorem Steered.stays (h : r.Steered handle t target r' times) (hstay : ¬r.GoesBackTo t target) :
    times = 0 ∧ r' = r := by
  cases h with
  | there | skipped => exact ⟨rfl, rfl⟩
  | back hne earlier => exact absurd ⟨earlier, hne⟩ hstay

/-- The number of the most recent revision is the number of revisions. -/
theorem Sound.val_mostRecent (hr : r.Sound) : r.mostRecent.val = r.history.size :=
  hr.history.ordered.val_latest? hr.history.latest?_eq

end Resource

/-- **What a lookup of a revision does.** Take any resource, whatever happened to it. Its revisions are
numbered up to the most recent one. A read-only lookup yields a new read transaction on the target, with
the time and the tree that were sealed, if the target is one of these numbers. Otherwise it is refused,
and nothing is opened, counted or changed. A lookup for changing yields the running write transaction, or
a new one on the most recent revision. If the target lies before the most recent revision and the
transaction is not based on it, then the transaction has gone back to it: it shows the sealed tree with
the cursor on the root, and the resource and the metrics have counted one more revert each. In every other
case base, tree and cursor are as they were, and no revert is counted. -/
theorem snapshotOf_exact (name : String) (lookup : LookupPolicy) (created : Instant)
    (events : List ResourceEvent) (choice : RevisionChoice) (c : Counters) (j : Journal) :
    let r := (Resource.create name lookup created).run events
    let target := choice.resolve r.mostRecent
    r.mostRecent.val = r.history.size ∧
    (∃ found o, snapshotOf .none choice .readOnly ⟨r, c, j⟩ = (found, o) ∧
      (target ≤ r.mostRecent → ∃ s tree, r.history.revision? target = some (s, tree) ∧
        s.number = target ∧ found = .ok (.reader { base := s, tree }) ∧ o.state = r.countedOpen) ∧
      (r.mostRecent < target → found = .error (.revisionOutOfRange target r.mostRecent) ∧
        o.state = r ∧ o.counters = c)) ∧
    ∃ handle t r₁ k o, r.Taken handle t r₁ k ∧
      snapshotOf .none choice .updatable ⟨r, c, j⟩ = (.ok (.writer handle), o) ∧
      (r₁.GoesBackTo t target → ∃ s tree, r.history.revision? target = some (s, tree) ∧
        s.number = target ∧ o.state = r₁.rewound handle t 1 s tree ∧
        o.state.writer? handle = some { t with base := s, tree, cursor := rootKey } ∧
        o.state.tally.reverts = r.tally.reverts + 1 ∧ o.counters.reverts = c.reverts + 1) ∧
      (¬r₁.GoesBackTo t target → o.state = r₁ ∧ o.state.writer? handle = some t ∧
        o.state.tally.reverts = r.tally.reverts ∧ o.counters.reverts = c.reverts) := by
  intro r target
  have hr : r.Sound := Resource.sound_run name lookup created events
  refine ⟨hr.val_mostRecent, ?_, ?_⟩
  · cases hs : r.history.revision? target with
    | some entry =>
      obtain ⟨s, tree⟩ := entry
      have hle : target ≤ r.mostRecent := hr.history.exists_revision?_iff.mp ⟨s, tree, hs⟩
      obtain ⟨counted, written, hdoes⟩ := Resource.does_snapshotOf_readOnly hs
      refine ⟨_, _, hdoes c j, fun _ => ?_, fun hlt => ?_⟩
      · exact ⟨s, tree, rfl, hr.history.number_of_revision? hs, rfl, rfl⟩
      · exact absurd hle (RevisionNumber.not_le.mpr hlt)
    | none =>
      have hlt : ¬target ≤ r.mostRecent := by
        intro hle
        obtain ⟨s, tree, h⟩ := hr.history.exists_revision?_iff.mpr hle
        cases hs.symm.trans h
      obtain ⟨written, hdoes⟩ := Resource.does_snapshotOf_readOnly_error hs
      exact ⟨_, _, hdoes c j, fun hle => absurd hle hlt, fun _ => ⟨rfl, rfl, rfl⟩⟩
  · obtain ⟨handle, t, r₁, k, r', times, written, htaken, hsteered, hdoes⟩ :=
      hr.does_snapshotOf_updatable choice
    have hcounted := Counters.get_countAll c (k :: List.replicate times .reverts ++ [.snapshotsResolved])
      .reverts
    rw [htaken.count_reverts times] at hcounted
    refine ⟨handle, t, r₁, k, _, htaken, hdoes c j, fun hback => ?_, fun hstay => ?_⟩
    · obtain ⟨rfl, s, tree, hs, rfl⟩ := hsteered.goesBack hback
      have ht := (Resource.liveWriter_eq_ok_iff.mp htaken.live).1
      have hsealed : r.history.revision? target = some (s, tree) := htaken.history_eq ▸ hs
      refine ⟨s, tree, hsealed, hr.history.number_of_revision? hsealed, rfl, ?_, ?_, hcounted⟩
      · exact Resource.writer?_rewound ht 1 s tree
      · exact congrArg (· + 1) htaken.reverts_eq
    · obtain ⟨rfl, rfl⟩ := hsteered.stays hstay
      exact ⟨rfl, (Resource.liveWriter_eq_ok_iff.mp htaken.live).1, htaken.reverts_eq, hcounted⟩

end AsOf
