import AsOf.Proofs.Lookup.Reader
import AsOf.Proofs.Resource.Run

/-!
# Lookups for changing

A lookup for changing moves the running write transaction to the snapshot, or leaves it where it is. Where
there is no snapshot, the transaction remains open all the same.

## Main definitions

* `Resource.Taken`: which write transaction is taken
* `Resource.Steered`: what steering does to a resource
* `Resource.Landing`: where the write transaction lands as of a time

## Main results

* `Resource.Sound.reports_steer`: what steering does
* `Resource.Sound.reports_leaseAsOf`: what leasing the write transaction as of a time does
* `Resource.Sound.does_snapshotOf_updatable`: what a lookup of a revision does that is to be changed
* `Resource.Sound.does_snapshotAsOf_running`, `Resource.Sound.does_snapshotOf_running`: what a lookup
  does with a write transaction that is running
* `snapshotAsOf_updatable`: an updatable snapshot never lies behind the time
* `snapshotAsOf_updatable_none`: what becomes of the write transaction
* `snapshotAsOf_none_discards`: a text that was inserted is lost
-/

namespace AsOf

open Observed

/-! ## Updatable snapshots

An updatable lookup takes the one write transaction of a resource, opens it if none is running, and
steers it to the revision that the store offers. If it then lies behind the time that was asked for,
it goes one step further back.

Where it lands depends on the revision it is based on, on the offered one and on the most recent
one: the store offers the floor of the time or the revision right behind the floor, and a
transaction goes back only to revisions before the most recent one. -/

namespace Resource

variable {r r' : Resource} {handle : Nat} {t : Transaction} {time : Instant} {s info : RevisionStamp}
  {tree tree' : Tree} {target : RevisionNumber} {times : Nat}

/-! ### The resource after a write transaction went back -/

theorem writer?_rewound (ht : r.writer? handle = some t) (times : Nat) (s : RevisionStamp)
    (tree : Tree) :
    (r.rewound handle t times s tree).writer? handle = some (t.revert s tree) := by
  rw [writer?_set rfl ht, if_pos rfl]

theorem liveWriter_rewound (live : r.liveWriter handle = .ok t) (times : Nat) (s : RevisionStamp)
    (tree : Tree) :
    (r.rewound handle t times s tree).liveWriter handle = .ok (t.revert s tree) := by
  obtain ⟨ht, hopen⟩ := liveWriter_eq_ok_iff.mp live
  exact liveWriter_eq_ok_iff.mpr ⟨writer?_rewound ht times s tree, hopen⟩

/-- Going back twice is going back to the second revision. -/
theorem rewound_rewound (r : Resource) (handle : Nat) (t : Transaction) (s info : RevisionStamp)
    (tree tree' : Tree) :
    (r.rewound handle t 1 info tree').rewound handle (t.revert info tree') 1 s tree =
      r.rewound handle t 2 s tree := by
  simp only [rewound, Array.setIfInBounds_setIfInBounds, Transaction.revert]

theorem writerBase_of_live (live : r.liveWriter handle = .ok t) : r.writerBase handle = t.base := by
  rw [writerBase, (liveWriter_eq_ok_iff.mp live).1, Option.elim_some]

/-! ### Taking the write transaction -/

/-- Which write transaction is taken, which resource that leaves, and what is counted: the running
one is taken as it is, and where none is running, one on the most recent revision is opened. -/
inductive Taken (r : Resource) : Nat → Transaction → Resource → Counter → Prop
  | reused {handle : Nat} {t : Transaction} (h : r.running = some handle)
      (live : r.liveWriter handle = .ok t) : Taken r handle t r .writeTrxReused
  | opened {tree : Tree} (idle : r.running = none)
      (hs : r.history.revision? r.mostRecent = some (r.history.latest, tree)) :
      Taken r r.writers.size { base := r.history.latest, tree } (r.opened tree) .writeTrxOpened

variable {r₀ : Resource} {k : Counter}

theorem Taken.sound (h₀ : r₀.Sound) (h : r₀.Taken handle t r k) : r.Sound := by
  cases h with
  | reused => exact h₀
  | opened idle => exact h₀.opened idle _

theorem Taken.live (h : r₀.Taken handle t r k) : r.liveWriter handle = .ok t := by
  cases h with
  | reused _ live => exact live
  | opened => exact liveWriter_eq_ok_iff.mpr ⟨(writer?_opened _ _ _).trans (if_pos rfl), rfl⟩

theorem Taken.running (h : r₀.Taken handle t r k) : r.running = some handle := by
  cases h with
  | reused h => exact h
  | opened => rfl

theorem Taken.history_eq (h : r₀.Taken handle t r k) : r.history = r₀.history := by
  cases h <;> rfl

theorem Taken.mostRecent_eq (h : r₀.Taken handle t r k) : r.mostRecent = r₀.mostRecent :=
  congrArg (·.latest.number) h.history_eq

theorem Taken.reverts_eq (h : r₀.Taken handle t r k) : r.tally.reverts = r₀.tally.reverts := by
  cases h <;> rfl

/-- The running write transaction is taken as it is. -/
theorem does_takeWriter_of_running (hrun : r.running = some handle) :
    Does (takeWriter .none) r (.ok handle) r [.writeTrxReused]
      [Event.writeTrxReused.record [("resource", r.name)]] := by
  refine (does_current r).bind ?_
  rw [Faults.hasRunning_none, Faults.runningHandle_none, hrun]
  exact (does_count r _).bind <| (does_report r _ _).bind (does_pure r handle)

/-- Where none is running, a new write transaction is taken. -/
theorem does_takeWriter_of_idle {r' : Resource} (idle : r.running = none)
    (hstart : r.startWriter = .ok (handle, r')) :
    Does (takeWriter .none) r (.ok handle) r' [.writeTrxOpened]
      [Event.writeTrxOpened.record [("resource", r.name)]] := by
  refine (does_current r).bind ?_
  rw [Faults.hasRunning_none, idle]
  refine (does_current r).bind <| (does_ofExcept r (.ok ())).bind ?_
  exact (does_update hstart).bind <| (does_count _ _).bind <|
    (does_report _ _ _).bind (does_pure _ _)

theorem reports_takeWriter_of_idle {r' : Resource} (idle : r.running = none)
    (hstart : r.startWriter = .ok (handle, r')) :
    Reports (takeWriter .none) r (.ok handle) r' [.writeTrxOpened] :=
  ⟨[(.writeTrxOpened, _)], does_takeWriter_of_idle idle hstart⟩

/-- A write transaction can always be taken. -/
theorem Sound.reports_takeWriter (hr : r.Sound) :
    ∃ handle t r' k, r.Taken handle t r' k ∧
      Reports (takeWriter .none) r (.ok handle) r' [k] := by
  cases hrun : r.running with
  | some handle =>
    obtain ⟨t, ht, hopen⟩ := hr.running hrun
    refine ⟨handle, t, r, _, .reused hrun (liveWriter_eq_ok_iff.mpr ⟨ht, hopen⟩), ?_⟩
    exact ⟨[(.writeTrxReused, _)], does_takeWriter_of_running hrun⟩
  | none =>
    obtain ⟨tree, hs, hstart⟩ := hr.exists_startWriter hrun
    exact ⟨_, _, _, _, .opened hrun hs, reports_takeWriter_of_idle hrun hstart⟩

/-! ### Steering -/

theorem reports_goBack (live : r.liveWriter handle = .ok t) (earlier : target < r.mostRecent)
    (hs : r.history.revision? target = some (s, tree)) :
    Reports (goBack handle target) r (.ok ()) (r.rewound handle t 1 s tree) [.reverts] := by
  have hrevert := revert_eq_ok_iff.mpr ⟨t, s, tree, live, earlier, hs, rfl⟩
  have hupdate : Reports (Observed.update fun r => return ((), ← r.revert handle target)) r (.ok ())
      (r.rewound handle t 1 s tree) [] := by
    apply reports_update
    rw [hrevert]
    rfl
  exact hupdate.bind <| (reports_current _).bind <| (reports_count _ _).bind (reports_report _ _ _)

/-- What steering does to a resource, and how often the transaction goes back. -/
inductive Steered (r : Resource) (handle : Nat) (t : Transaction) (target : RevisionNumber) :
    Resource → Nat → Prop
  | there (h : target = t.base.number) : Steered r handle t target r 0
  | skipped (h : target ≠ t.base.number) (late : ¬target < r.mostRecent) :
      Steered r handle t target r 0
  | back {s : RevisionStamp} {tree : Tree} (h : target ≠ t.base.number)
      (earlier : target < r.mostRecent) (sealed : r.history.revision? target = some (s, tree)) :
      Steered r handle t target (r.rewound handle t 1 s tree) 1

/-- What steering does. -/
theorem Sound.reports_steer (hr : r.Sound) (live : r.liveWriter handle = .ok t)
    (target : RevisionNumber) :
    ∃ r' times, r.Steered handle t target r' times ∧
      Reports (steer handle target r.mostRecent) r (.ok ()) r'
        (List.replicate times .reverts) := by
  by_cases h : target = t.base.number
  · refine ⟨_, _, .there h, (reports_current r).bind ?_⟩
    rw [writerBase_of_live live, if_pos h]
    exact reports_pure r ()
  · by_cases earlier : target < r.mostRecent
    · have hle : target ≤ r.mostRecent := Nat.le_of_lt earlier
      obtain ⟨s, tree, hs⟩ := hr.history.exists_revision?_iff.mpr hle
      refine ⟨_, _, .back h earlier hs, (reports_current r).bind ?_⟩
      rw [writerBase_of_live live, if_neg h, if_pos earlier]
      exact reports_goBack live earlier hs
    · refine ⟨_, _, .skipped h earlier, (reports_current r).bind ?_⟩
      rw [writerBase_of_live live, if_neg h, if_neg earlier]
      exact reports_report r _ _

/-! ### The step back -/

theorem reports_settle_stay (live : r.liveWriter handle = .ok t) (hle : t.base.time ≤ time)
    (offered : RevisionNumber) :
    Reports (settle handle time offered) r (.ok (some handle)) r [] := by
  refine (reports_current r).bind ?_
  rw [writerBase_of_live live, if_pos hle]
  exact reports_pure r _

theorem reports_settle_first (live : r.liveWriter handle = .ok t) (late : ¬t.base.time ≤ time)
    (hfirst : t.base.number = .first) (offered : RevisionNumber) :
    Reports (settle handle time offered) r (.ok none) r [] := by
  refine (reports_current r).bind ?_
  rw [writerBase_of_live live, if_neg late, hfirst, RevisionNumber.previous_first]
  exact reports_pure r _

theorem reports_settle_back (live : r.liveWriter handle = .ok t) (late : ¬t.base.time ≤ time)
    (hnext : t.base.number = s.number.next) (earlier : s.number < r.mostRecent)
    (hs : r.history.revision? s.number = some (s, tree)) (offered : RevisionNumber) :
    Reports (settle handle time offered) r (.ok (some handle)) (r.rewound handle t 1 s tree)
      [.reverts] := by
  refine (reports_current r).bind ?_
  rw [writerBase_of_live live, if_neg late, hnext, RevisionNumber.previous_next]
  exact (reports_goBack live earlier hs).bind <|
    (reports_reportStep _ _ _).bind (reports_pure _ _)

/-! ### Landing -/

/-- Where the write transaction lands that is to be brought to a time, and how often it goes back on
the way there. -/
inductive Landing (r : Resource) (handle : Nat) (t : Transaction) (time : Instant) :
    Option Nat → Resource → Nat → Prop
  | there {tree : Tree} (floor : r.history.IsFloor time t.base tree)
      (hc : r.candidate time = t.base.number) : Landing r handle t time (some handle) r 0
  | older (hc : r.candidate time = r.mostRecent) (hlt : t.base.number < r.mostRecent)
      (hle : t.base.time ≤ time) : Landing r handle t time (some handle) r 0
  | back {s : RevisionStamp} {tree : Tree} (floor : r.history.IsFloor time s tree)
      (earlier : s.number < r.mostRecent) (hne : t.base.number ≠ s.number)
      (hc : r.candidate time = s.number ∨
        r.candidate time = s.number.next ∧ t.base.number = s.number.next) :
      Landing r handle t time (some handle) (r.rewound handle t 1 s tree) 1
  | backTwice {s : RevisionStamp} {tree : Tree} (floor : r.history.IsFloor time s tree)
      (hc : r.candidate time = s.number.next) (earlier : s.number.next < r.mostRecent)
      (hne : t.base.number ≠ s.number.next) :
      Landing r handle t time (some handle) (r.rewound handle t 2 s tree) 2
  | absent (h : r.history.StartsAfter time) (hfirst : t.base.number = .first) :
      Landing r handle t time none r 0
  | absentBack {s : RevisionStamp} {tree : Tree} (h : r.history.StartsAfter time)
      (hne : t.base.number ≠ .first) (hs : r.history.revision? .first = some (s, tree)) :
      Landing r handle t time none (r.rewound handle t 1 s tree) 1

/-- A transaction that need not or may not go to the offered revision stays, or goes one step back if
it is on the revision behind the floor. -/
theorem Sound.landing_of_stay (hr : r.Sound) (live : r.liveWriter handle = .ok t) (time : Instant)
    (h : r.candidate time = t.base.number ∨ ¬r.candidate time < r.mostRecent) :
    ∃ found r' times, r.Landing handle t time found r' times ∧
      Reports (settle handle time (r.candidate time)) r (.ok found) r'
        (List.replicate times .reverts) := by
  obtain ⟨btree, hbase⟩ := hr.base (liveWriter_eq_ok_iff.mp live).1
  have hle : t.base.number ≤ r.mostRecent := hr.history.exists_revision?_iff.mp ⟨_, _, hbase⟩
  by_cases hc : r.candidate time = t.base.number
  · rcases hr.standsFor_candidate time with ⟨s, tree, floor, hs | ⟨hs, hsm⟩⟩ | ⟨hafter, hfirst⟩
    · have hnumber : t.base.number = s.number := hc.symm.trans hs
      obtain ⟨rfl, rfl⟩ := floor.eq_of_revision? (hnumber ▸ hbase)
      exact ⟨_, _, _, .there floor hc, reports_settle_stay live floor.time_le _⟩
    · have hnext := hc.symm.trans hs
      have late := Instant.not_le.mpr (floor.lt_next (hnext ▸ hbase))
      have earlier : s.number < r.mostRecent := hsm
      have hne : t.base.number ≠ s.number := by
        rw [hnext]
        exact RevisionNumber.next_ne _
      exact ⟨_, _, _, .back floor earlier hne (.inr ⟨hs, hnext⟩),
        reports_settle_back live late hnext earlier floor.sealed _⟩
    · have hnumber := hc.symm.trans hfirst
      have late := Instant.not_le.mpr (hafter.lt hr.history hbase)
      exact ⟨_, _, _, .absent hafter hnumber, reports_settle_first live late hnumber _⟩
  · have hm : r.candidate time = r.mostRecent :=
      RevisionNumber.le_antisymm (hr.candidate_le time) (RevisionNumber.not_lt.mp (h.resolve_left hc))
    have hlt : t.base.number < r.mostRecent := RevisionNumber.lt_of_le_of_ne hle (hm ▸ Ne.symm hc)
    have htime : t.base.time ≤ time := by
      rcases hr.standsFor_candidate time with ⟨s, tree, floor, hs | ⟨hs, -⟩⟩ | ⟨-, hfirst⟩
      · exact floor.time_le_of_le hr.history hbase (hs ▸ hm ▸ hle)
      · rw [← hm, hs] at hlt
        exact floor.time_le_of_le hr.history hbase (Nat.le_of_lt_succ hlt)
      · rw [← hm, hfirst] at hlt
        exact absurd (RevisionNumber.first_le _) (RevisionNumber.not_le.mpr hlt)
    exact ⟨_, _, _, .older hm hlt htime, reports_settle_stay live htime _⟩

/-- A transaction that went back to the offered revision stays there, or goes one step further back
if that one lies behind the floor. -/
theorem Sound.landing_of_back (hr : r.Sound) (live : r.liveWriter handle = .ok t) (time : Instant)
    (hne : r.candidate time ≠ t.base.number) (earlier : r.candidate time < r.mostRecent)
    (hs : r.history.revision? (r.candidate time) = some (info, tree')) :
    ∃ found r' times, r.Landing handle t time found r' (1 + times) ∧
      Reports (settle handle time (r.candidate time)) (r.rewound handle t 1 info tree') (.ok found)
        r' (List.replicate times .reverts) := by
  have live' := liveWriter_rewound live 1 info tree'
  have hnumber := hr.history.number_of_revision? hs
  rcases hr.standsFor_candidate time with ⟨s, tree, floor, hc | ⟨hc, -⟩⟩ | ⟨hafter, hc⟩
  · obtain ⟨rfl, rfl⟩ := floor.eq_of_revision? (hc ▸ hs)
    exact ⟨_, _, 0, .back floor (hc ▸ earlier) (hc ▸ Ne.symm hne) (.inl hc),
      reports_settle_stay live' floor.time_le _⟩
  · have late : ¬info.time ≤ time := Instant.not_le.mpr (floor.lt_next (hc ▸ hs))
    have hlt : s.number.next < r.mostRecent := hc ▸ earlier
    have before : s.number < r.mostRecent := Nat.lt_trans (Nat.lt_succ_self _) hlt
    refine ⟨_, _, 1, .backTwice floor hc hlt (hc ▸ Ne.symm hne), ?_⟩
    rw [← rewound_rewound]
    exact reports_settle_back live' late (hnumber.trans hc) before floor.sealed _
  · have late : ¬info.time ≤ time := Instant.not_le.mpr (hafter.lt hr.history hs)
    exact ⟨_, _, 0, .absentBack hafter (hc ▸ Ne.symm hne) (hc ▸ hs),
      reports_settle_first live' late (hnumber.trans hc) _⟩

/-- What leasing the write transaction as of a time does. -/
theorem Sound.reports_leaseAsOf (h₀ : r₀.Sound) (time : Instant) :
    ∃ handle t r k found r' times, r₀.Taken handle t r k ∧ r.Landing handle t time found r' times ∧
      Reports (leaseAsOf .none time .updatable) r₀ (.ok (found.map .writer)) r'
        (k :: List.replicate times .reverts) := by
  obtain ⟨handle, t, r, k, htaken, htake⟩ := h₀.reports_takeWriter
  have hr := htaken.sound h₀
  obtain ⟨r₁, times₁, hsteered, hsteer⟩ := hr.reports_steer htaken.live (r.candidate time)
  have hafter : ∃ found r' times, r.Landing handle t time found r' (times₁ + times) ∧
      Reports (settle handle time (r.candidate time)) r₁ (.ok found) r'
        (List.replicate times .reverts) := by
    cases hsteered with
    | there h => simpa only [Nat.zero_add] using hr.landing_of_stay htaken.live time (.inl h)
    | skipped h late => simpa only [Nat.zero_add] using hr.landing_of_stay htaken.live time (.inr late)
    | back h earlier hs => exact hr.landing_of_back htaken.live time h earlier hs
  obtain ⟨found, r', times, hlanding, hsettle⟩ := hafter
  refine ⟨handle, t, r, k, found, r', _, htaken, hlanding, ?_⟩
  rw [← List.replicate_append_replicate]
  have hwriter : Reports (writerAsOf .none time) r₀ (.ok found) r' (k ::
      (List.replicate times₁ .reverts ++ List.replicate times .reverts)) :=
    htake.bind <| (reports_current r).bind <| hsteer.bind hsettle
  exact hwriter.bind_pure _

/-- A running write transaction that is looked up as of a time lands, and the reverts that are counted
are those on the way. -/
theorem Sound.does_snapshotAsOf_running (hr : r.Sound) (hrun : r.running = some handle)
    (live : r.liveWriter handle = .ok t) (time : Instant) :
    ∃ found r' counted written, r.Landing handle t time found r' (counted.count .reverts) ∧
      Does (snapshotAsOf .none time .updatable) r (.ok (found.map .writer)) r' counted written := by
  obtain ⟨k, u, r₁, _, found, r', times, htaken, hlanding, hlease⟩ := hr.reports_leaseAsOf time
  obtain ⟨written, hdoes⟩ := hlease.snapshotAsOf
  cases htaken with
  | opened idle => exact nomatch hrun.symm.trans idle
  | reused h live' =>
    obtain rfl := Option.some.inj (hrun.symm.trans h)
    obtain rfl := Except.ok.inj (live.symm.trans live')
    refine ⟨found, r', _, written, ?_, hdoes⟩
    have houtcome : ((found.map Lease.writer).elim Counter.snapshotsAbsent fun _ =>
        .snapshotsResolved) ≠ .reverts := by
      cases found with
      | none => decide
      | some landed => exact fun h => nomatch h
    rw [List.count_append, List.count_cons_of_ne (by decide), List.count_replicate_self,
      List.count_singleton, if_neg (fun h => houtcome (eq_of_beq h))]
    exact hlanding

/-- What a lookup of a revision does that is to be changed: the write transaction is taken and steered
to the revision. -/
theorem Sound.does_snapshotOf_updatable (h₀ : r₀.Sound) (choice : RevisionChoice) :
    ∃ handle t r k r' times written, r₀.Taken handle t r k ∧
      r.Steered handle t (choice.resolve r₀.mostRecent) r' times ∧
      Does (snapshotOf .none choice .updatable) r₀ (.ok (.writer handle)) r'
        (k :: List.replicate times .reverts ++ [.snapshotsResolved]) written := by
  obtain ⟨handle, t, r, k, htaken, htake⟩ := h₀.reports_takeWriter
  obtain ⟨r', times, hsteered, hsteer⟩ :=
    (htaken.sound h₀).reports_steer htaken.live (choice.resolve r₀.mostRecent)
  rw [htaken.mostRecent_eq] at hsteer
  have hlease : Reports (leaseRevision .none (choice.resolve r₀.mostRecent) r₀.mostRecent .updatable)
      r₀ (.ok (.writer handle)) r' (k :: List.replicate times .reverts) :=
    htake.bind (hsteer.bind_pure fun _ => Lease.writer handle)
  obtain ⟨written, hdoes⟩ := hlease.snapshotOf
  exact ⟨handle, t, r, k, r', times, written, htaken, hsteered, hdoes⟩

/-- The reverts that such a lookup counts are those of the steering. -/
theorem Taken.count_reverts (h : r₀.Taken handle t r k) (times : Nat) :
    List.count Counter.reverts (k :: List.replicate times .reverts ++ [.snapshotsResolved]) = times := by
  have hk : k ≠ .reverts := by
    cases h <;> decide
  rw [List.cons_append, List.count_cons_of_ne hk, List.count_append, List.count_replicate_self,
    List.count_singleton, if_neg (by decide), Nat.add_zero]

/-- A running write transaction that is looked up on a revision is steered there, and the reverts that
are counted are those on the way. -/
theorem Sound.does_snapshotOf_running (hr : r.Sound) (hrun : r.running = some handle)
    (live : r.liveWriter handle = .ok t) (choice : RevisionChoice) :
    ∃ r' counted written,
      r.Steered handle t (choice.resolve r.mostRecent) r' (counted.count .reverts) ∧
      Does (snapshotOf .none choice .updatable) r (.ok (.writer handle)) r' counted written := by
  obtain ⟨handle', u, r₁, k, r', times, written, htaken, hsteered, hdoes⟩ :=
    hr.does_snapshotOf_updatable choice
  have hcount := htaken.count_reverts times
  cases htaken with
  | opened idle => exact nomatch hrun.symm.trans idle
  | reused h live' =>
    obtain rfl := Option.some.inj (hrun.symm.trans h)
    obtain rfl := Except.ok.inj (live.symm.trans live')
    exact ⟨r', _, written, hcount.symm ▸ hsteered, hdoes⟩

/-! ### Where the transaction is behind a landing -/

variable {found : Option Nat} {landed : Nat}

theorem Landing.history_eq (h : r.Landing handle t time found r' times) :
    r'.history = r.history := by
  cases h <;> rfl

theorem Landing.running_eq (h : r.Landing handle t time found r' times) :
    r'.running = r.running := by
  cases h <;> rfl

theorem Landing.reverts_eq (h : r.Landing handle t time found r' times) :
    r'.tally.reverts = r.tally.reverts + times := by
  cases h <;> rfl

theorem Landing.sound (hr : r.Sound) (live : r.liveWriter handle = .ok t)
    (h : r.Landing handle t time found r' times) : r'.Sound := by
  cases h with
  | there | older | absent => exact hr
  | back floor | backTwice floor => exact hr.rewound live floor.sealed _
  | absentBack _ _ hs => exact hr.rewound live hs 1

/-- The transaction lands nowhere exactly for the times before the first revision. -/
theorem Landing.eq_none_iff (hr : r.Sound) (live : r.liveWriter handle = .ok t)
    (h : r.Landing handle t time found r' times) :
    found = none ↔ r.history.StartsAfter time := by
  have of_not : ¬r.history.StartsAfter time → (some handle = none ↔ r.history.StartsAfter time) := by
    intro hnot
    constructor
    · intro h
      cases h
    · intro hafter
      exact absurd hafter hnot
  cases h with
  | there floor | back floor | backTwice floor => exact of_not (floor.not_startsAfter hr.history)
  | older _ _ hle =>
    obtain ⟨tree, hbase⟩ := hr.base (liveWriter_eq_ok_iff.mp live).1
    exact of_not fun hafter => Instant.not_le.mpr (hafter.lt hr.history hbase) hle
  | absent h | absentBack h => exact ⟨fun _ => h, fun _ => rfl⟩

/-- The transaction that lands somewhere is not closed and does not lie behind the time. -/
theorem Landing.exists_live (live : r.liveWriter handle = .ok t)
    (h : r.Landing handle t time (some landed) r' times) :
    landed = handle ∧ ∃ t', r'.liveWriter handle = .ok t' ∧ t'.base.time ≤ time := by
  cases h with
  | there floor _ => exact ⟨rfl, t, live, floor.time_le⟩
  | older _ _ hle => exact ⟨rfl, t, live, hle⟩
  | back floor | backTwice floor =>
    exact ⟨rfl, _, liveWriter_rewound live _ _ _, floor.time_le⟩

/-- A transaction that was based on the most recent revision lands on the floor, and if it went back
at all, with the tree of the floor. -/
theorem Landing.isFloor (live : r.liveWriter handle = .ok t) (hm : t.base.number = r.mostRecent)
    (h : r.Landing handle t time (some landed) r' times) :
    ∃ t' tree, r'.liveWriter handle = .ok t' ∧ r.history.IsFloor time t'.base tree ∧
      (times ≠ 0 → t'.tree = tree) := by
  cases h with
  | there floor _ => exact ⟨t, _, live, floor, fun h => absurd rfl h⟩
  | older _ hlt => exact absurd hm (RevisionNumber.ne_of_lt hlt)
  | back floor | backTwice floor =>
    exact ⟨_, _, liveWriter_rewound live _ _ _, floor, fun _ => rfl⟩

end Resource

/-- **An updatable snapshot never lies behind the time.** Whatever happened to the resource, whatever
the clock showed and whichever policy it has, the lookup is not refused. There is no snapshot exactly
if the time lies before the first revision; otherwise the snapshot is the running write transaction,
on a revision that does not lie behind the time. Unless a write transaction on an older revision was
running before, this is the floor of the time, and a transaction that went back there shows the tree
of the floor. -/
theorem snapshotAsOf_updatable (name : String) (lookup : LookupPolicy) (created : Instant)
    (events : List ResourceEvent) (time : Instant) (c : Counters) (j : Journal) :
    let r := (Resource.create name lookup created).run events
    ∃ found o, snapshotAsOf .none time .updatable ⟨r, c, j⟩ = (.ok found, o) ∧
      (found = none ↔ r.history.StartsAfter time) ∧
      (∀ {lease}, found = some lease → ∃ handle t, lease = .writer handle ∧
        o.state.running = some handle ∧ o.state.liveWriter handle = .ok t ∧
        (∃ tree, r.history.revision? t.base.number = some (t.base, tree)) ∧ t.base.time ≤ time ∧
        ((∀ {handle₀ t₀}, r.running = some handle₀ → r.writer? handle₀ = some t₀ →
            t₀.base.number = r.mostRecent) →
          ∃ tree, r.history.IsFloor time t.base tree ∧
            (o.state.tally.reverts ≠ r.tally.reverts → t.tree = tree))) ∧
      o.state.history = r.history := by
  intro r
  have hr : r.Sound := Resource.sound_run name lookup created events
  obtain ⟨handle, t, r₁, k, found, r', times, htaken, hlanding, hlease⟩ := hr.reports_leaseAsOf time
  obtain ⟨written, hdoes⟩ := hlease.snapshotAsOf
  have hr₁ := htaken.sound hr
  have live := htaken.live
  have hhistory := hlanding.history_eq.trans htaken.history_eq
  refine ⟨_, _, hdoes c j, ?_, ?_, hhistory⟩
  · rw [Option.map_eq_none_iff, ← htaken.history_eq]
    exact hlanding.eq_none_iff hr₁ live
  · intro lease hfound
    obtain ⟨landed, rfl, rfl⟩ := Option.map_eq_some_iff.mp hfound
    obtain ⟨rfl, t', live', hle⟩ := hlanding.exists_live live
    have hr' := hlanding.sound hr₁ live
    obtain ⟨tree', hbase⟩ := hr'.base (Resource.liveWriter_eq_ok_iff.mp live').1
    refine ⟨_, t', rfl, hlanding.running_eq.trans htaken.running, live', ?_, hle, ?_⟩
    · exact ⟨tree', hhistory ▸ hbase⟩
    · intro hlatest
      have hm : t.base.number = r₁.mostRecent := by
        cases htaken with
        | reused h live => exact hlatest h (Resource.liveWriter_eq_ok_iff.mp live).1
        | opened => rfl
      obtain ⟨u, tree, hu, floor, htree⟩ := hlanding.isFloor live hm
      obtain rfl := Except.ok.inj (hu.symm.trans live')
      refine ⟨tree, htaken.history_eq ▸ floor, fun hne => htree fun hzero => hne ?_⟩
      have := hlanding.reverts_eq.trans (congrArg (· + times) htaken.reverts_eq)
      rw [hzero] at this
      exact this

/-! ## Updatable lookups that find nothing

A resource has no snapshot as of a time before its first revision. An updatable lookup as of such a time
finds that out only after it took the write transaction and steered it to what the store offers, which is
the first revision. So it leaves a transaction alone that is based on the first revision, and takes every
other one back there, with all that was not sealed.

Either way the transaction remains the running one and is not closed, and nothing is sealed. -/

namespace Resource

variable {r r' : Resource} {handle times : Nat} {t : Transaction} {time : Instant}

/-- A transaction that lands nowhere and is based on the first revision stays as it is. -/
theorem Landing.eq_of_none (h : r.Landing handle t time none r' times)
    (hfirst : t.base.number = .first) : r' = r ∧ times = 0 := by
  cases h with
  | absent => exact ⟨rfl, rfl⟩
  | absentBack _ hne => exact absurd hfirst hne

/-- A transaction that lands nowhere and is based on a later revision went back to the first one. -/
theorem Landing.rewound_of_none (h : r.Landing handle t time none r' times)
    (hne : t.base.number ≠ .first) : ∃ s tree, r.history.revision? .first = some (s, tree) ∧
      r' = r.rewound handle t 1 s tree ∧ times = 1 := by
  cases h with
  | absent _ hfirst => exact absurd hfirst hne
  | @absentBack s tree _ _ hs => exact ⟨s, tree, hs, rfl, rfl⟩

/-- A transaction that went back shows the tree of the revision, with its cursor on the document
root. -/
theorem writer?_rewound_of_live (live : r.liveWriter handle = .ok t) (times : Nat) (s : RevisionStamp)
    (tree : Tree) :
    (r.rewound handle t times s tree).writer? handle = some { base := s, tree } := by
  obtain ⟨ht, hopen⟩ := liveWriter_eq_ok_iff.mp live
  rw [writer?_rewound ht, Transaction.revert, hopen]

end Resource

/-- **An updatable lookup that finds nothing takes the write transaction back to the first revision.**
Whatever happened to the resource and whichever policy it has, let a write transaction be running, and
let an updatable lookup find no snapshot. The transaction is still running and not closed, and no
revision was sealed. If it was based on the first revision, it is left as it was, with what was inserted
and with its cursor, and no revert is counted. If it was based on a later one, it went back to the first
revision: it shows the tree of that one, with its cursor on the document root, one revert is counted, and
nothing else has changed. -/
theorem snapshotAsOf_updatable_none (name : String) (lookup : LookupPolicy) (created : Instant)
    (events : List ResourceEvent) (time : Instant) (c : Counters) (j : Journal) {handle : Nat}
    {t : Transaction} {o : Observed Resource} :
    let r := (Resource.create name lookup created).run events
    r.running = some handle → r.writer? handle = some t →
    snapshotAsOf .none time .updatable ⟨r, c, j⟩ = (.ok none, o) →
      o.state.running = some handle ∧ o.state.history = r.history ∧
      (t.base.number = .first → o.state = r ∧ o.counters.reverts = c.reverts ∧ t.closed = false) ∧
      (t.base.number ≠ .first → ∃ s tree, r.history.revision? .first = some (s, tree) ∧
        o.state.writer? handle = some { base := s, tree, cursor := rootKey, closed := false } ∧
        o.state = { r with
          writers := r.writers.setIfInBounds handle
            { base := s, tree, cursor := rootKey, closed := false }
          tally := { r.tally with reverts := r.tally.reverts + 1 } } ∧
        o.counters.reverts = c.reverts + 1) := by
  intro r hrun ht hnone
  have hr : r.Sound := Resource.sound_run name lookup created events
  obtain ⟨u, hu, hopen⟩ := hr.running hrun
  obtain rfl := Option.some.inj (hu.symm.trans ht)
  have live := Resource.liveWriter_eq_ok_iff.mpr ⟨ht, hopen⟩
  obtain ⟨found, r', counted, written, hlanding, hdoes⟩ :=
    hr.does_snapshotAsOf_running hrun live time
  obtain ⟨hfound, rfl⟩ := Prod.mk.inj ((hdoes c j).symm.trans hnone)
  obtain rfl := Option.map_eq_none_iff.mp (Except.ok.inj hfound)
  have hreverts : (c.countAll counted).reverts = c.reverts + counted.count .reverts :=
    c.get_countAll counted .reverts
  refine ⟨hlanding.running_eq.trans hrun, hlanding.history_eq, fun hfirst => ?_, fun hne => ?_⟩
  · obtain ⟨rfl, htimes⟩ := hlanding.eq_of_none hfirst
    rw [htimes] at hreverts
    exact ⟨rfl, hreverts, hopen⟩
  · obtain ⟨s, tree, hs, rfl, htimes⟩ := hlanding.rewound_of_none hne
    rw [htimes] at hreverts
    refine ⟨s, tree, hs, Resource.writer?_rewound_of_live live 1 s tree, ?_, hreverts⟩
    rw [Resource.rewound, Transaction.revert, hopen]

/-- A transaction on the second revision, in which a text was inserted, is taken back to the first
revision by a lookup as of a time before all revisions. -/
theorem snapshotAsOf_updatable_none_second :
    let events : List ResourceEvent := [.startWriter, .edit 0 (.second 20) .commit,
      .edit 0 (.second 20) (.insert (.text "draft"))]
    let r := (Resource.create "log" .nearest (.second 10)).run events
    let o := (snapshotAsOf .none (.second 5) .updatable ⟨r, {}, {}⟩).2
    r.running = some 0 ∧ (r.writer? 0).any (·.base.number ≠ .first) = true ∧
      ∃ s tree, r.history.revision? .first = some (s, tree) ∧
        o.state.writer? 0 = some { base := s, tree, cursor := rootKey, closed := false } := by
  intro events r o
  have hrun : r.running = some 0 := by decide +kernel
  obtain ⟨t, ht⟩ := Option.isSome_iff_exists.mp (show (r.writer? 0).isSome = true by decide +kernel)
  have hbase : (r.writer? 0).any (·.base.number ≠ .first) = true := by decide +kernel
  have hne : t.base.number ≠ .first := by simpa [ht] using hbase
  have hnone : snapshotAsOf .none (.second 5) .updatable ⟨r, {}, {}⟩ = (.ok none, o) :=
    Prod.ext (eq_ok_of_toOption (by decide +kernel)) rfl
  obtain ⟨-, -, -, hback⟩ := snapshotAsOf_updatable_none "log" .nearest (.second 10) events (.second 5)
    {} {} hrun ht hnone
  obtain ⟨s, tree, hs, hwriter, -⟩ := hback hne
  exact ⟨hrun, hbase, s, tree, hs, hwriter⟩

/-- A write transaction on the second revision, in which a text was inserted, loses the text and its
place when an updatable lookup finds nothing. -/
theorem snapshotAsOf_none_discards :
    let r := (Resource.create "log" .floor (.second 10)).run
      [.startWriter, .edit 0 (.second 20) .commit, .edit 0 (.second 20) (.insert (.text "draft"))]
    let answer := snapshotAsOf .none (.second 5) .updatable ⟨r, {}, {}⟩
    r.running = some 0 ∧ answer.1.toOption = some none ∧
      (r.writer? 0).map (fun t => (t.base.number.val, t.tree.contains 1, t.cursor)) =
        some (2, true, 1) ∧
      (answer.2.state.writer? 0).map (fun t => (t.base.number.val, t.tree.contains 1, t.cursor)) =
        some (1, false, 0) ∧
      r.tally.reverts = 0 ∧ answer.2.state.tally.reverts = 1 := by
  decide +kernel

end AsOf
