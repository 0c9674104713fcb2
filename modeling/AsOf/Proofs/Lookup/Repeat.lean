import AsOf.Proofs.Lookup.Writer
import AsOf.Proofs.Resource.Run

/-!
# Lookups one after the other

What a lookup leaves is like the resource before it, but for its write transactions. So what is looked up next
is told by what was sealed and by where the write transaction is based.

## Main definitions

* `Resource.SameRevisions`, `Resource.Alike`: two resources have the same revisions, and their write
  transactions are based on the same ones
* `ResourceEvent.IsQuiet`: the event neither seals a revision nor moves a write transaction to another
  one, nor closes it
* `Resource.OffersBetween`: the store offers a revision between the transaction and the most recent one
* `Query.Passes`, `ResourceEvent.Passes`: the lookup takes the transaction past a bound
* `ResourceEvent.LeavesOpen`: the event is a lookup or a quiet event

## Main results

* `Resource.alike_run`: behind quiet events a resource is like the one before
* `Resource.Landing.of_isFloor`: where a transaction lands that is on the floor already
* `snapshotAsOf_updatable_again`: when an updatable snapshot of a transaction on the floor leaves
  everything as it is
* `Resource.Sound.base_le_after_iff`: what one event does to the bound
* `Resource.Sound.base_le_run_iff`: what a run does to the bound
* `running_base_le_iff`: when a shared transaction never moves forth
-/

namespace AsOf

open Observed

/-! ## Quiet events

Most of what the holders of a write transaction do moves it to no other revision: they move its
cursor, insert, read, and look up read-only snapshots. What a lookup finds depends on none of this. -/

/-- The event neither seals a revision nor moves the write transaction to another one, nor closes
it. -/
def ResourceEvent.IsQuiet : ResourceEvent → Prop
  | .endWriter | .lookUp _ .updatable => False
  | .edit _ _ e => e.IsLocal
  | _ => True

namespace Resource

/-- The resources have the same revisions and policies, and the same write transaction is running. -/
structure SameRevisions (r r' : Resource) : Prop where
  history_eq : r'.history = r.history
  lookup_eq : r'.lookup = r.lookup
  running_eq : r'.running = r.running

/-- Besides, the write transactions that are not closed are based on the same revisions. -/
structure Alike (r r' : Resource) : Prop extends SameRevisions r r' where
  live : ∀ {handle : Nat} {t : Transaction}, r.liveWriter handle = .ok t →
    ∃ t', r'.liveWriter handle = .ok t' ∧ t'.base = t.base

variable {r r' r'' : Resource} {handle : Nat} {t t' : Transaction}

theorem SameRevisions.trans (h : r.SameRevisions r') (h' : r'.SameRevisions r'') :
    r.SameRevisions r'' where
  history_eq := h'.history_eq.trans h.history_eq
  lookup_eq := h'.lookup_eq.trans h.lookup_eq
  running_eq := h'.running_eq.trans h.running_eq

theorem SameRevisions.candidate_eq (h : r.SameRevisions r') (time : Instant) :
    r'.candidate time = r.candidate time := by
  simp only [candidate, h.history_eq, h.lookup_eq]

theorem SameRevisions.mostRecent_eq (h : r.SameRevisions r') : r'.mostRecent = r.mostRecent := by
  rw [mostRecent, mostRecent, h.history_eq]

theorem Alike.refl (r : Resource) : r.Alike r := ⟨⟨rfl, rfl, rfl⟩, fun live => ⟨_, live, rfl⟩⟩

theorem Alike.trans (h : r.Alike r') (h' : r'.Alike r'') : r.Alike r'' where
  toSameRevisions := h.toSameRevisions.trans h'.toSameRevisions
  live l := by
    obtain ⟨t', l', hb⟩ := h.live l
    obtain ⟨t'', l'', hb'⟩ := h'.live l'
    exact ⟨t'', l'', hb'.trans hb⟩

/-- A transaction that moves stays on its revision. -/
theorem alike_setWriter (live : r.liveWriter handle = .ok t) (h : t.Moves t') :
    r.Alike (r.setWriter handle t') := by
  refine ⟨⟨rfl, rfl, rfl⟩, fun {k u} hu => ?_⟩
  obtain ⟨ht, hopen⟩ := liveWriter_eq_ok_iff.mp live
  have hset : (r.setWriter handle t').writer? k = if k = handle then some t' else r.writer? k :=
    writer?_set rfl ht k
  by_cases hk : k = handle
  · subst hk
    obtain rfl := Except.ok.inj (hu.symm.trans live)
    rw [if_pos rfl] at hset
    exact ⟨t', liveWriter_eq_ok_iff.mpr ⟨hset, h.closed_eq.trans hopen⟩, h.base_eq⟩
  · rw [if_neg hk] at hset
    obtain ⟨hu, huo⟩ := liveWriter_eq_ok_iff.mp hu
    exact ⟨u, liveWriter_eq_ok_iff.mpr ⟨hset.trans hu, huo⟩, rfl⟩

/-- Behind a quiet event a resource with a running write transaction is like the one before. -/
theorem alike_after (hrun : r.running = some handle) {event : ResourceEvent}
    (he : event.IsQuiet) : r.Alike (r.after event) := by
  have hcount : ∀ u : Resource, r.Alike u → r.Alike u.countedOpen ∧ r.Alike u.countedClose :=
    fun u h => ⟨⟨⟨h.1.1, h.1.2, h.1.3⟩, h.2⟩, ⟨⟨h.1.1, h.1.2, h.1.3⟩, h.2⟩⟩
  cases event with
  | startWriter =>
    refine orKeep_of_step (.refl r) fun h => ?_
    exact nomatch hrun.symm.trans (startWriter_eq_ok_iff.mp h).1
  | endWriter => cases he
  | startReader number =>
    refine orKeep_of_step (.refl r) fun h => ?_
    obtain ⟨-, -, -, -, rfl⟩ := startReader_eq_ok_iff.mp h
    exact (hcount r (.refl r)).1
  | endReader trx =>
    simp only [after, endReader]
    split
    · exact .refl r
    · exact (hcount r (.refl r)).2
  | edit handle now e =>
    refine orKeep_of_step (.refl r) fun h => ?_
    rcases moved_of_edit he h with rfl | ⟨t, t', live, hmoves, rfl⟩
    · exact .refl _
    · exact alike_setWriter live hmoves
  | lookUp q access =>
    cases access with
    | updatable => cases he
    | readOnly =>
      exact keeps_resolve_readOnly (fun u h => (hcount u h).1) (fun u h => (hcount u h).2) q
        ⟨r, {}, {}⟩ (.refl r)

/-- Behind quiet events a resource with a running write transaction is like the one before. -/
theorem alike_run (hrun : r.running = some handle) {events : List ResourceEvent}
    (he : ∀ event ∈ events, event.IsQuiet) : r.Alike (r.run events) := by
  induction events generalizing r with
  | nil => exact .refl r
  | cons event events ih =>
    have hafter := alike_after hrun (he event List.mem_cons_self)
    exact hafter.trans <| ih (hafter.running_eq.trans hrun) fun e h => he e (List.mem_cons_of_mem _ h)

end Resource

/-! ## Looking up the same time again

A write transaction that is on the floor of a time already need not go anywhere when it is looked up
as of that time, and what was inserted since need not be lost. That is what happens, except where the
store offers the revision right behind the floor and that one is not the most recent. Then the
transaction goes back, or rather forth, to the offered revision and from there to the floor, and comes
back without what was inserted. -/

namespace Resource

variable {r r' : Resource} {handle : Nat} {t : Transaction} {time : Instant} {tree : Tree}
  {found : Option Nat} {times : Nat}

/-- The store offers a revision between that of the transaction and the most recent one. -/
def OffersBetween (r : Resource) (t : Transaction) (time : Instant) : Prop :=
  t.base.number < r.candidate time ∧ r.candidate time < r.mostRecent

/-- A transaction that is on the floor already stays as it is, or goes to the revision behind the floor
and from there to the floor. -/
theorem Landing.of_isFloor (hr : r.Sound) (floor : r.history.IsFloor time t.base tree)
    (h : r.Landing handle t time found r' times) :
    found = some handle ∧ (¬r.OffersBetween t time ∧ r' = r ∧ times = 0 ∨
      r.OffersBetween t time ∧ r' = r.rewound handle t 2 t.base tree ∧ times = 2) := by
  have hnot := floor.not_startsAfter hr.history
  cases h with
  | there _ hc => exact ⟨rfl, .inl ⟨fun ⟨hlt, _⟩ => RevisionNumber.ne_of_lt hlt hc.symm, rfl, rfl⟩⟩
  | older hc => exact ⟨rfl, .inl ⟨fun ⟨_, hlt⟩ => RevisionNumber.ne_of_lt hlt hc, rfl, rfl⟩⟩
  | back floor' _ hne =>
    obtain ⟨rfl, -⟩ := floor.unique floor'
    exact absurd rfl hne
  | backTwice floor' hc earlier =>
    obtain ⟨rfl, rfl⟩ := floor.unique floor'
    have hbehind : t.base.number < r.candidate time := hc ▸ Nat.lt_succ_self _
    exact ⟨rfl, .inr ⟨⟨hbehind, hc ▸ earlier⟩, rfl, rfl⟩⟩
  | absent h | absentBack h => exact absurd h hnot

end Resource

/-- **When looking up the same time again changes nothing.** Take any resource whose running write
transaction is on the floor of a time, and whatever was inserted, read and moved since. The updatable
snapshot as of that time is this transaction. Its tree, its cursor and everything else about the
resource are as before, and nothing went back, exactly if the store does not offer a revision between
the floor and the most recent revision. If it does, the transaction goes back twice, and comes back to
the floor with the tree of the floor. -/
theorem snapshotAsOf_updatable_again (name : String) (lookup : LookupPolicy) (created : Instant)
    (events since : List ResourceEvent) (time : Instant) (c : Counters) (j : Journal) {handle : Nat}
    {t₀ : Transaction} {tree : Tree}
    (hrun : ((Resource.create name lookup created).run events).running = some handle)
    (ht₀ : ((Resource.create name lookup created).run events).writer? handle = some t₀)
    (floor : ((Resource.create name lookup created).run events).history.IsFloor time t₀.base tree)
    (hsince : ∀ event ∈ since, event.IsQuiet) :
    let r := (Resource.create name lookup created).run (events ++ since)
    ∃ t o, r.writer? handle = some t ∧ t.base = t₀.base ∧
      snapshotAsOf .none time .updatable ⟨r, c, j⟩ = (.ok (some (.writer handle)), o) ∧
      (o.state = r ∧ o.counters.reverts = c.reverts ↔ ¬r.OffersBetween t time) ∧
      (r.OffersBetween t time → o.state = r.rewound handle t 2 t.base tree ∧
        o.counters.reverts = c.reverts + 2) := by
  intro r
  have hr₁ := Resource.sound_run name lookup created events
  have hr : r.Sound := Resource.sound_run name lookup created (events ++ since)
  have halike : ((Resource.create name lookup created).run events).Alike r := by
    rw [show r = _ from Resource.run_append _ events since]
    exact Resource.alike_run hrun hsince
  obtain ⟨u, hu, hopen⟩ := hr₁.running hrun
  obtain rfl := Option.some.inj (ht₀.symm.trans hu)
  obtain ⟨t, live, hbase⟩ := halike.live (Resource.liveWriter_eq_ok_iff.mpr ⟨ht₀, hopen⟩)
  have floor' : r.history.IsFloor time t.base tree := by
    rw [halike.history_eq, hbase]
    exact floor
  obtain ⟨found, r', counted, written, hlanding, hdoes⟩ :=
    hr.does_snapshotAsOf_running (halike.running_eq.trans hrun) live time
  have hreverts : (c.countAll counted).reverts = c.reverts + counted.count .reverts :=
    Counters.get_countAll c counted .reverts
  rcases hlanding.of_isFloor hr floor' with ⟨rfl, ⟨hnot, rfl, hzero⟩ | ⟨hbetween, rfl, htwo⟩⟩
  · rw [hzero] at hreverts
    refine ⟨t, _, (Resource.liveWriter_eq_ok_iff.mp live).1, hbase, hdoes c j, ?_, ?_⟩
    · exact ⟨fun _ => hnot, fun _ => ⟨rfl, hreverts⟩⟩
    · exact fun h => absurd h hnot
  · rw [htwo] at hreverts
    refine ⟨t, _, (Resource.liveWriter_eq_ok_iff.mp live).1, hbase, hdoes c j, ?_, ?_⟩
    · constructor
      · rintro ⟨-, hsame⟩
        rw [hsame] at hreverts
        omega
      · exact fun hnot => absurd hbetween hnot
    · exact fun _ => ⟨rfl, hreverts⟩

/-- In the sixteenth second the first of three revisions is the floor, but the second one is closer:
under the policy of the closest time the transaction goes back twice. -/
theorem snapshotAsOf_updatable_again_nearest :
    let r := (Resource.create "log" .nearest (.second 10)).run
      (ResourceEvent.backToFirst ++ [.edit 0 (.second 30) (.insert (.text "errata"))])
    ∃ o, snapshotAsOf .none (.second 16) .updatable ⟨r, {}, {}⟩ = (.ok (some (.writer 0)), o) ∧
      o.counters.reverts = 2 := by
  let r := (Resource.create "log" .nearest (.second 10)).run ResourceEvent.backToFirst
  have hr : r.Sound := Resource.sound_run _ _ _ _
  have ht : r.writer? 0 = some ((r.writer? 0).getD default) := by decide +kernel
  obtain ⟨tree, floor⟩ := hr.history.floor_eq_some_iff.mp
    (show r.history.timeline.floor (.second 16) = some ((r.writer? 0).getD default).base by
      decide +kernel)
  obtain ⟨t, o, -, hbase, hdoes, -, hbetween⟩ := snapshotAsOf_updatable_again "log" .nearest
    (.second 10) ResourceEvent.backToFirst [.edit 0 (.second 30) (.insert (.text "errata"))]
    (.second 16) {} {} (by decide +kernel) ht floor (by simp [ResourceEvent.IsQuiet, Edit.IsLocal])
  refine ⟨o, hdoes, (hbetween ?_).2⟩
  unfold Resource.OffersBetween
  rw [hbase]
  decide +kernel

/-- A text that was inserted into a transaction on the floor is lost when the transaction is looked up
as of the same time, and two reverts are made. -/
theorem snapshotAsOf_updatable_discards :
    let r := (Resource.create "log" .nearest (.second 10)).run
      (ResourceEvent.backToFirst ++ [.edit 0 (.second 30) (.insert (.text "errata"))])
    let o := (snapshotAsOf .none (.second 16) .updatable ⟨r, {}, {}⟩).2
    r.running = some 0 ∧
      (r.writer? 0).map (·.base) = r.history.timeline.floor (.second 16) ∧
      ((r.writer? 0).map (·.tree.size), (o.state.writer? 0).map (·.tree.size)) = (some 2, some 1) ∧
      o.state.tally.reverts = r.tally.reverts + 2 ∧ o.counters.reverts = 2 := by
  decide +kernel

/-! ## How far lookups move a shared transaction

All who look up an updatable snapshot share one write transaction, and a lookup of one moves the
transaction of all. A lookup takes it back only to revisions before the most recent one. That does not
keep it from moving forth: a transaction that is two revisions or more behind the most recent one may
be taken to a revision in between.

Let the transaction be based on a revision up to some bound. It comes to lie behind the bound exactly
if some lookup *passes* the bound: what is asked for lies behind the bound, and what the store offers
lies before the most recent revision. -/

/-- What is asked for lies behind a bound, and what the store offers lies before the most recent
revision. -/
def Query.Passes (r : Resource) (bound : RevisionNumber) : Query → Prop
  | .asOf time => r.candidate time < r.mostRecent ∧
      ∃ s tree, r.history.IsFloor time s tree ∧ bound < s.number
  | .revision choice => choice.resolve r.mostRecent < r.mostRecent ∧
      bound < choice.resolve r.mostRecent

/-- The event is an updatable lookup that passes a bound. -/
def ResourceEvent.Passes (r : Resource) (bound : RevisionNumber) : ResourceEvent → Prop
  | .lookUp q .updatable => q.Passes r bound
  | _ => False

/-- The event neither seals a revision nor closes the write transaction, and only lookups move it to
another revision. -/
def ResourceEvent.LeavesOpen (event : ResourceEvent) : Prop :=
  event.IsQuiet ∨ ∃ q, event = .lookUp q .updatable

namespace Resource

variable {r r' : Resource} {handle : Nat} {t : Transaction} {bound : RevisionNumber}
  {time : Instant} {found : Option Nat} {times : Nat}

theorem SameRevisions.passes_iff (h : r.SameRevisions r') (event : ResourceEvent) :
    event.Passes r' bound ↔ event.Passes r bound := by
  have query : ∀ q : Query, q.Passes r' bound ↔ q.Passes r bound := by
    intro q
    cases q <;> simp only [Query.Passes, h.candidate_eq, h.mostRecent_eq, h.history_eq]
  cases event with
  | lookUp q access =>
    cases access with
    | updatable => exact query q
    | readOnly => exact Iff.rfl
  | _ => exact Iff.rfl

theorem passes_iff_of_isFloor {s : RevisionStamp} {tree : Tree}
    (floor : r.history.IsFloor time s tree) :
    (Query.asOf time).Passes r bound ↔ r.candidate time < r.mostRecent ∧ bound < s.number := by
  constructor
  · rintro ⟨hc, s', tree', floor', hlt⟩
    obtain ⟨rfl, -⟩ := floor.unique floor'
    exact ⟨hc, hlt⟩
  · rintro ⟨hc, hlt⟩
    exact ⟨hc, s, tree, floor, hlt⟩

theorem not_passes_of_startsAfter (hr : r.Sound) (h : r.history.StartsAfter time) :
    ¬(Query.asOf time).Passes r bound := by
  rintro ⟨-, s, tree, floor, -⟩
  exact floor.not_startsAfter hr.history h

/-- A transaction that lands as of a time lands up to the bound exactly if the lookup does not pass
it. -/
theorem Landing.base_le_iff (hr : r.Sound) (live : r.liveWriter handle = .ok t)
    (hb : t.base.number ≤ bound) (h : r.Landing handle t time found r' times) :
    ∃ t', r'.liveWriter handle = .ok t' ∧
      (t'.base.number ≤ bound ↔ ¬(Query.asOf time).Passes r bound) := by
  cases h with
  | there floor =>
    refine ⟨t, live, fun _ hpasses => ?_, fun _ => hb⟩
    exact RevisionNumber.not_le.mpr ((passes_iff_of_isFloor floor).mp hpasses).2 hb
  | older hc => exact ⟨t, live, fun _ ⟨hlt, _⟩ => RevisionNumber.ne_of_lt hlt hc, fun _ => hb⟩
  | @back s _ floor earlier _ hc =>
    refine ⟨_, liveWriter_rewound live _ _ _, ?_⟩
    rw [passes_iff_of_isFloor floor, ← RevisionNumber.not_lt]
    refine not_congr ⟨fun hlt => ⟨?_, hlt⟩, And.right⟩
    rcases hc with hc | ⟨-, hbase⟩
    · rw [hc]
      exact earlier
    · have hlt : bound < s.number := hlt
      rw [RevisionNumber.le_def, hbase, RevisionNumber.val_next] at hb
      rw [RevisionNumber.lt_def] at hlt
      omega
  | backTwice floor hc earlier =>
    refine ⟨_, liveWriter_rewound live _ _ _, ?_⟩
    rw [passes_iff_of_isFloor floor, ← RevisionNumber.not_lt, hc]
    exact not_congr ⟨fun hlt => ⟨earlier, hlt⟩, And.right⟩
  | absent h => exact ⟨t, live, fun _ => not_passes_of_startsAfter hr h, fun _ => hb⟩
  | @absentBack first _ h _ hs =>
    refine ⟨_, liveWriter_rewound live _ _ _, fun _ => not_passes_of_startsAfter hr h, fun _ => ?_⟩
    have hfirst : first.number = .first := hr.history.number_of_revision? hs
    exact hfirst ▸ RevisionNumber.first_le bound

/-- A transaction that is steered to a revision comes to lie up to the bound exactly if the lookup
does not pass it. -/
theorem Steered.base_le_iff (hr : r.Sound) (live : r.liveWriter handle = .ok t)
    (hb : t.base.number ≤ bound) {choice : RevisionChoice}
    (h : r.Steered handle t (choice.resolve r.mostRecent) r' times) :
    ∃ t', r'.liveWriter handle = .ok t' ∧
      (t'.base.number ≤ bound ↔ ¬(Query.revision choice).Passes r bound) := by
  cases h with
  | there h =>
    refine ⟨t, live, fun _ hpasses => ?_, fun _ => hb⟩
    exact RevisionNumber.not_le.mpr hpasses.2 (h ▸ hb)
  | skipped _ late => exact ⟨t, live, fun _ hpasses => late hpasses.1, fun _ => hb⟩
  | @back s _ _ earlier hs =>
    refine ⟨_, liveWriter_rewound live _ _ _, ?_⟩
    have hnumber : s.number = choice.resolve r.mostRecent := hr.history.number_of_revision? hs
    rw [← RevisionNumber.not_lt]
    exact not_congr ⟨fun hlt => ⟨earlier, hnumber ▸ hlt⟩, fun hpasses => hnumber ▸ hpasses.2⟩

theorem Landing.sameRevisions (h : r.Landing handle t time found r' times) :
    r.SameRevisions r' := by
  cases h <;> exact ⟨rfl, rfl, rfl⟩

theorem Steered.sameRevisions {target : RevisionNumber} (h : r.Steered handle t target r' times) :
    r.SameRevisions r' := by
  cases h <;> exact ⟨rfl, rfl, rfl⟩

/-- An event that leaves the write transaction open takes it past a bound exactly if it is a lookup
that passes the bound. -/
theorem Sound.base_le_after_iff (hr : r.Sound) (hrun : r.running = some handle)
    (live : r.liveWriter handle = .ok t) (hb : t.base.number ≤ bound) {event : ResourceEvent}
    (he : event.LeavesOpen) :
    r.SameRevisions (r.after event) ∧ ∃ t', (r.after event).liveWriter handle = .ok t' ∧
      (t'.base.number ≤ bound ↔ ¬event.Passes r bound) := by
  rcases he with hquiet | ⟨q, rfl⟩
  · have halike := alike_after hrun hquiet
    obtain ⟨t', live', hbase⟩ := halike.live live
    refine ⟨halike.toSameRevisions, t', live', fun _ => ?_, fun _ => hbase ▸ hb⟩
    cases event with
    | lookUp q access =>
      cases access with
      | updatable => cases hquiet
      | readOnly => exact id
    | _ => exact id
  · cases q with
    | asOf time =>
      obtain ⟨found, r', counted, written, hlanding, hdoes⟩ :=
        hr.does_snapshotAsOf_running hrun live time
      have hafter : r.after (.lookUp (.asOf time) .updatable) = r' :=
        congrArg (·.2.state) (hdoes {} {})
      rw [hafter]
      exact ⟨hlanding.sameRevisions, hlanding.base_le_iff hr live hb⟩
    | revision choice =>
      obtain ⟨r', counted, written, hsteered, hdoes⟩ :=
        hr.does_snapshotOf_running hrun live choice
      have hresolve : Does ((Query.revision choice).resolve .updatable) r
          (.ok (some (.writer handle))) r' _ _ := hdoes.bind (does_pure r' _)
      have hafter : r.after (.lookUp (.revision choice) .updatable) = r' :=
        congrArg (·.2.state) (hresolve {} {})
      rw [hafter]
      exact ⟨hsteered.sameRevisions, hsteered.base_le_iff hr live hb⟩

/-- Events that leave the write transaction open seal no revision. -/
theorem Sound.sameRevisions_run (hr : r.Sound) (hrun : r.running = some handle)
    (live : r.liveWriter handle = .ok t) {events : List ResourceEvent}
    (he : ∀ event ∈ events, event.LeavesOpen) : r.SameRevisions (r.run events) := by
  induction events generalizing r t with
  | nil => exact (Alike.refl r).toSameRevisions
  | cons event events ih =>
    obtain ⟨hsame, t', live', -⟩ :=
      hr.base_le_after_iff hrun live (RevisionNumber.le_refl _) (he event List.mem_cons_self)
    exact hsame.trans <| ih (hr.after_event event) (hsame.running_eq.trans hrun) live'
      fun e h => he e (List.mem_cons_of_mem _ h)

/-- In a run of events that leave the write transaction open it never comes to lie behind a bound
exactly if no lookup passes the bound. -/
theorem Sound.base_le_run_iff (hr : r.Sound) (hrun : r.running = some handle)
    (live : r.liveWriter handle = .ok t) (hb : t.base.number ≤ bound) {events : List ResourceEvent}
    (he : ∀ event ∈ events, event.LeavesOpen) :
    (∀ before, before <+: events → ∃ t', (r.run before).running = some handle ∧
        (r.run before).liveWriter handle = .ok t' ∧ t'.base.number ≤ bound) ↔
      ∀ event ∈ events, ¬event.Passes r bound := by
  -- What a lookup passes does not change along the run, since no revision is sealed.
  induction events generalizing r t with
  | nil =>
    constructor
    · rintro - event ⟨⟩
    · intro _ before hbefore
      obtain rfl := List.prefix_nil.mp hbefore
      exact ⟨t, hrun, live, hb⟩
  | cons event events ih =>
    obtain ⟨hsame, t', live', hiff⟩ :=
      hr.base_le_after_iff hrun live hb (he event List.mem_cons_self)
    have hr' : (r.after event).Sound := hr.after_event event
    have hrun' := hsame.running_eq.trans hrun
    have he' : ∀ e ∈ events, e.LeavesOpen := fun e h => he e (List.mem_cons_of_mem _ h)
    rw [List.forall_mem_cons]
    constructor
    · intro hall
      obtain ⟨u, -, hu, hle⟩ := hall [event] ⟨events, rfl⟩
      obtain rfl := Except.ok.inj (live'.symm.trans hu)
      refine ⟨hiff.mp hle, fun e h => ?_⟩
      rw [← hsame.passes_iff]
      refine (ih hr' hrun' live' hle he').mp (fun before hbefore => ?_) e h
      exact hall (event :: before) (List.cons_prefix_cons.mpr ⟨rfl, hbefore⟩)
    · rintro ⟨hnot, hall⟩ before hbefore
      rcases List.prefix_cons_iff.mp hbefore with rfl | ⟨rest, rfl, hrest⟩
      · exact ⟨t, hrun, live, hb⟩
      · refine (ih hr' hrun' live' (hiff.mpr hnot) he').mpr (fun e h => ?_) rest hrest
        rw [hsame.passes_iff]
        exact hall e h

end Resource

/-- **When a shared write transaction never moves forth.** Take any resource with a running write
transaction, and any lookups of its holders, among whatever else leaves it open and on its revision.
The transaction stays running and never comes to lie behind the revision it was based on exactly if no
lookup passes that revision. So what was looked up as of a time never shows a revision behind that
time exactly if no lookup passes the floor of the time. -/
theorem running_base_le_iff (name : String) (lookup : LookupPolicy) (created : Instant)
    (events after : List ResourceEvent) {handle : Nat} {t : Transaction}
    (hrun : ((Resource.create name lookup created).run events).running = some handle)
    (ht : ((Resource.create name lookup created).run events).writer? handle = some t)
    (hafter : ∀ event ∈ after, event.LeavesOpen) :
    let r := (Resource.create name lookup created).run events
    ((∀ before, before <+: after → ∃ u, (r.run before).running = some handle ∧
        (r.run before).liveWriter handle = .ok u ∧ u.base.number ≤ t.base.number) ↔
      ∀ event ∈ after, ¬event.Passes r t.base.number) ∧
    ∀ {time s tree}, r.history.IsFloor time s tree → t.base.time ≤ time →
      ((∀ before, before <+: after → ∃ u, (r.run before).running = some handle ∧
          (r.run before).liveWriter handle = .ok u ∧ u.base.time ≤ time) ↔
        ∀ event ∈ after, ¬event.Passes r s.number) := by
  intro r
  have hr : r.Sound := Resource.sound_run name lookup created events
  obtain ⟨u, hu, hopen⟩ := hr.running hrun
  obtain rfl := Option.some.inj (ht.symm.trans hu)
  have live := Resource.liveWriter_eq_ok_iff.mpr ⟨ht, hopen⟩
  refine ⟨hr.base_le_run_iff hrun live (RevisionNumber.le_refl _) hafter, ?_⟩
  intro time s tree floor hle
  obtain ⟨_, hbase⟩ := hr.base ht
  rw [← hr.base_le_run_iff hrun live (floor.greatest hbase hle) hafter]
  refine forall_congr' fun before => forall_congr' fun hbefore => exists_congr fun u =>
    and_congr_right fun _ => and_congr_right fun live' => ?_
  -- A sealed revision does not lie behind the time exactly if it is not behind the floor.
  have hsame := hr.sameRevisions_run hrun live fun e h => hafter e (hbefore.subset h)
  obtain ⟨_, hbase'⟩ := (hr.run before).base (Resource.liveWriter_eq_ok_iff.mp live').1
  rw [hsame.history_eq] at hbase'
  exact ⟨floor.greatest hbase', floor.time_le_of_le hr.history hbase'⟩

/-- A transaction that went back to the first of three revisions moves forth when the second one is
looked up. -/
theorem running_base_le_iff_second :
    let r := (Resource.create "log" .floor (.second 10)).run ResourceEvent.backToFirst
    let second := ResourceEvent.lookUp (.revision (.exact ⟨2, by decide⟩)) .updatable
    ¬∀ before, before <+: [second] → ∃ u, (r.run before).running = some 0 ∧
      (r.run before).liveWriter 0 = .ok u ∧
      u.base.number ≤ ((r.writer? 0).getD default).base.number := by
  intro r second hall
  have ht : r.writer? 0 = some ((r.writer? 0).getD default) := by decide +kernel
  have hsecond : ∀ event ∈ [second], event.LeavesOpen := by
    rintro _ (_ | _)
    · exact .inr ⟨_, rfl⟩
    · contradiction
  obtain ⟨hiff, -⟩ := running_base_le_iff "log" .floor (.second 10) ResourceEvent.backToFirst [second]
    (by decide +kernel) ht hsecond
  refine hiff.mp hall second List.mem_cons_self ⟨?_, ?_⟩
  · decide +kernel
  · decide +kernel

/-- What was looked up as of the fifteenth second shows the revision of the twentieth second once
another holder of the transaction has looked up the twenty-fifth. -/
theorem running_moves_forth :
    let r := (Resource.create "log" .floor (.second 10)).run
      (ResourceEvent.backToFirst ++ [.lookUp (.asOf (.second 15)) .updatable])
    let o := (snapshotAsOf .none (.second 25) .updatable ⟨r, {}, {}⟩).2
    r.running = some 0 ∧ (r.writer? 0).map (·.base) = some ⟨.first, .second 10⟩ ∧
      (o.state.writer? 0).map (·.base) = some ⟨⟨2, by decide⟩, .second 20⟩ := by
  decide +kernel

end AsOf
