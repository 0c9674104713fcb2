import AsOf.Proofs.Collection.Inquiry
import AsOf.Proofs.Session.Follow
import AsOf.Proofs.Store.Identity

/-!
# Counters and tallies

A registry counts what its collections do, and every resource keeps a tally of its own transactions. Nothing
ties the two to each other, and yet they agree on every lookup in every session.

## Main definitions

* `Resource.Shows`: a resource shows the transactions and the reverts that were counted

## Main results

* `Inquiry.place?_eq_some_iff_listed`: which resources are looked up
* `counters_tell_tallies`: counters and tallies agree on every lookup in every session
-/

namespace AsOf

open Observed Resource

/-- The transactions and the reverts that were counted are those that the tally of the resource shows. -/
structure Resource.Shows (r r' : Resource) (rise : Counter → Nat) : Prop where
  writeOpened : r'.tally.writeOpened = r.tally.writeOpened + rise .writeTrxOpened
  readOpened : r'.tally.readOpened = r.tally.readOpened + rise .readTrxOpened
  reverts : r'.tally.reverts = r.tally.reverts + rise .reverts

/-- What is counted at the end of a lookup is of no account to the tally. -/
theorem Query.count_counted {α ε : Type} (found : Except ε (Option α)) {k : Counter}
    (hk : k ∉ [Counter.snapshotsResolved, .snapshotsAbsent]) : (counted found).count k = 0 := by
  refine List.count_eq_zero.mpr fun hmem => hk ?_
  match found with
  | .ok (some _) => exact List.mem_cons.mpr (.inl (List.mem_singleton.mp hmem))
  | .ok none => exact List.mem_cons_of_mem _ hmem
  | .error _ => cases hmem

theorem Resource.Tallies.shows {kinds ks : List Counter} {r r' : Resource} {es : List (Event × Fields)}
    {α ε : Type} (h : Tallies kinds r r' ks es) (found : Except ε (Option α)) :
    r.Shows r' fun k => (ks ++ Query.counted found).count k := by
  have hcount {k : Counter} (hk : k ∉ [Counter.snapshotsResolved, .snapshotsAbsent]) :
      ks.count k = (ks ++ Query.counted found).count k := by
    rw [List.count_append, Query.count_counted found hk, Nat.add_zero]
  constructor
  · rw [h.writeOpened, hcount (by decide)]
  · rw [h.readOpened, hcount (by decide)]
  · rw [h.reverts, hcount (by decide)]

/-- On its way a lookup does not count whether there was a snapshot. -/
theorem Resource.Tallies.count_found {access : Access} {ks : List Counter} {r r' : Resource}
    {es : List (Event × Fields)} {α ε : Type} (h : Tallies access.counted r r' ks es)
    (found : Except ε (Option α)) {k : Counter} (hk : k ∈ [Counter.snapshotsResolved, .snapshotsAbsent]) :
    (ks ++ Query.counted found).count k = (Query.counted found).count k := by
  have hnot : k ∉ access.counted := by
    rcases List.mem_pair.mp hk with rfl | rfl <;> cases access <;> decide
  rw [List.count_append, h.count_eq_zero hnot, Nat.zero_add]

/-- The resource that is looked up is one that a database lists that is open. -/
theorem Inquiry.place?_eq_some_iff_listed {c : Collection} {s : Store} {made : List Entry} {place : Nat}
    (h : s.Registered c.database made) (q : Inquiry) : q.place? c s = some place ↔
      ∃ d entry, s.database? c.database = some d ∧ d.closed = false ∧ entry ∈ d.entries ∧
        q.name? c s = some entry.name ∧ entry.resource = place := by
  rw [place?_eq_some_iff]
  constructor
  · rintro ⟨name, hname, hlocate⟩
    obtain ⟨d, hopened, -⟩ := except_bind_eq_ok_iff.mp hlocate
    obtain ⟨hd, hopen⟩ := Store.openDatabase_eq_ok_iff.mp hopened
    obtain ⟨entry, hentry, rfl, hplace⟩ := (h.locate_eq_ok_iff hd hopen).mp hlocate
    exact ⟨d, entry, hd, hopen, hentry, hname, hplace⟩
  · rintro ⟨d, entry, hd, hopen, hentry, hname, hplace⟩
    exact ⟨entry.name, hname, (h.locate_eq_ok_iff hd hopen).mpr ⟨entry, hentry, rfl, hplace⟩⟩

/-- At the place of the resource that is looked up, there is a resource, and it is sound. -/
theorem Inquiry.exists_sound {c : Collection} {s : Store} {made : List Entry} {q : Inquiry} {place : Nat}
    (h : s.Registered c.database made) (harose : s.Arose) (hplace : q.place? c s = some place) :
    ∃ r : Resource, s.resource? place = some r ∧ r.Sound := by
  obtain ⟨d, entry, hd, -, hentry, -, rfl⟩ := (q.place?_eq_some_iff_listed h).mp hplace
  obtain ⟨r, hr, -⟩ := h.named entry ((h.listed hd).subset hentry)
  exact ⟨r, hr, harose.sound hr⟩

namespace Collection

variable {c : Collection} {s : Store} {q : Inquiry} (access : Access)
  (hplaced : ∀ place, q.place? c s = some place → ∃ r : Resource, s.resource? place = some r ∧ r.Sound)
include hplaced

/-- The resource that is looked up shows what is counted, and the outcome is counted once. -/
theorem exists_does_inquire_shows (f : Faults) :
    ∃ a s' ks written, Does (c.inquire f access q) s a s' ks written ∧
      (match q.place? c s with
        | some place => ∃ r r', s.resource? place = some r ∧ s' = s.setResource place r' ∧
          r.Shows r' fun k => ks.count k
        | none => s' = s ∧ ∀ k, ks.count k = 0) ∧
      (ks.count .snapshotsResolved, ks.count .snapshotsAbsent) = match a with
        | .ok (some _) => (1, 0)
        | .ok none => (0, 1)
        | .error _ => (0, 0) := by
  cases hplace : q.place? c s with
  | none =>
    obtain ⟨e, written, hdoes⟩ := exists_does_inquire_of_unknown f access hplace
    exact ⟨_, _, _, _, hdoes, ⟨rfl, fun k => rfl⟩, rfl⟩
  | some place =>
    obtain ⟨r, hr, -⟩ := hplaced place hplace
    obtain ⟨a, r', ks, es, written, htallies, hdoes⟩ := exists_does_inquire f access hplace hr
    refine ⟨_, _, _, _, hdoes, ⟨r, r', hr, rfl, htallies.shows a⟩, ?_⟩
    have hresolved := htallies.count_found a (k := .snapshotsResolved) (by decide)
    have habsent := htallies.count_found a (k := .snapshotsAbsent) (by decide)
    rw [hresolved, habsent]
    match a with
    | .ok (some _) | .ok none | .error _ => rfl

/-- If the store does not fail, a lookup takes the write transaction once if it is to change a resource,
and it leaves write transactions alone otherwise. -/
theorem exists_does_inquire_takings :
    ∃ a s' ks written, Does (c.inquire .none access q) s a s' ks written ∧
      takings ks = if (q.place? c s).isSome ∧ access = .updatable then 1 else 0 := by
  cases hplace : q.place? c s with
  | none =>
    obtain ⟨e, written, hdoes⟩ := exists_does_inquire_of_unknown .none access hplace
    exact ⟨_, _, _, _, hdoes, (if_neg (by simp)).symm⟩
  | some place =>
    obtain ⟨r, hr, hsound⟩ := hplaced place hplace
    cases access with
    | updatable =>
      obtain ⟨a, s', ks, written, hdoes, htaken⟩ := exists_does_inquire_updatable hsound hplace hr
      exact ⟨_, _, _, _, hdoes, htaken.trans (if_pos ⟨rfl, rfl⟩).symm⟩
    | readOnly =>
      obtain ⟨a, r', ks, es, written, htallies, hdoes⟩ :=
        exists_does_inquire .none .readOnly hplace hr
      refine ⟨_, _, _, _, hdoes, ?_⟩
      rw [if_neg (by simp), takings, List.count_append, List.count_append,
        htallies.count_eq_zero (by decide), htallies.count_eq_zero (by decide),
        Query.count_counted a (by decide), Query.count_counted a (by decide)]

end Collection

/-- **Counters and tallies agree.** Take any session, and whatever can be asked of a collection in it, by a
time or by a revision, for reading or for changing, whether or not calls of the store fail. If the database
is open and lists the resource in question, the lookup changes this resource at most, and the counters of
its registry rise by the write transactions, the read transactions and the reverts that the tally of the
resource shows; else the store stays as it is, and no counter rises. That there is a document, or that there
is none, is counted once, and a lookup that is refused counts neither. Unless calls of the store fail, a
lookup for changing takes the write transaction of the resource once, by opening it or by handing it out
again, and no other lookup takes one. -/
theorem counters_tell_tallies (clock : Instant) (lastId : Nat) (threshold : Severity)
    (commands : List Command) (f : Faults) (c : Collection) (q : Inquiry) (access : Access)
    (counters : Counters) (j : Journal) :
    let s := ((Session.begin clock lastId threshold).play commands).2.store
    let answer := c.inquire f access q ⟨s, counters, j⟩
    (∀ place, q.place? c s = some place ↔ ∃ d entry, s.database? c.database = some d ∧
      d.closed = false ∧ entry ∈ d.entries ∧ q.name? c s = some entry.name ∧ entry.resource = place) ∧
    ∃ rise : Counter → Nat, (∀ k, answer.2.counters.get k = counters.get k + rise k) ∧
      (match q.place? c s with
        | some place => ∃ r r', s.resource? place = some r ∧
          answer.2.state = s.setResource place r' ∧ r.Shows r' rise
        | none => answer.2.state = s ∧ ∀ k, rise k = 0) ∧
      ((rise .snapshotsResolved, rise .snapshotsAbsent) = match answer.1 with
        | .ok (some _) => (1, 0)
        | .ok none => (0, 1)
        | .error _ => (0, 0)) ∧
      (f = .none → rise .writeTrxOpened + rise .writeTrxReused =
        if (q.place? c s).isSome ∧ access = .updatable then 1 else 0) := by
  intro s answer
  obtain ⟨events, hstore⟩ := Session.exists_run_play clock lastId threshold commands
  have hstore : s = Store.run { clock } events := hstore
  have harose : s.Arose := Session.arose_play clock lastId threshold commands
  have hregistered : s.Registered c.database (Store.creations { clock } c.database events) :=
    hstore ▸ Store.registered_run clock c.database events
  have hplaced (place : Nat) : q.place? c s = some place → ∃ r : Resource, _ ∧ r.Sound :=
    Inquiry.exists_sound hregistered harose
  refine ⟨fun place => q.place?_eq_some_iff_listed hregistered, ?_⟩
  obtain ⟨a, s', ks, written, hdoes, hshown, hfound⟩ :=
    Collection.exists_does_inquire_shows access hplaced f
  have hanswer : answer = _ := hdoes counters j
  have hrise (k : Counter) : answer.2.counters.get k = counters.get k + ks.count k := by
    rw [hanswer, Counters.get_countAll]
  refine ⟨fun k => ks.count k, hrise, by rwa [hanswer], by rwa [hanswer], ?_⟩
  rintro rfl
  -- What was taken is told of the same run, so the two lists count the same.
  obtain ⟨b, u, ls, written', hdoes', htakings⟩ :=
    Collection.exists_does_inquire_takings access hplaced
  have hanswer' : answer = _ := hdoes' counters j
  have hcount (k : Counter) : ks.count k = ls.count k := by
    have hrise' := hrise k
    rw [hanswer', Counters.get_countAll] at hrise'
    exact (Nat.add_left_cancel hrise').symm
  dsimp only
  rw [hcount, hcount]
  exact htakings

end AsOf
