import AsOf.Collection.Basic
import AsOf.Proofs.Collection.Add
import AsOf.Proofs.Lookup.Told

/-!
# Lookups through collections

Every lookup through a collection comes down to one lookup of one resource, if there is a resource to be
looked up at all. So what it counts, the tally of that resource shows.

## Main definitions

* `Inquiry`, `Collection.inquire`: what can be asked of a collection, and the lookup
* `Inquiry.place?`: the place of the resource that is looked up

## Main results

* `Collection.exists_does_inquire`: what a lookup of a resource counts
* `Collection.exists_does_inquire_of_unknown`: what a lookup of nothing counts
* `Collection.exists_does_inquire_updatable`: what an updatable lookup takes
-/

namespace AsOf

open Observed AsOf.Action Resource

/-- What can be asked of a collection: a document by its name, or the one that needs no name. -/
inductive Inquiry where
  | named (name : String) (query : Query)
  | sole (query : Query)

/-- The name of the only resource of a database. -/
def Store.soleName? (s : Store) (db : Nat) : Option String :=
  match s.names db with
  | [name] => some name
  | _ => none

theorem Store.soleName?_eq_some_iff {s : Store} {db : Nat} {name : String} :
    s.soleName? db = some name ↔ s.names db = [name] := by
  unfold soleName?
  split
  · next h => simp [h]
  · next h => simpa using h name

namespace Inquiry

variable (c : Collection) (s : Store)

/-- The name of the resource that is looked up. As of a time, the collection's own name stands for it; as
of a revision, the collection must hold one resource only. -/
def name? : Inquiry → Option String
  | named name _ => some name
  | sole (.asOf _) => some c.name
  | sole (.revision _) => s.soleName? c.database

/-- The place of the resource that is looked up. -/
def place? (q : Inquiry) : Option Nat :=
  (q.name? c s).bind fun name => (s.locate c.database name).toOption

variable {c s}

theorem place?_eq_some_iff {q : Inquiry} {place : Nat} : q.place? c s = some place ↔
    ∃ name, q.name? c s = some name ∧ s.locate c.database name = .ok place := by
  rw [place?, Option.bind_eq_some_iff]
  refine exists_congr fun name => and_congr_right fun _ => ?_
  cases s.locate c.database name <;> simp [Except.toOption]

theorem exists_locate_of_place? {q : Inquiry} {name : String} (hplace : q.place? c s = none)
    (hname : q.name? c s = some name) : ∃ e, s.locate c.database name = .error e := by
  cases hlocate : s.locate c.database name with
  | error e => exact ⟨e, rfl⟩
  | ok place => cases hplace.symm.trans (place?_eq_some_iff.mpr ⟨name, hname, hlocate⟩)

end Inquiry

namespace Collection

/-- The document that is asked for, if there is one. -/
def inquire (f : Faults) (c : Collection) (access : Access) :
    Inquiry → Action (Observed Store) CollectionError (Option Document)
  | .named name (.asOf time) => namedAsOf f c name time access
  | .named name (.revision choice) => return some (← namedRevision f c name choice access)
  | .sole (.asOf time) => asOf f c time access
  | .sole (.revision choice) => return some (← atRevision f c choice access)

variable {f : Faults} {c : Collection} {access : Access} {s : Store} {name : String} {place : Nat}
  {r : Resource}

theorem onResource_bind_pure {α β : Type} (place : Nat) (x : Action (Observed Resource) StoreError α)
    (g : α → β) :
    Observed.onResource place (do return g (← x)) = do return g (← Observed.onResource place x) := by
  funext o
  simp only [Observed.onResource, bind_run]
  cases o.state.resource? place with
  | none => rfl
  | some r =>
    dsimp only
    rcases x ⟨r, o.counters, o.journal⟩ with ⟨_ | _, _⟩ <;> rfl

theorem liftStore_bind_pure {σ α β : Type} (x : Action σ StoreError α) (g : α → β) :
    (do return g (← liftStore x)) = liftStore (do return g (← x)) := by
  funext o
  simp only [liftStore, mapError, bind_run]
  rcases x o with ⟨_ | _, _⟩ <;> rfl

/-- A document with a name is asked of its resource. -/
theorem inquire_named (f : Faults) (c : Collection) (access : Access) (name : String) (q : Query) :
    c.inquire f access (.named name q) = liftStore (do
      let place ← locate f c name
      let lease ← Observed.onResource place (q.ask f access)
      return lease.map (⟨c.id, name, place, ·⟩)) := by
  cases q with
  | asOf time => rfl
  | revision choice =>
    rw [inquire, namedRevision, liftStore_bind_pure]
    simp only [Query.ask, onResource_bind_pure, bind_assoc, pure_bind, Option.map_some]

theorem does_locate (f : Faults) (c : Collection) (name : String) (s : Store) :
    Does (locate f c name) s (do f.check .locate; s.locate c.database name) s [] [] := by
  have hcheck := does_ofExcept (σ := Store) s (f.check .locate)
  rw [locate]
  cases hf : f.check .locate with
  | error e => exact (hf ▸ hcheck).bind_error
  | ok => exact (hf ▸ hcheck).bind <| (does_current s).bind (does_ofExcept s _)

/-- The document on a lease, if there is one, or the error of the store. -/
def answer (c : Collection) (name : String) (place : Nat) (found : Except StoreError (Option Lease)) :
    Except CollectionError (Option Document) :=
  (found.map (·.map (⟨c.id, name, place, ·⟩))).mapError .store

theorem counted_answer (c : Collection) (name : String) (place : Nat)
    (found : Except StoreError (Option Lease)) :
    Query.counted (c.answer name place found) = Query.counted found := by
  match found with
  | .ok (some _) | .ok none | .error _ => rfl

/-- A resource that is not found, or must not be, is not looked up. -/
theorem does_inquire_of_error (access : Access) (q : Query) {e : StoreError}
    (h : (do f.check .locate; s.locate c.database name) = .error e) :
    Does (c.inquire f access (.named name q)) s (.error (.store e)) s [] [] := by
  have hlocate := does_locate f c name s
  rw [h] at hlocate
  rw [inquire_named]
  exact hlocate.bind_error.mapError _

/-- A resource that is found is looked up. -/
theorem does_inquire_of_ok {q : Query} {found : Except StoreError (Option Lease)} {r' : Resource}
    {ks : List Counter} {ws : List Record}
    (h : (do f.check .locate; s.locate c.database name) = .ok place) (hr : s.resource? place = some r)
    (hask : Does (q.ask f access) r found r' ks ws) :
    Does (c.inquire f access (.named name q)) s (c.answer name place found) (s.setResource place r')
      ks ws := by
  have hlocate := does_locate f c name s
  rw [h] at hlocate
  rw [inquire_named]
  refine Does.mapError (hlocate.bind ?_) _
  have hfound := hask.onResource hr
  cases found with
  | error e => exact hfound.bind_error
  | ok lease => exact hfound.bind_pure _

/-- What a lookup of a resource with a name does, whatever it comes to. -/
theorem exists_does_inquire_named (f : Faults) (c : Collection) (access : Access) (q : Query)
    (hplace : s.locate c.database name = .ok place) (hr : s.resource? place = some r) :
    ∃ answer r' ks es written, Tallies access.counted r r' ks es ∧
      Does (c.inquire f access (.named name q)) s answer (s.setResource place r')
        (ks ++ Query.counted answer) written := by
  -- The call that locates the resource may fail, and then it is as if nothing was asked.
  cases hcheck : f.check .locate with
  | error e =>
    have hrefused := does_inquire_of_error access q
      (show (do f.check .locate; s.locate c.database name) = .error e by rw [hcheck]; rfl)
    refine ⟨.error (.store e), r, [], [], [], (law_tallies _).refl r, ?_⟩
    rw [Store.setResource_self hr]
    exact hrefused
  | ok =>
    obtain ⟨found, r', ks, es, htallies, hask⟩ := q.exists_does_ask f access r
    refine ⟨c.answer name place found, r', ks, es, q.written r access es r' found, htallies, ?_⟩
    rw [counted_answer]
    exact does_inquire_of_ok (by rw [hcheck]; exact hplace) hr hask

/-! ## Documents without a name -/

theorem inquire_sole_revision (f : Faults) (c : Collection) (access : Access) (choice : RevisionChoice) :
    c.inquire f access (.sole (.revision choice)) =
      soleName c >>= fun name => c.inquire f access (.named name (.revision choice)) := by
  simp only [inquire, atRevision, bind_assoc]

theorem does_soleName (h : s.names c.database = [name]) : Does (soleName c) s (.ok name) s [] [] := by
  refine (does_current s).bind ?_
  rw [h]
  exact does_pure s name

theorem does_soleName_of_none (h : s.soleName? c.database = none) :
    ∃ e written, Does (soleName c) s (.error e) s [] written := by
  have hcurrent := does_current (ε := CollectionError) s
  match hnames : s.names c.database with
  | [] =>
    refine ⟨.emptyCollection c.name, [], hcurrent.bind ?_⟩
    rw [hnames]
    exact does_fail s _
  | [name] => cases h.symm.trans (Store.soleName?_eq_some_iff.mpr hnames)
  | first :: second :: more =>
    let event := Event.ambiguousResource.record
      [("collection", c.name), ("resources", Text.decimal (first :: second :: more).length)]
    refine ⟨.ambiguousResource c.name (first :: second :: more).length, [event], hcurrent.bind ?_⟩
    rw [hnames]
    exact (does_report s _ _).bind (does_fail s _)

/-! ## Every lookup -/

/-- A lookup comes down to one by the name of the resource that is looked up. -/
theorem does_inquire_of_name (f : Faults) (access : Access) {q : Inquiry} (hname : q.name? c s = some name) :
    ∃ query, ∀ answer s' ks written, Does (c.inquire f access (.named name query)) s answer s' ks written →
      Does (c.inquire f access q) s answer s' ks written := by
  match q with
  | .named _ query =>
    cases hname
    exact ⟨query, fun _ _ _ _ hdoes => hdoes⟩
  | .sole (.asOf time) =>
    cases hname
    exact ⟨.asOf time, fun _ _ _ _ hdoes => hdoes⟩
  | .sole (.revision choice) =>
    refine ⟨.revision choice, fun _ _ _ _ hdoes => ?_⟩
    rw [inquire_sole_revision]
    exact (does_soleName (Store.soleName?_eq_some_iff.mp hname)).bind hdoes

/-- What a lookup of a resource does, whatever it comes to. -/
theorem exists_does_inquire (f : Faults) (access : Access) {q : Inquiry}
    (hplace : q.place? c s = some place) (hr : s.resource? place = some r) :
    ∃ answer r' ks es written, Tallies access.counted r r' ks es ∧
      Does (c.inquire f access q) s answer (s.setResource place r') (ks ++ Query.counted answer) written := by
  obtain ⟨name, hname, hlocate⟩ := Inquiry.place?_eq_some_iff.mp hplace
  obtain ⟨query, hquery⟩ := does_inquire_of_name f access hname
  obtain ⟨answer, r', ks, es, written, htallies, hdoes⟩ :=
    exists_does_inquire_named f c access query hlocate hr
  exact ⟨answer, r', ks, es, written, htallies, hquery _ _ _ _ hdoes⟩

/-- Where there is no resource to be looked up, the lookup is refused and counts nothing. -/
theorem exists_does_inquire_of_unknown (f : Faults) (access : Access) {q : Inquiry}
    (hplace : q.place? c s = none) :
    ∃ e written, Does (c.inquire f access q) s (.error e) s [] written := by
  cases hname : q.name? c s with
  | some name =>
    obtain ⟨query, hquery⟩ := does_inquire_of_name f access hname
    obtain ⟨e, hlocate⟩ := Inquiry.exists_locate_of_place? hplace hname
    obtain ⟨e', h⟩ : ∃ e', (do f.check .locate; s.locate c.database name) = .error e' := by
      rw [hlocate]
      cases f.check .locate with
      | error e => exact ⟨e, rfl⟩
      | ok => exact ⟨e, rfl⟩
    exact ⟨.store e', [], hquery _ _ _ _ (does_inquire_of_error access query h)⟩
  | none =>
    match q with
    | .named _ _ | .sole (.asOf _) => cases hname
    | .sole (.revision choice) =>
      obtain ⟨e, written, hsole⟩ := does_soleName_of_none hname
      rw [inquire_sole_revision]
      exact ⟨e, written, hsole.bind_error⟩

/-- How often the write transaction was taken, by being handed out or by being opened. -/
def takings (ks : List Counter) : Nat := ks.count .writeTrxOpened + ks.count .writeTrxReused

/-- An updatable lookup takes the write transaction once. -/
theorem exists_does_ask_updatable (hsound : r.Sound) (query : Query) :
    ∃ found r' ks written, Does (query.ask .none .updatable) r found r' ks written ∧ takings ks = 1 := by
  cases query with
  | asOf time =>
    obtain ⟨handle, t, r₁, k, found, r', times, htaken, -, hlease⟩ := hsound.reports_leaseAsOf time
    obtain ⟨written, hdoes⟩ := hlease.snapshotAsOf
    refine ⟨_, _, _, _, hdoes, ?_⟩
    -- The transaction is taken at the start, and going back later takes no other one.
    cases htaken <;> cases found <;> simp [takings, List.count_replicate]
  | revision choice =>
    obtain ⟨handle, t, r₁, k, r', times, written, htaken, -, hdoes⟩ :=
      hsound.does_snapshotOf_updatable choice
    refine ⟨_, _, _, _, hdoes.bind_pure some, ?_⟩
    cases htaken <;> simp [takings, List.count_replicate]

/-- An updatable lookup of a resource takes its write transaction once, if the store does not fail. -/
theorem exists_does_inquire_updatable (hsound : r.Sound) {q : Inquiry}
    (hplace : q.place? c s = some place) (hr : s.resource? place = some r) :
    ∃ answer s' ks written, Does (c.inquire .none .updatable q) s answer s' ks written ∧
      takings ks = 1 := by
  obtain ⟨name, hname, hlocate⟩ := Inquiry.place?_eq_some_iff.mp hplace
  obtain ⟨query, hquery⟩ := does_inquire_of_name .none .updatable hname
  obtain ⟨found, r', ks, written, hask, htaken⟩ := exists_does_ask_updatable hsound query
  exact ⟨_, _, ks, written, hquery _ _ _ _ (does_inquire_of_ok hlocate hr hask), htaken⟩

end Collection

end AsOf
