import AsOf.Collection.Basic
import AsOf.Proofs.Lookup.Policy
import AsOf.Proofs.Session.Leeway
import AsOf.Proofs.Store.Event
import AsOf.Proofs.Store.Leeway

/-!
# Agreement

Stores, collections and sessions that differ in how times are looked up do the same as long as the lookups
agree.

## Main definitions

* `Store.Agrees`: two stores differ in policies and statistics only
* `Store.Diverges`: a lookup of a time for changing is not the same on a resource of two stores
* `Session.Agrees`: two sessions differ in policies, statistics, counts and journals only

## Main results

* `Store.agrees_iff_like`: to agree is to differ within the leeway of policies
* `Store.Agrees.snapshotAsOf`: lookups of times
* `Collection.namedAsOf_agrees`: finding documents as of times
* `Session.agrees_iff_like`: to agree is to differ within the leeway of policies, with nothing hidden
* `Session.inStep_step`: neutral commands are answered in step unless they look up a time
-/

namespace AsOf

/-! ## Stores that agree

Two stores agree if their resources do, one by one, and their databases differ in nothing but the policy
that they give to new resources. Behind a lookup of a time the stores agree, unless it is a lookup for
changing that diverges. -/

/-- The databases differ in their policies only. -/
inductive Database.Agrees (d : Database) : Database → Prop
  | mk (lookup : LookupPolicy) : Agrees d { d with lookup }

/-- The stores differ in policies and statistics only. -/
structure Store.Agrees (s s' : Store) : Prop where
  clock_eq : s'.clock = s.clock
  resources : Pointwise Resource.Agrees s.resources s'.resources
  databases : Pointwise Database.Agrees s.databases s'.databases

theorem Database.agrees_iff_like {d d' : Database} : d.Agrees d' ↔ d.Like .policies d' := by
  constructor
  · rintro ⟨lookup⟩
    exact .mk trivial
  · rintro ⟨-⟩
    exact .mk _

namespace Store

variable {s s' : Store} {place db : Nat} {name : String}

theorem agrees_iff_like : s.Agrees s' ↔ s.Like .policies s' := by
  constructor
  · rintro ⟨hclock, hresources, hdatabases⟩
    exact ⟨hclock, hresources.mono Resource.agrees_iff_like.mp,
      hdatabases.mono Database.agrees_iff_like.mp⟩
  · rintro ⟨hclock, hresources, hdatabases⟩
    exact ⟨hclock, hresources.mono Resource.agrees_iff_like.mpr,
      hdatabases.mono Database.agrees_iff_like.mpr⟩

theorem Agrees.refl (s : Store) : s.Agrees s :=
  ⟨rfl, .refl Resource.Agrees.refl, .refl fun d => .mk d.lookup⟩

theorem Agrees.setResource {r r' : Resource} (h : s.Agrees s') (hr : r.Agrees r') (place : Nat) :
    (s.setResource place r).Agrees (s'.setResource place r') :=
  ⟨h.clock_eq, h.resources.setIfInBounds hr place, h.databases⟩

theorem Agrees.resource?_cases (h : s.Agrees s') (place : Nat) :
    s.resource? place = none ∧ s'.resource? place = none ∨
      ∃ r r', s.resource? place = some r ∧ s'.resource? place = some r' ∧ r.Agrees r' := by
  simp only [Resource.agrees_iff_like]
  exact (agrees_iff_like.mp h).resource?_cases place

theorem Agrees.locate_eq (h : s.Agrees s') (db : Nat) (name : String) :
    s'.locate db name = s.locate db name :=
  (agrees_iff_like.mp h).locate_eq db name

/-- A lookup of a time for changing is not the same on a resource of two stores. -/
def Diverges (s s' : Store) (place : Nat) (time : Instant) : Prop :=
  ∃ r r', s.resource? place = some r ∧ s'.resource? place = some r' ∧ r.Diverges r' time

/-- Behind a change of one resource the stores agree if these do. -/
theorem Agrees.setResource_iff {r r' u u' : Resource} (h : s.Agrees s')
    (hr : s.resource? place = some r) (hr' : s'.resource? place = some r') :
    (s.setResource place u).Agrees (s'.setResource place u') ↔ u.Agrees u' := by
  refine ⟨fun hset => ?_, fun hu => h.setResource hu place⟩
  have hget : (s.setResource place u).resource? place = some u :=
    Array.getElem?_setIfInBounds_self_of_lt (Array.getElem?_eq_some_iff.mp hr).1
  have hget' : (s'.setResource place u').resource? place = some u' :=
    Array.getElem?_setIfInBounds_self_of_lt (Array.getElem?_eq_some_iff.mp hr').1
  rcases hset.resource?_cases place with ⟨hnone, -⟩ | ⟨_, _, hu, hu', hagrees⟩
  · cases hget.symm.trans hnone
  · cases hget.symm.trans hu
    cases hget'.symm.trans hu'
    exact hagrees

variable {o o' : Observed Store}

/-- Behind a lookup of a time stores agree unless it is one for changing that diverges; what it finds is
the same in any case. -/
theorem Agrees.snapshotAsOf (h : o.state.Agrees o'.state) (hs : o.state.Arose) (hs' : o'.state.Arose)
    (place : Nat) (time : Instant) (access : Access) :
    let answer := Observed.onResource place (snapshotAsOf .none time access) o
    let answer' := Observed.onResource place (snapshotAsOf .none time access) o'
    answer.1 = answer'.1 ∧ (answer.2.state.Agrees answer'.2.state ↔
      (access = .updatable → ¬o.state.Diverges o'.state place time)) := by
  unfold Observed.onResource Diverges
  rcases h.resource?_cases place with ⟨hr, hr'⟩ | ⟨r, r', hr, hr', hagrees⟩ <;> rw [hr, hr']
  · refine ⟨rfl, iff_of_true h ?_⟩
    rintro - ⟨r, r', hr, -⟩
    cases hr
  · have hsound := hs.sound hr
    have hsound' := hs'.sound hr'
    have hexists : (∃ u u', some r = some u ∧ some r' = some u' ∧ u.Diverges u' time) ↔
        r.Diverges r' time := by
      refine ⟨?_, fun hd => ⟨r, r', rfl, rfl, hd⟩⟩
      rintro ⟨_, _, hr, hr', hd⟩
      cases hr
      cases hr'
      exact hd
    rw [hexists]
    cases access with
    | readOnly =>
      obtain ⟨ha, hu⟩ := hagrees.snapshotAsOf_of_readOnly hsound hsound' time o.counters o'.counters
        o.journal o'.journal
      exact ⟨ha, iff_of_true (h.setResource hu place) nofun⟩
    | updatable =>
      obtain ⟨ha, hu⟩ := hagrees.snapshotAsOf_of_updatable hsound hsound' time o.counters o'.counters
        o.journal o'.journal
      exact ⟨ha, (h.setResource_iff hr hr').trans (hu.trans ⟨fun h _ => h, fun h => h rfl⟩)⟩

end Store

/-! ## Collections under two policies

On stores that agree, collections find the same documents as of times, and the stores agree behind it
exactly if it was for reading or the lookup does not diverge. -/

namespace Collection

variable {c : Collection} {o o' : Observed Store}

/-- What finding a document as of a time comes to, where the store behaves. -/
theorem namedAsOf_run (name : String) (time : Instant) (access : Access) (o : Observed Store) :
    namedAsOf .none c name time access o =
      match o.state.locate c.database name with
      | .error e => (.error (.store e), o)
      | .ok place =>
        match Observed.onResource place (snapshotAsOf .none time access) o with
        | (.ok lease, u) => (.ok (lease.map (⟨c.id, name, place, ·⟩)), u)
        | (.error e, u) => (.error (.store e), u) := by
  have hlocate : locate .none c name o = (o.state.locate c.database name, o) := rfl
  unfold namedAsOf liftStore Action.mapError
  rw [Action.bind_run, hlocate]
  cases o.state.locate c.database name with
  | error e => rfl
  | ok place =>
    simp only [Action.bind_run]
    rcases Observed.onResource place (snapshotAsOf .none time access) o with ⟨_ | _, u⟩ <;> rfl

/-- What is found as of a time is the same in both stores, and they agree behind it unless it is looked
up for changing and the lookup diverges. -/
theorem namedAsOf_agrees (h : o.state.Agrees o'.state) (hs : o.state.Arose) (hs' : o'.state.Arose)
    (name : String) (time : Instant) (access : Access) :
    let answer := namedAsOf .none c name time access o
    let answer' := namedAsOf .none c name time access o'
    answer.1 = answer'.1 ∧ (answer.2.state.Agrees answer'.2.state ↔
      ∀ place, o.state.locate c.database name = .ok place → access = .updatable →
        ¬o.state.Diverges o'.state place time) := by
  rw [namedAsOf_run, namedAsOf_run, h.locate_eq]
  cases o.state.locate c.database name with
  | error e => exact ⟨rfl, iff_of_true h nofun⟩
  | ok place =>
    have hlookup := h.snapshotAsOf hs hs' place time access
    simp only [Except.ok.injEq, forall_eq']
    generalize Observed.onResource place (snapshotAsOf .none time access) o = x,
      Observed.onResource place (snapshotAsOf .none time access) o' = y at hlookup
    obtain ⟨ha, hiff⟩ := hlookup
    rcases x with ⟨_ | _, u⟩ <;> rcases y with ⟨_ | _, u'⟩ <;> cases ha <;> exact ⟨rfl, hiff⟩

end Collection

/-! ## Sessions that agree

Two sessions agree if their stores do, and if they gave out the same. What is asked of them is answered
in step, unless it is asked what they differ in, or a document is looked up as of a time: the policies,
the statistics and the counts, and the revision that a policy offers. -/

namespace Session

open AsOf.Action

/-- The sessions differ in policies, statistics, counts and journals only, and the store behaves. -/
structure Agrees (s s' : Session) : Prop where
  store : s.store.Agrees s'.store
  lastId_eq : s'.lastId = s.lastId
  registries : Pointwise (fun r r' => r'.settings = r.settings) s.registries s'.registries
  collections_eq : s'.collections = s.collections
  resources_eq : s'.resources = s.resources
  documents_eq : s'.documents = s.documents
  faults_eq : s'.faults = s.faults
  behaves : s.faults = .none

variable {s s' : Session}

theorem Agrees.refl (hfaults : s.faults = .none) : s.Agrees s where
  store := .refl s.store
  lastId_eq := rfl
  registries := .refl fun _ => rfl
  collections_eq := rfl
  resources_eq := rfl
  documents_eq := rfl
  faults_eq := rfl
  behaves := hfaults

theorem agrees_iff_like : s.Agrees s' ↔ s.Like .policies [] s' where
  mp h :=
    { h with
      store := Store.agrees_iff_like.mp h.store
      registries := h.registries.mono fun hr => ⟨hr, trivial⟩
      documents := h.documents_eq ▸ .refl s.documents
      faults := h.behaves
      journal := trivial }
  mpr h :=
    { h with
      store := Store.agrees_iff_like.mpr h.store
      registries := h.registries.mono And.left
      documents_eq := h.documents.eq_of_nil
      behaves := h.faults }

theorem Agrees.setStore {u u' : Store} (h : s.Agrees s') (hu : u.Agrees u') :
    ({ s with store := u } : Session).Agrees { s' with store := u' } :=
  { h with store := hu }

/-- What happens to the stores happens to the sessions. -/
theorem Agrees.observing {u u' : Store} {c c' : Counters} {j j' : Journal} (h : s.Agrees s')
    (hu : u.Agrees u') (registry : Nat) :
    ({ s with
      store := u
      registries := s.registries.modify registry fun r => { r with counters := c }
      journal := j } : Session).Agrees
    { s' with
      store := u'
      registries := s'.registries.modify registry fun r => { r with counters := c' }
      journal := j' } := by
  refine { h with store := hu, registries := h.registries.modify ?_ registry }
  exact fun hr => hr

/-- Where nothing is hidden, answers that are alike are the same. -/
theorem inStep_of_matches {x y : Step Answer}
    (h : Matches (Like .policies []) (Answer.RenumbersTo []) x y) : InStep Agrees x y := by
  intro s s' hs
  obtain ⟨ha, hlike⟩ := h s s' (agrees_iff_like.mp hs)
  refine ⟨?_, agrees_iff_like.mpr hlike⟩
  generalize (x s).1 = a, (y s').1 = b at ha
  cases ha with
  | ok h => rw [h, Answer.renumbered_nil]
  | error e => rfl

theorem inStep_giveOrNone (d : Option Document) : InStep Agrees (giveOrNone d) (giveOrNone d) :=
  inStep_of_matches (matches_giveOrNone d)

theorem inStep_giveLease (place : Nat) (lease : Lease) :
    InStep Agrees (giveLease place lease) (giveLease place lease) :=
  inStep_of_matches (matches_giveLease place lease)

/-- Neutral commands are answered in step unless they look something up as of a time. -/
theorem inStep_step (c : Command) (hc : c.Neutral) (htime : ¬c.IsAsOf) :
    InStep Agrees (step c) (step c) := by
  have hstep : Matches (Like .policies []) (Answer.RenumbersTo []) (step c) (step (c.renumbered [])) :=
    matches_step c hc htime fun _ _ => List.not_mem_nil
  rw [c.renumbered_nil] at hstep
  exact inStep_of_matches hstep

end Session

end AsOf
