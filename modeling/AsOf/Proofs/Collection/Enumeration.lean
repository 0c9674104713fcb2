import Mathlib.Data.List.Forall2
import AsOf.Proofs.Collection.Add
import AsOf.Proofs.Lookup.Idle
import AsOf.Proofs.Store.Identity

/-!
# All documents of a collection

A collection finds its latest documents one after the other, by the names that its database lists. As no
name is listed twice and no two resources share a place, each resource is looked up once, and no lookup
meddles with another one. None of them is refused: the latest revision is there to be read, and a write
transaction that is to be changed is on hand or can be opened.

## Main definitions

* `Resource.GivesLatest`: what a resource gives of its latest revision
* `Collection.Presents`: the document of an entry
* `Collection.Enumerates`: the documents of entries, and what becomes of the store

## Main results

* `Resource.Sound.exists_givesLatest`: the latest revision is never refused
* `Collection.exists_yields_latestOf`, `Collection.exists_yields_all`: all documents are found
-/

namespace AsOf

open Observed AsOf.Action

namespace Resource

/-- What a resource gives of its latest revision, and what it is like afterwards. To be read, the tree that
was sealed last is given on a transaction of its own, which is counted. To be changed, the running write
transaction is given as it is, or a new one where none is running. -/
inductive GivesLatest (r : Resource) : Access → Lease → Resource → Prop
  | reader {tree : Tree} (hs : r.history.revision? r.mostRecent = some (r.history.latest, tree)) :
      GivesLatest r .readOnly (.reader { base := r.history.latest, tree }) r.countedOpen
  | shared {handle : Nat} {t : Transaction} (hrun : r.running = some handle)
      (live : r.liveWriter handle = .ok t) : GivesLatest r .updatable (.writer handle) r
  | opened {tree : Tree} (idle : r.running = none)
      (hs : r.history.revision? r.mostRecent = some (r.history.latest, tree)) :
      GivesLatest r .updatable (.writer r.writers.size) (r.opened tree)

/-- Of a resource that is sound, the latest revision is never refused. -/
theorem Sound.exists_givesLatest {r : Resource} (hr : r.Sound) (access : Access) :
    ∃ lease r', r.GivesLatest access lease r' ∧
      Yields (snapshotOf .none .latest access) r (.ok lease) r' := by
  cases access with
  | readOnly =>
    obtain ⟨tree, hs⟩ := hr.exists_revision?_mostRecent
    obtain ⟨ks, written, hdoes⟩ := does_snapshotOf_readOnly (show r.history.revision?
      (RevisionChoice.latest.resolve r.mostRecent) = some (r.history.latest, tree) from hs)
    exact ⟨_, _, .reader hs, hdoes.yields⟩
  | updatable =>
    obtain ⟨handle, t, r₁, k, r', times, written, htaken, hsteered, hdoes⟩ :=
      hr.does_snapshotOf_updatable .latest
    -- The most recent revision is not before itself, so no transaction goes back to it.
    have hstay : ¬r₁.GoesBackTo t r.mostRecent := fun hback =>
      RevisionNumber.not_le.mpr hback.1 (htaken.mostRecent_eq ▸ RevisionNumber.le_refl _)
    obtain ⟨-, rfl⟩ := hsteered.stays hstay
    refine ⟨_, _, ?_, hdoes.yields⟩
    cases htaken with
    | reused hrun live => exact .shared hrun live
    | opened idle hs => exact .opened idle hs

end Resource

namespace Collection

/-- The document presents the latest revision of the resource of an entry. -/
structure Presents (c : Collection) (access : Access) (s s' : Store) (entry : Entry)
    (document : Document) : Prop where
  collection : document.collection = c.id
  name : document.resource = entry.name
  place : document.place = entry.resource
  lease : ∃ r r', s.resource? entry.resource = some r ∧ s'.resource? entry.resource = some r' ∧
    r.GivesLatest access document.lease r'

/-- The documents present the latest revisions of the resources of entries, one for each entry in their
order. No other resource of the store has changed. -/
structure Enumerates (c : Collection) (access : Access) (s : Store) (entries : List Entry)
    (documents : List Document) (s' : Store) : Prop where
  documents : List.Forall₂ (c.Presents access s s') entries documents
  others : ∀ {place : Nat}, (∀ entry ∈ entries, entry.resource ≠ place) →
    s'.resource? place = s.resource? place
  databases : s'.databases = s.databases
  clock : s'.clock = s.clock

variable {c : Collection} {access : Access} {s s' : Store} {entries : List Entry}
  {documents : List Document}

theorem enumerates_nil (c : Collection) (access : Access) (s : Store) : c.Enumerates access s [] [] s :=
  ⟨.nil, fun _ => rfl, rfl, rfl⟩

/-- One more document in front, of a resource that is not looked up later. -/
theorem Enumerates.cons {entry : Entry} {r r' : Resource} {lease : Lease}
    (h : c.Enumerates access (s.setResource entry.resource r') entries documents s')
    (hr : s.resource? entry.resource = some r) (hgives : r.GivesLatest access lease r')
    (hother : ∀ other ∈ entries, other.resource ≠ entry.resource) :
    c.Enumerates access s (entry :: entries) (⟨c.id, entry.name, entry.resource, lease⟩ :: documents) s' := by
  have hset (place : Nat) (hplace : place ≠ entry.resource) :
      (s.setResource entry.resource r').resource? place = s.resource? place := by
    rw [Store.resource?_setResource hr, if_neg hplace]
  refine ⟨.cons ⟨rfl, rfl, rfl, r, r', hr, ?_, hgives⟩ ?_, fun {place} hplace => ?_, h.databases, h.clock⟩
  · rw [h.others hother, Store.resource?_setResource hr, if_pos rfl]
  · have hboth := (List.forall₂_and_left entries documents).mpr ⟨hother, h.documents⟩
    refine hboth.imp fun {other document} hpresents => ?_
    obtain ⟨hne, hcollection, hname, hplace, u, u', hu, hu', hgives⟩ := hpresents
    exact ⟨hcollection, hname, hplace, u, u', hset _ hne ▸ hu, hu', hgives⟩
  · obtain ⟨hentry, hentries⟩ := List.forall_mem_cons.mp hplace
    rw [h.others hentries, hset place hentry.symm]

/-- All documents with the names of entries are found, if their resources are in order and lie apart. -/
theorem exists_yields_latestOf (access : Access) (found : List Document) (hsound : ∀ entry ∈ entries,
      ∃ r : Resource, s.resource? entry.resource = some r ∧ r.Sound)
    (hlocate : ∀ entry ∈ entries, s.locate c.database entry.name = .ok entry.resource)
    (hplaces : entries.Pairwise fun a b => a.resource ≠ b.resource) :
    ∃ documents s', c.Enumerates access s entries documents s' ∧
      Yields (c.latestOf .none access found (entries.map Entry.name)) s (.ok (found ++ documents)) s' := by
  induction entries generalizing s found with
  | nil =>
    refine ⟨[], s, enumerates_nil c access s, ?_⟩
    rw [List.append_nil]
    exact yields_pure s found
  | cons entry entries ih =>
    obtain ⟨hentry, hentries⟩ := List.forall_mem_cons.mp hsound
    obtain ⟨r, hr, hsoundr⟩ := hentry
    obtain ⟨hlocated, hlocates⟩ := List.forall_mem_cons.mp hlocate
    obtain ⟨hapart, hplaces⟩ := List.pairwise_cons.mp hplaces
    obtain ⟨lease, r', hgives, hlease⟩ := hsoundr.exists_givesLatest access
    let document : Document := ⟨c.id, entry.name, entry.resource, lease⟩
    -- The lookup leaves the resources of the other entries as they are, so the rest is found behind it.
    have hsound' : ∀ other ∈ entries, ∃ u : Resource,
        (s.setResource entry.resource r').resource? other.resource = some u ∧ u.Sound := by
      intro other hother
      obtain ⟨u, hu, hsoundu⟩ := hentries other hother
      refine ⟨u, ?_, hsoundu⟩
      rw [Store.resource?_setResource hr, if_neg (hapart other hother).symm]
      exact hu
    obtain ⟨documents, s', henumerates, hrest⟩ :=
      ih (found ++ [document]) hsound' hlocates hplaces
    have hothers : ∀ other ∈ entries, other.resource ≠ entry.resource :=
      fun other hother => (hapart other hother).symm
    refine ⟨document :: documents, s', henumerates.cons hr hgives hothers, ?_⟩
    rw [List.append_cons]
    exact (yields_namedRevision hlocated hr hlease).attempt.bind hrest

/-- All documents of an open database are found. -/
theorem exists_yields_all {made : List Entry} {d : Database} (access : Access) (harose : s.Arose)
    (h : s.Registered c.database made) (hd : s.database? c.database = some d) (hopen : d.closed = false) :
    ∃ documents s', c.Enumerates access s d.entries documents s' ∧
      Yields (c.all .none access) s (.ok documents) s' := by
  have hlisted := h.listed hd
  have hsound : ∀ entry ∈ d.entries, ∃ r : Resource, s.resource? entry.resource = some r ∧ r.Sound := by
    intro entry hentry
    obtain ⟨r, hr, -⟩ := h.named entry (hlisted.subset hentry)
    exact ⟨r, hr, harose.sound hr⟩
  have hlocate : ∀ entry ∈ d.entries, s.locate c.database entry.name = .ok entry.resource :=
    fun entry hentry => (h.locate_eq_ok_iff hd hopen).mpr ⟨entry, hentry, rfl, rfl⟩
  have hplaces : d.entries.Pairwise fun a b => a.resource ≠ b.resource :=
    (h.places.sublist hlisted).imp Nat.ne_of_lt
  obtain ⟨documents, s', henumerates, hfound⟩ := exists_yields_latestOf access [] hsound hlocate hplaces
  refine ⟨documents, s', henumerates, (yields_current s).bind ?_⟩
  have hnames : s.names c.database = d.entries.map Entry.name := by rw [Store.names, hd]; rfl
  rw [hnames]
  exact hfound

end Collection

end AsOf
