import AsOf.Collection.Basic
import AsOf.Proofs.Lookup.Writer
import AsOf.Proofs.Store.Listing
import AsOf.Proofs.Store.Script

/-!
# Making and finding documents

What is said and done when a document is made, and where documents are found in the store behind.

## Main definitions

* `Resource.Accepts`: a script runs to its end on the first write transaction of a new resource
* `Resource.Filled`: what sealing such a script leaves of the resource
* `Collection.Ingests`: a document was made under a name

## Main results

* `Collection.reports_make`, `Collection.reports_make_of_refused`: what making a document does
* `Collection.does_addAs`, `Collection.does_addAs_of_error`: what adding a document does
* `Collection.yields_namedAsOf`, `Collection.yields_namedRevision`: documents that are found
* `Collection.yields_namedAsOf_of_locate`, `Collection.yields_namedRevision_of_locate`,
  `Collection.yields_namedRevision_of_error`: refusals
-/

namespace AsOf

open Observed

/-! ## New documents

A new document is made of a new resource, on whose first write transaction a script runs. Nothing but
its name stands in the way: if the name is free, and the resource accepts the script, the document is
made, and if the name is in use, nothing happens at all. -/

/-- The script runs to its end on the first write transaction of a new resource. -/
def Resource.Accepts (new : Resource) (now : Instant) (edits : List Edit) : Prop :=
  ∃ handle r, new.startWriter = .ok (handle, r) ∧
    (r.runScript handle now (.toRoot :: edits)).1 = .ok ()

/-- A script filled a new resource: it ran to its end on the first write transaction, and what it left is
sealed, as one revision more than it sealed itself. The transaction goes on from this revision, at the
document root. -/
structure Resource.Filled (new : Resource) (now : Instant) (edits : List Edit) (handle : Nat)
    (r : Resource) (now' : Instant) : Prop where
  name : r.name = new.name
  running : r.running = some handle
  mostRecent : r.mostRecent.val = 2 + edits.countP Edit.isCommit
  script : ∃ opened left t, new.startWriter = .ok (handle, opened) ∧
    opened.runScript handle now (.toRoot :: edits) = (.ok (), left, now') ∧
    left.liveWriter handle = .ok t ∧
    r.history.entries = left.history.entries ++ [(left.history.nextStamp now', t.tree)] ∧
    r.liveWriter handle = .ok { t with base := r.history.latest, cursor := rootKey }

/-- What an accepted script leaves of a new resource can be sealed. -/
theorem Resource.Accepts.exists_filled {name : String} {lookup : LookupPolicy} {created now : Instant}
    {edits : List Edit} (h : (Resource.create name lookup created).Accepts now edits) :
    ∃ handle opened r now', (Resource.create name lookup created).startWriter = .ok (handle, opened) ∧
      opened.runScript handle now ((.toRoot :: edits) ++ [.commit, .toRoot]) = (.ok (), r, now') ∧
      (Resource.create name lookup created).Filled now edits handle r now' := by
  obtain ⟨handle, opened, hstart, hok⟩ := h
  rcases hscript : opened.runScript handle now (.toRoot :: edits) with ⟨result, left, now'⟩
  obtain rfl : result = .ok () := (congrArg Prod.fst hscript).symm.trans hok
  have hwriting : opened.Writing handle := Resource.writing_of_startWriter hstart
  obtain ⟨r, t, live, hsealed, hname, hrunning, hhistory, hlive⟩ :=
    Resource.runScript_sealed hwriting hscript
  have hleft := (hwriting.runScript hscript).1.sound
  have hlatest : r.history.latest = left.history.nextStamp now' := congrArg History.latest hhistory
  refine ⟨handle, opened, r, now', hstart, hsealed,
    hname.trans (Resource.step_of_startWriter hstart).name_eq, hrunning, ?_, opened, left, t, hstart, hscript,
    live, ?_, hlatest ▸ hlive⟩
  · have hfirst : opened.mostRecent = .first :=
      congrArg (·.latest.number) (Resource.history_of_startWriter hstart)
    have hnext : r.mostRecent = left.mostRecent.next := congrArg RevisionStamp.number hlatest
    rw [hnext, RevisionNumber.val_next, Resource.mostRecent_runScript hscript, hfirst,
      RevisionNumber.val_first, List.countP_cons_of_neg (by decide)]
    omega
  · rw [hhistory]
    exact hleft.history.entries_append t.tree now'

theorem Observed.Does.onResource {α : Type} {x : Action (Observed Resource) StoreError α}
    {s : Store} {place : Nat} {r r' : Resource} {a : Except StoreError α} {ks : List Counter}
    {ws : List Record} (hr : s.resource? place = some r) (h : Does x r a r' ks ws) :
    Does (Observed.onResource place x) s a (s.setResource place r') ks ws := by
  intro c j
  simp only [Observed.onResource, hr, h c j]

theorem Observed.Reports.onResource {α : Type} {x : Action (Observed Resource) StoreError α}
    {s : Store} {place : Nat} {r r' : Resource} {a : Except StoreError α} {ks : List Counter}
    (hr : s.resource? place = some r) (h : Reports x r a r' ks) :
    Reports (Observed.onResource place x) s a (s.setResource place r') ks :=
  let ⟨events, h⟩ := h
  ⟨events, h.onResource hr⟩

theorem Observed.reports_check {σ : Type} {f : Faults} {call : StoreCall} (s : σ)
    (h : f.check call = .ok ()) : Reports (Action.ofExcept (f.check call)) s (.ok ()) s [] := by
  rw [h]
  exact reports_ofExcept s _

theorem Resource.reports_newWriter {f : Faults} {r r' : Resource} {handle : Nat}
    (hcheck : f.check .startWriter = .ok ()) (hstart : r.startWriter = .ok (handle, r')) :
    Reports (newWriter f) r (.ok handle) r' [.writeTrxOpened] :=
  (reports_current r).bind <| (reports_check r hcheck).bind <| (reports_update hstart).bind <|
    (reports_count r' _).bind <| (reports_report r' _ _).bind (reports_pure r' handle)

/-- Where no write transaction is running, a new one is taken, also if one is said to be running. -/
theorem Resource.reports_takeWriter_of_newWriter {f : Faults} {r r' : Resource}
    {answer : Except StoreError Nat} {ks : List Counter} (idle : r.running = none)
    (h : Reports (newWriter f) r answer r' ks) : Reports (takeWriter f) r answer r' ks := by
  refine (reports_current r).bind ?_
  have hmissing : f.runningHandle r = none := by
    rw [Faults.runningHandle, idle]
    split <;> rfl
  rw [hmissing]
  split
  · exact (reports_report r _ _).bind h
  · exact h

namespace Store

variable {s : Store} {db : Nat} {d : Database} {name : String} {options : ResourceOptions}

/-- The store after a resource was created, and what became of it up to some time. -/
def started (s : Store) (db : Nat) (d : Database) (name : String) (options : ResourceOptions)
    (r : Resource) (now : Instant) : Store :=
  { (s.created db d name options).setResource s.resources.size r with clock := now }

theorem resource?_started (s : Store) (db : Nat) (d : Database) (name : String)
    (options : ResourceOptions) (r : Resource) (now : Instant) (place : Nat) :
    (s.started db d name options r now).resource? place =
      if place = s.resources.size then some r else s.resource? place := by
  have hnew : (s.created db d name options).resource? s.resources.size =
      some (.create name d.lookup s.clock) := (resource?_created ..).trans (if_pos rfl)
  refine (resource?_setResource hnew r place).trans ?_
  split
  · rfl
  · next hne => rw [resource?_created, if_neg hne]

/-- A script on the first write transaction of a new resource. -/
theorem runScript_started (db : Nat) (d : Database) (name : String) (options : ResourceOptions)
    {handle : Nat} {r r' : Resource} {now : Instant} {edits : List Edit} {result : Except StoreError Unit}
    (hscript : r.runScript handle s.clock edits = (result, r', now)) :
    ((s.created db d name options).setResource s.resources.size r).runScript ⟨s.resources.size, handle⟩
      edits = (result, s.started db d name options r' now) := by
  have hnew : (s.created db d name options).resource? s.resources.size =
      some (.create name d.lookup s.clock) := (resource?_created ..).trans (if_pos rfl)
  let opened := (s.created db d name options).setResource s.resources.size r
  have hopened : opened.resource? s.resources.size = some r :=
    (resource?_setResource hnew r _).trans (if_pos rfl)
  rw [runScript_eq (w := ⟨s.resources.size, handle⟩) hopened,
    show r.runScript handle opened.clock _ = _ from hscript, started, setResource_setResource]

theorem create_bind_eq_ok (hopen : s.openDatabase db = .ok d) (hfree : d.find? name = none) :
    (do return ((), ← s.create db name options)) =
      (.ok ((), s.created db d name options) : Except StoreError (Unit × Store)) := by
  rw [create_eq_ok_iff.mpr ⟨d, hopen, hfree, rfl⟩]
  rfl

/-- No resource is created under a name that is in use. -/
theorem create_of_taken (hopen : s.openDatabase db = .ok d) (htaken : d.find? name ≠ none) :
    s.create db name options = .error (.resourceExists name) := by
  rw [create, hopen]
  simp only [bind, Except.bind, Option.isSome_iff_ne_none.mpr htaken, if_true]

end Store

namespace Collection

variable {s : Store} {c : Collection} {d : Database} {f : Faults} {name : String} {edits : List Edit}

/-- A document was made under a name. Its resource is the only one that is new, and the script filled it;
it is listed last, under the next id and with the options of the collection, and found under the name.
All other databases and resources are as before, and the clock shows what the script left it at. -/
structure Ingests (c : Collection) (s : Store) (d : Database) (name : String) (edits : List Edit)
    (document : Document) (s' : Store) : Prop where
  fresh : s.resource? document.place = none
  located : s'.locate c.database name = .ok document.place
  databases : s'.databases = s.databases.setIfInBounds c.database
    (d.extended name c.settings.resource s.resources.size)
  resource : ∃ handle r, document = ⟨c.id, name, s.resources.size, .writer handle⟩ ∧
    s'.resource? s.resources.size = some r ∧
    (Resource.create name d.lookup s.clock).Filled s.clock edits handle r s'.clock
  others : ∀ place, place ≠ s.resources.size → s'.resource? place = s.resource? place

/-- A document whose resource was filled. -/
theorem ingests_started {handle : Nat} {r : Resource} {now : Instant}
    (hopen : s.openDatabase c.database = .ok d) (hfree : d.find? name = none)
    (h : (Resource.create name d.lookup s.clock).Filled s.clock edits handle r now) :
    c.Ingests s d name edits ⟨c.id, name, s.resources.size, .writer handle⟩
      (s.started c.database d name c.settings.resource r now) where
  fresh := Array.getElem?_eq_none_iff.mpr (Nat.le_refl _)
  located := Store.locate_created hopen hfree
  databases := rfl
  resource := ⟨handle, r, rfl, (Store.resource?_started ..).trans (if_pos rfl), h⟩
  others _ hne := (Store.resource?_started ..).trans (if_neg hne)

theorem does_script {s' : Store} {w : WriterRef} {result : Except StoreError Unit}
    (h : s.runScript w edits = (result, s')) : Does (script w edits) s result s' [] [] := by
  intro c j
  simp only [script, h]
  rfl

theorem reports_script {s' : Store} {w : WriterRef} {result : Except StoreError Unit}
    (h : s.runScript w edits = (result, s')) : Reports (script w edits) s result s' [] :=
  ⟨[], does_script h⟩

theorem reports_locate {x : Except StoreError Nat} (hcheck : f.check .locate = .ok ())
    (h : s.locate c.database name = x) : Reports (locate f c name) s x s [] :=
  (reports_check s hcheck).bind <| (reports_current s).bind <| h ▸ reports_ofExcept s _

/-- What filling a new resource does: the script runs on it as it would alone. -/
theorem reports_fill (hlocate : f.check .locate = .ok ()) (hwriter : f.check .startWriter = .ok ())
    {handle : Nat} {r r' : Resource} {now : Instant} {result : Except StoreError Unit}
    (hopen : s.openDatabase c.database = .ok d) (hfree : d.find? name = none)
    (hstart : (Resource.create name d.lookup s.clock).startWriter = .ok (handle, r))
    (hscript : r.runScript handle s.clock ((.toRoot :: edits) ++ [.commit, .toRoot]) =
      (result, r', now)) :
    Reports (fill f c name edits) (s.created c.database d name c.settings.resource)
      (result.map fun _ => ⟨c.id, name, s.resources.size, .writer handle⟩)
      (s.started c.database d name c.settings.resource r' now) [.writeTrxOpened] := by
  have hnew : (s.created c.database d name c.settings.resource).resource? s.resources.size =
      some (.create name d.lookup s.clock) := (Store.resource?_created ..).trans (if_pos rfl)
  have hrun := Store.runScript_started c.database d name c.settings.resource hscript
  have hlocated := reports_locate (s := s.created c.database d name c.settings.resource) hlocate
    (Store.locate_created hopen hfree)
  have htake := Reports.onResource hnew
    (Resource.reports_takeWriter_of_newWriter rfl (Resource.reports_newWriter hwriter hstart))
  cases result with
  | ok => exact hlocated.bind <| htake.bind <| (reports_script hrun).bind (reports_pure _ _)
  | error e => exact hlocated.bind <| htake.bind (reports_script hrun).bind_error

/-- What making a document with a free name does, if the new resource accepts the script. -/
theorem reports_make_of_script {handle : Nat} {r r' : Resource} {now : Instant}
    (hopen : s.openDatabase c.database = .ok d) (hfree : d.find? name = none)
    (hstart : (Resource.create name d.lookup s.clock).startWriter = .ok (handle, r))
    (hscript : r.runScript handle s.clock ((.toRoot :: edits) ++ [.commit, .toRoot]) =
      (.ok (), r', now)) :
    Reports (make .none c name edits) s (.ok ⟨c.id, name, s.resources.size, .writer handle⟩)
      (s.started c.database d name c.settings.resource r' now) [.writeTrxOpened] :=
  (reports_ofExcept s (.ok ())).bind <|
    (reports_update (Store.create_bind_eq_ok hopen hfree)).bind <|
    (reports_fill rfl rfl hopen hfree hstart hscript).attempt.bind (reports_pure _ _)

/-- A document is made if the name is free and the new resource accepts the script. -/
theorem reports_make (hopen : s.openDatabase c.database = .ok d) (hfree : d.find? name = none)
    (haccepts : (Resource.create name d.lookup s.clock).Accepts s.clock edits) :
    ∃ document s', c.Ingests s d name edits document s' ∧
      Reports (make .none c name edits) s (.ok document) s' [.writeTrxOpened] := by
  obtain ⟨handle, opened, r, now, hstart, hsealed, hfilled⟩ := haccepts.exists_filled
  exact ⟨_, _, ingests_started hopen hfree hfilled, reports_make_of_script hopen hfree hstart hsealed⟩

/-- Where no resource can be created, nothing is made. -/
theorem reports_make_of_refused {e : StoreError}
    (hcreate : s.create c.database name c.settings.resource = .error e) :
    Reports (make .none c name edits) s (.error e) s [] := by
  have hupdate : (do return ((), ← s.create c.database name c.settings.resource)) =
      (.error e : Except StoreError (Unit × Store)) := by
    rw [hcreate]
    rfl
  exact (reports_ofExcept s (.ok ())).bind (reports_update_error hupdate).bind_error

/-- What adding a document does, given what making it does. -/
theorem does_addAs {document : Document} {s' : Store} {ks : List Counter}
    (h : Reports (make .none c name edits) s (.ok document) s' ks) :
    ∃ written, Does (addAs .none c name edits) s (.ok document) s' (ks ++ [.documentsAdded]) written := by
  obtain ⟨events, hwithin⟩ :=
    h.within ⟨"INGEST", [("collection", c.name), ("resource", name)]⟩ StoreError.message
  exact ⟨_, hwithin.attempt.bind <| (does_current s').bind <| (does_record s' _).bind <|
    (does_count s' _).bind <| (does_record s' _).bind (does_pure s' document)⟩

theorem does_addAs_of_error {e : StoreError} {s' : Store} {ks : List Counter}
    (h : Reports (make .none c name edits) s (.error e) s' ks) :
    ∃ written, Does (addAs .none c name edits) s (.error (.ingestion name e)) s'
      (ks ++ [.ingestionFailures]) written := by
  obtain ⟨events, hwithin⟩ :=
    h.within ⟨"INGEST", [("collection", c.name), ("resource", name)]⟩ StoreError.message
  exact ⟨_, hwithin.attempt.bind <| (does_count s' _).bind <| (does_record s' _).bind (does_fail s' _)⟩

end Collection

/-! ## Documents by name

A document is a lease on the resource with its name. What the resource refuses, the collection refuses, and
what is not there is not found. -/

theorem Observed.Yields.onResource {α : Type} {x : Action (Observed Resource) StoreError α}
    {s : Store} {place : Nat} {r r' : Resource} {a : Except StoreError α}
    (hr : s.resource? place = some r) (h : Yields x r a r') :
    Yields (Observed.onResource place x) s a (s.setResource place r') := by
  intro c j
  obtain ⟨c', j', h⟩ := h c j
  refine ⟨c', j', ?_⟩
  simp only [Observed.onResource, hr, h]

namespace Collection

variable {c : Collection} {s : Store} {name : String} {place : Nat} {r r' : Resource}
  {time : Instant} {choice : RevisionChoice} {access : Access}

theorem yields_namedAsOf {found : Option Lease} (hplace : s.locate c.database name = .ok place)
    (hr : s.resource? place = some r)
    (h : Yields (snapshotAsOf .none time access) r (.ok found) r') :
    Yields (c.namedAsOf .none name time access) s (.ok (found.map (⟨c.id, name, place, ·⟩)))
      (s.setResource place r') := by
  have hfound := (h.onResource hr).bind_pure fun found : Option Lease =>
    found.map (⟨c.id, name, place, ·⟩ : Lease → Document)
  exact Yields.mapError (a := .ok _) ((reports_locate rfl hplace).yields.bind hfound) CollectionError.store

/-- Nothing is found under a name that is not there. -/
theorem yields_namedAsOf_of_locate {e : StoreError} (h : s.locate c.database name = .error e) :
    Yields (c.namedAsOf .none name time access) s (.error (.store e)) s :=
  Yields.mapError (a := .error e) (reports_locate rfl h).yields.bind_error CollectionError.store

theorem yields_namedRevision {lease : Lease} (hplace : s.locate c.database name = .ok place)
    (hr : s.resource? place = some r)
    (h : Yields (snapshotOf .none choice access) r (.ok lease) r') :
    Yields (c.namedRevision .none name choice access) s (.ok ⟨c.id, name, place, lease⟩)
      (s.setResource place r') := by
  have hfound := (h.onResource hr).bind_pure fun lease : Lease =>
    (⟨c.id, name, place, lease⟩ : Document)
  exact Yields.mapError (a := .ok _) ((reports_locate rfl hplace).yields.bind hfound) CollectionError.store

theorem yields_namedRevision_of_locate {e : StoreError} (h : s.locate c.database name = .error e) :
    Yields (c.namedRevision .none name choice access) s (.error (.store e)) s :=
  Yields.mapError (a := .error e) (reports_locate rfl h).yields.bind_error CollectionError.store

theorem yields_namedRevision_of_error {e : StoreError}
    (hplace : s.locate c.database name = .ok place) (hr : s.resource? place = some r)
    (h : Yields (snapshotOf .none choice access) r (.error e) r') :
    Yields (c.namedRevision .none name choice access) s (.error (.store e))
      (s.setResource place r') :=
  Yields.mapError (a := .error e) ((reports_locate rfl hplace).yields.bind (h.onResource hr).bind_error)
    CollectionError.store

end Collection

end AsOf
