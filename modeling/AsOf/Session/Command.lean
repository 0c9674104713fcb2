import AsOf.Collection.Basic
import AsOf.Document.Basic

/-!
# Sessions and commands

Several databases, collections and callers at work on one store: what a session holds, what it can be asked,
and what it answers.

## Main definitions

* `Registry`: settings and counts that collections share
* `Session`: the store and all that was given out
* `Session.observing`, `Session.change`: actions on the store
* `Session.give`: a document is given out
* `Command`: requests that concern the session, a collection, a database, a resource or a document
* `Answer`: answers
-/

namespace AsOf

/-! ## What a session holds

Several databases, collections and callers at work on one store. A session gives everything that a
caller can hold a number: databases, registries, collections, resources and documents, each counted
from zero in the order in which they were given out. -/

/-- Settings for the collections that it opens, and the counts of what they do. -/
structure Registry where
  settings : CollectionSettings := {}
  counters : Counters := {}
deriving Inhabited

/-- A store, a source of collection ids, and what was given out. A slot is empty when the document
in it was given up. -/
structure Session where
  store : Store := {}
  lastId : Nat := 0
  registries : Array Registry := #[]
  collections : Array Collection := #[]
  resources : Array Nat := #[]
  documents : Array (Option Document) := #[]
  faults : Faults := .none
  journal : Journal := {}
deriving Inhabited

/-- What a caller sees of a document. -/
structure DocumentView where
  collection : Nat
  resource : String
  base : RevisionStamp
  updatable : Bool

namespace Session

open AsOf.Action

/-- Parts of a session. -/
abbrev Step (α : Type) := Action Session CollectionError α

variable {α : Type}

/-- What was never given out, or was given up, counts as closed. -/
def orClosed : Option α → Step α
  | some a => return a
  | none => fail (.store .trxClosed)

/-- The counts of a registry. -/
def countersOf (s : Session) (registry : Nat) : Counters :=
  (s.registries[registry]?).elim {} (·.counters)

/-- An action on the store that a registry counts and the journal of the session reports. -/
def observing (registry : Nat) (x : Action (Observed Store) CollectionError α) : Step α := fun s =>
  let (a, o) := x ⟨s.store, s.countersOf registry, s.journal⟩
  (a, { s with
    store := o.state
    registries := s.registries.modify registry fun r => { r with counters := o.counters }
    journal := o.journal })

/-- A change of the store that takes place as a whole or not at all. -/
def change (f : Store → Except StoreError (α × Store)) : Step α := fun s =>
  match f s.store with
  | .ok (a, store) => (.ok a, { s with store })
  | .error e => (.error (.store e), s)

/-- Another state of the store. -/
def setStore (store : Store) : Step Unit := modify fun s => { s with store }

/-- A collection by its number. -/
def collection (n : Nat) : Step Collection := do orClosed (← get).collections[n]?

/-- The place in the store of a resource by its number. -/
def place (n : Nat) : Step Nat := do orClosed (← get).resources[n]?

/-- A resource by its place in the store. -/
def resourceAt (place : Nat) : Step Resource := do orClosed ((← get).store.resource? place)

/-- A document by its slot. -/
def document (slot : Nat) : Step Document := do orClosed (← get).documents[slot]?.join

/-- What a caller sees of a document. -/
def view (s : Session) (d : Document) : DocumentView :=
  ⟨d.collection, d.resource, d.base s.store, d.isUpdatable⟩

/-- A document goes into the next slot. -/
def give (d : Document) : Step (Nat × DocumentView) := do
  let s ← get
  modify fun s => { s with documents := s.documents.push (some d) }
  return (s.documents.size, s.view d)

/-- Another state of the document in a slot. -/
def setDocument (slot : Nat) (d : Option Document) : Step Unit :=
  modify fun s => { s with documents := s.documents.setIfInBounds slot d }

end Session

/-! ## Commands

What can be asked of a session, and what it answers. Numbers in commands refer to what the session
gave out. -/

/-! ### Requests -/

/-- Requests that concern the session as a whole. -/
inductive SessionCommand where
  /-- The clock is set. -/
  | setClock (time : Instant)
  /-- A database is added. -/
  | addDatabase (name : String) (lookup : LookupPolicy)
  /-- A registry is added. -/
  | addRegistry (settings : CollectionSettings)
  /-- A collection is opened over a database. -/
  | openCollection (db registry : Nat) (name : String)
  /-- The store misbehaves from now on. -/
  | setFaults (faults : Faults)
  /-- Whether two collections share a database. -/
  | sameDatabase (a b : Nat)
  /-- How many databases have a collection. -/
  | countDatabases
  /-- The counts of a registry. -/
  | counters (registry : Nat)

/-- Requests that concern a collection. -/
inductive CollectionCommand where
  /-- What the collection is. -/
  | info
  /-- The text that shows the collection. -/
  | describe
  /-- The only document as of a revision. -/
  | atRevision (revision : Int) (access : Access)
  /-- The document with a name as of a revision. -/
  | namedRevision (name : String) (revision : Int) (access : Access)
  /-- The document with the name of the collection as of a time. -/
  | asOf (time : Instant) (access : Access)
  /-- The document with a name as of a time. -/
  | namedAsOf (name : String) (time : Instant) (access : Access)
  /-- The latest documents, handed out on request. -/
  | all (access : Access) (pulls : List Pull)
  /-- A new document. -/
  | add (edits : List Edit)
  /-- A new document with a name. -/
  | addAs (name : String) (edits : List Edit)
  /-- The resource with an id is removed. -/
  | remove (id : Int)
  /-- All resources are removed. -/
  | clear
  /-- The database is closed. -/
  | close

/-- Requests that concern a database. -/
inductive DatabaseCommand where
  /-- A resource is created. -/
  | create (name : String) (options : ResourceOptions)
  /-- A resource is removed. -/
  | remove (name : String)
  /-- A resource is given out. -/
  | locate (name : String)
  /-- The name of the resource with an id. -/
  | nameOf (id : Nat)
  /-- The entry of a resource. -/
  | entry (name : String)
  /-- What the database is. -/
  | info
  /-- All resources are removed. -/
  | clear
  /-- The database is closed. -/
  | close

/-- Requests that concern a resource. -/
inductive ResourceCommand where
  /-- What the resource is. -/
  | info
  /-- The sealed revisions. -/
  | timeline
  /-- The revision that the store offers for a time. -/
  | candidate (time : Instant)
  /-- The write transaction is closed. -/
  | endWriter
  /-- A write transaction is opened. -/
  | startWriter
  /-- A read transaction is opened. -/
  | startReader (target : ReadTarget)
  /-- A lease, counted by a registry. -/
  | take (registry : Nat) (access : Access) (target : ReadTarget)
  /-- A snapshot as of a time, counted by a registry. -/
  | asOf (registry : Nat) (time : Instant) (access : Access)
  /-- A snapshot of a revision, counted by a registry. -/
  | atRevision (registry : Nat) (revision : Int) (access : Access)

/-- What is done with the cursor of a document. -/
inductive CursorMove where
  | toRoot
  | moveTo (key : Nat)
  | readNode
  | readRevision

/-- Requests that concern a document that was given out. -/
inductive DocumentCommand where
  /-- What the document is. -/
  | info
  /-- The text that shows the document. -/
  | describe
  /-- The items that groups of keys name. -/
  | items (groups : List (Option (List Nat)))
  /-- The same items on request. -/
  | stream (groups : List (Option (List Nat))) (pulls : List Pull)
  /-- The cursor moves. -/
  | cursor (moves : List CursorMove)
  /-- The write transaction is edited. -/
  | write (edits : List Edit)
  /-- Whether another document shares the write transaction. -/
  | sameWriter (other : Nat)
  /-- The read transaction is closed. -/
  | endReader
  /-- The document is given up. -/
  | release

/-- What can be asked of a session. -/
inductive Command where
  | session (c : SessionCommand)
  | collection (n : Nat) (c : CollectionCommand)
  | database (n : Nat) (c : DatabaseCommand)
  | resource (n : Nat) (c : ResourceCommand)
  | document (slot : Nat) (c : DocumentCommand)

/-! ### Answers -/

/-- What a cursor answers. -/
inductive CursorAnswer where
  | done
  | node (node : Node)
  | revision (stamp : RevisionStamp)

/-- What a caller sees of a resource. -/
structure ResourceView where
  resource : Resource
  running : Bool
  hasHandle : Bool

/-- What a stream answers to one request, with the number of items so far and whether it is at its
end. A stream that is closed has no answer. -/
structure StreamAnswer where
  result : Option (Except StoreError (Option Item))
  yielded : Nat
  exhausted : Bool

/-- What a session answers. -/
inductive Answer where
  | done
  | time (t : Instant)
  | number (n : Nat)
  | flag (b : Bool)
  | flagOrNone (b : Option Bool)
  | text (s : String)
  | textOrNone (s : Option String)
  | settings (s : CollectionSettings)
  | opened (n id : Nat)
  | collection (c : Collection) (database : String) (resources : List String)
  | counters (c : Counters)
  | document (slot : Nat) (view : DocumentView)
  | noDocument
  | documents (remaining : Nat) (pulled : List (Option (Option (Nat × DocumentView)) × Nat))
  | entry (entry : Option Entry)
  | database (d : Database)
  | resource (view : ResourceView)
  | revisions (stamps : List RevisionStamp)
  | transaction (view : DocumentView) (trx : Transaction)
  | items (items : List Item)
  | streamed (collection : Nat) (answers : List StreamAnswer) (cursor : Nat)
  | moved (answers : List (Except StoreError CursorAnswer × Nat))
  | written (answers : List (Except StoreError EditAnswer × RevisionNumber × Nat))

end AsOf
