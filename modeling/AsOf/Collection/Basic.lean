import AsOf.Document.Basic
import AsOf.Lookup.Snapshot
import AsOf.Settings.Basic
import AsOf.Store.Database
import AsOf.Store.Resource
import AsOf.Text.Quoted

/-!
# Collections

A collection is a name for a database under which its resources are given out as documents. It finds
documents as of a revision or a time, makes new ones from scripts, and removes them.

## Main definitions

* `CollectionError`: the causes
* `CollectionError.code`, `CollectionError.text`: what is said of a cause
* `RevisionChoice.read`: the choice of a revision that an integer stands for
* `Collection`: a name for a database, with settings
* `Collection.locate`: a resource by its name
* `Collection.liftStore`: store errors as errors of the collection
* `Document.describe`, `Collection.describe`
* `Collection.namedRevision`, `Collection.atRevision`: documents as of a revision
* `Collection.namedAsOf`, `Collection.asOf`: documents as of a time
* `Collection.all`: the latest documents
* `Collection.fill`: a script on a resource without a past
* `Collection.make`: a new resource, filled or taken away again
* `Collection.addAs`, `Collection.add`: new documents, counted and reported
* `Collection.remove`: one resource, by its id
* `Collection.clear`: all resources
* `Collection.close`: the database
-/

namespace AsOf

open Text

/-! ## Collection errors -/

/-- Why a collection refuses an operation. -/
inductive CollectionError where
  /-- No resource was named, and the collection holds several. -/
  | ambiguousResource (collection : String) (count : Nat)
  /-- No resource was named, and the collection holds none. -/
  | emptyCollection (collection : String)
  /-- The number stands for no revision. -/
  | invalidRevision (raw : Int)
  /-- The document could not be made. -/
  | ingestion (resource : String) (source : StoreError)
  /-- The store refused. -/
  | store (source : StoreError)
deriving DecidableEq, Inhabited

namespace CollectionError

/-- The stable code of an error. -/
def code : CollectionError → String
  | ambiguousResource _ _ => "CHRONO_AMBIGUOUS_RESOURCE"
  | emptyCollection _ => "CHRONO_EMPTY_COLLECTION"
  | invalidRevision _ => "CHRONO_INVALID_REVISION"
  | ingestion _ _ => "CHRONO_INGESTION_FAILED"
  | store source => source.code

/-- The whole text of an error. -/
def text : CollectionError → String
  | ambiguousResource collection count =>
    "collection " ++ collection ++ " holds " ++ Text.decimal count ++
      " resources, name one explicitly"
  | emptyCollection collection => "collection " ++ collection ++ " holds no resources"
  | invalidRevision raw => "invalid revision number: " ++ Text.signedDecimal raw
  | ingestion resource source => "failed to ingest resource " ++ resource ++ ": " ++ source.text
  | store source => source.text

/-- The store error behind an error. -/
def storeError? : CollectionError → Option StoreError
  | ingestion _ source | store source => some source
  | _ => none

/-- What the error came from: the store error behind a failed ingestion, and what a store error
itself came from. -/
def cause : CollectionError → Option String
  | ingestion _ source => some source.text
  | store source => source.cause
  | _ => none

end CollectionError

/-- The revision that an integer stands for, or the error that it stands for none. -/
def RevisionChoice.read (raw : Int) : Except CollectionError RevisionChoice :=
  match ofInt? raw with
  | some revision => .ok revision
  | none => .error (.invalidRevision raw)

/-! ## Names for databases

A collection is a name for a database under which its resources are given out as documents. -/

/-- A collection: its id and name, the place of its database in the store, its settings, and the
registry that counts for it. -/
structure Collection where
  id : Nat
  name : String
  database : Nat
  settings : CollectionSettings := {}
  registry : Nat := 0
deriving DecidableEq, Inhabited

namespace Collection

open Observed AsOf.Action

/-- An error of the collection in the place of a store error. -/
def liftStore {σ α : Type} (x : Action σ StoreError α) : Action σ CollectionError α :=
  x.mapError .store

/-- The place of the resource with a name. -/
def locate (f : Faults) (c : Collection) (name : String) :
    Action (Observed Store) StoreError Nat := do
  ofExcept (f.check .locate)
  ofExcept ((← current).locate c.database name)

/-- The resource with a name is taken away, if there is one. -/
def removeNamed (f : Faults) (c : Collection) (name : String) :
    Action (Observed Store) StoreError Bool := do
  ofExcept (f.check .remove)
  update (·.remove c.database name)

end Collection

/-! ## Descriptions

Documents and collections as they are shown to those who look into a running program. -/

/-- The word for an access. -/
def Access.describe : Access → String
  | .readOnly => "ReadOnly"
  | .updatable => "Updatable"

/-- The id of a collection, as it is shown. -/
def describeCollectionId (id : Nat) : String := "CollectionId(" ++ decimal id ++ ")"

/-- A document with its collection, its resource, its access and its revision. -/
def Document.describe (s : Store) (d : Document) : String :=
  "SnapshotDocument \x7b collection: " ++ describeCollectionId d.collection ++
    ", resource: " ++ literal d.resource ++
    ", trx: Trx \x7b access: " ++ d.lease.access.describe ++
    ", revision: RevisionNumber(" ++ (d.base s).number.text ++ ") \x7d \x7d"

/-- A collection with its id, its name and the name of its database. -/
def Collection.describe (s : Store) (c : Collection) : String :=
  "DbCollection \x7b id: " ++ describeCollectionId c.id ++ ", name: " ++ literal c.name ++
    ", database: " ++ literal ((s.database? c.database).elim "" (·.name)) ++ " \x7d"

/-! ## Finding documents

The documents of a collection as of a revision or a time, for reading or for changing. A collection
that holds one resource needs no name for its document as of a revision; as of a time, its own name
stands for that of the resource. -/

namespace Collection

open Observed AsOf.Action

variable (f : Faults) (c : Collection)

/-- The document with a name as of a revision. -/
def namedRevision (name : String) (revision : RevisionChoice) (access : Access) :
    Action (Observed Store) CollectionError Document := liftStore do
  let place ← locate f c name
  let lease ← onResource place (snapshotOf f revision access)
  return ⟨c.id, name, place, lease⟩

/-- The document with a name as of a time, if the resource is that old. -/
def namedAsOf (name : String) (time : Instant) (access : Access) :
    Action (Observed Store) CollectionError (Option Document) := liftStore do
  let place ← locate f c name
  let lease ← onResource place (snapshotAsOf f time access)
  return lease.map (⟨c.id, name, place, ·⟩)

/-- The name of the only resource of the collection. -/
def soleName : Action (Observed Store) CollectionError String := do
  match (← current).names c.database with
  | [] => fail (.emptyCollection c.name)
  | [name] => return name
  | names =>
    report .ambiguousResource
      [("collection", c.name), ("resources", Text.decimal names.length)]
    fail (.ambiguousResource c.name names.length)

/-- The only document as of a revision. -/
def atRevision (revision : RevisionChoice) (access : Access) :
    Action (Observed Store) CollectionError Document := do
  let name ← soleName c
  namedRevision f c name revision access

/-- The document with the name of the collection as of a time. -/
def asOf (time : Instant) (access : Access) :
    Action (Observed Store) CollectionError (Option Document) :=
  namedAsOf f c c.name time access

/-- Documents that are not needed any more are given up. -/
def releaseAll (documents : List Document) : Action (Observed Store) CollectionError Unit :=
  modify fun o => { o with state := documents.foldl (fun s d => d.release s) o.state }

/-- The latest documents with the given names behind those that were found already; if one is
refused, the others are given up. -/
def latestOf (access : Access) :
    List Document → List String → Action (Observed Store) CollectionError (List Document)
  | found, [] => return found
  | found, name :: names => do
    match ← (namedRevision f c name .latest access).attempt with
    | .ok document => latestOf access (found ++ [document]) names
    | .error e =>
      releaseAll found
      fail e

/-- The latest documents of all resources in the order of creation. -/
def all (access : Access) : Action (Observed Store) CollectionError (List Document) := do
  latestOf f c access [] ((← current).names c.database)

end Collection

/-! ## Making documents

A document is made by running a script on a new resource. If the script gives up, or anything else
stands in the way, the resource is taken away again, so that a document is made as a whole or not at
all. When even taking it away fails, that failure is what the caller hears of. -/

namespace Collection

open Observed AsOf.Action

variable (f : Faults) (c : Collection)

/-- A script on a write transaction, up to the first edit that is refused. -/
def script (w : WriterRef) (edits : List Edit) : Action (Observed Store) StoreError Unit := fun o =>
  let (result, state) := o.state.runScript w edits
  (result, { o with state })

/-- The document that a script makes of a resource without a past: the script starts on the document
root, what it leaves is sealed, and the document is shown from its root. -/
def fill (name : String) (edits : List Edit) : Action (Observed Store) StoreError Document := do
  let place ← locate f c name
  let handle ← onResource place (takeWriter f)
  script ⟨place, handle⟩ ([.toRoot] ++ edits ++ [.commit, .toRoot])
  return ⟨c.id, name, place, .writer handle⟩

/-- A new resource and the document that a script makes of it. A resource that cannot be filled is
taken away again. -/
def make (name : String) (edits : List Edit) : Action (Observed Store) StoreError Document := do
  ofExcept (f.check .create)
  update fun s => return ((), ← s.create c.database name c.settings.resource)
  match ← (fill f c name edits).attempt with
  | .ok document => return document
  | .error e =>
    let _ ← removeNamed f c name
    fail e

/-- A new document with a name. -/
def addAs (name : String) (edits : List Edit) :
    Action (Observed Store) CollectionError Document := do
  let about : Fields := [("collection", c.name), ("resource", name)]
  let scope : Scope := ⟨"INGEST", about⟩
  match ← (within scope StoreError.message (make f c name edits)).attempt with
  | .ok document =>
    let revision := ("revision", (document.base (← current)).number.text)
    record (scope.completed [revision])
    count .documentsAdded
    report .documentAdded (about ++ [revision])
    return document
  | .error e =>
    count .ingestionFailures
    report .ingestionFailed (about ++ [("code", e.code)])
    fail (.ingestion name e)

/-- The name that the collection gives to its next document. -/
def nextName (s : Store) : String :=
  c.settings.resourcePrefix ++ Text.decimal ((s.names c.database).length + 1)

/-- A new document with a name that the collection gives it. -/
def add (edits : List Edit) : Action (Observed Store) CollectionError Document := do
  addAs f c (c.nextName (← current)) edits

end Collection

/-! ## Removing documents

The end of one resource, of all resources and of the database of a collection. -/

namespace Collection

open Observed AsOf.Action

variable (f : Faults) (c : Collection)

/-- The name of the resource with an id; there is none below zero. -/
def nameOf? (s : Store) (id : Int) : Option String :=
  if id < 0 then none else (s.database? c.database).bind (·.nameOf? id.toNat)

/-- Whether there was a resource with an id; if so, it is removed. -/
def remove (id : Int) : Action (Observed Store) CollectionError Bool := do
  match c.nameOf? (← current) id with
  | none => return false
  | some name =>
    let removed ← liftStore (removeNamed f c name)
    if removed then
      report .resourceRemoved [("collection", c.name), ("resource", name)]
    return removed

/-- All resources are removed. -/
def clear : Action (Observed Store) CollectionError Unit := do
  liftStore (ofExcept (f.check .clear))
  modify fun o => { o with state := o.state.clear c.database }
  report .collectionDeleted [("collection", c.name)]

/-- The database is closed. -/
def close : Action (Observed Store) CollectionError Unit := do
  liftStore (ofExcept (f.check .close))
  modify fun o => { o with state := o.state.close c.database }
  report .collectionClosed [("collection", c.name)]

end Collection

end AsOf
