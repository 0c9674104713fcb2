import AsOf.Journal.Observed
import AsOf.Store.Resource

/-!
# Stores

A store holds databases and the resources that were ever created in them. What is done to write transactions
is told by edits; a store that does not behave is told by its faults.

## Main definitions

* `ResourceOptions`, `Entry`, `Database`, `Store`
* `Store.locate`, `Store.create`, `Store.remove`: resources by name
* `Store.clear`, `Store.close`: the end of a database
* `Edit`, `EditAnswer`: an edit and what it yields
* `Store.edit`: one edit on a write transaction
* `Store.runScript`: a script, up to the first edit that is refused
* `StoreCall`: the calls that can fail
* `Faults`: which calls fail and which answers are given instead
* `Observed.onResource`
-/

namespace AsOf

/-! ## Databases

A store holds databases and the resources that were ever created in them. A database lists its
resources in the order of creation, under ids that are never used again; a resource that was removed
lives on for those who hold it. -/

/-- How a resource is to be stored. -/
structure ResourceOptions where
  useDeweyIds : Bool := true
  useTextCompression : Bool := true
  buildPathSummary : Bool := true
deriving DecidableEq, Inhabited, Repr

/-- A resource in a database: its id there, its name and options, and its place in the store. -/
structure Entry where
  id : Nat
  name : String
  options : ResourceOptions
  resource : Nat
deriving DecidableEq, Inhabited

/-- A database: its resources in the order of their ids, and the id for the next one. -/
structure Database where
  name : String
  lookup : LookupPolicy := .default
  entries : List Entry := []
  nextId : Nat := 0
  closed : Bool := false
deriving DecidableEq, Inhabited

namespace Database

/-- The entry with a name. -/
def find? (d : Database) (name : String) : Option Entry := d.entries.find? (·.name == name)

/-- The names of the resources. -/
def names (d : Database) : List String := d.entries.map (·.name)

/-- The name of the resource with an id. -/
def nameOf? (d : Database) (id : Nat) : Option String :=
  (d.entries.find? (·.id == id)).map (·.name)

/-- The database is refused if it is closed. -/
def ensureOpen (d : Database) : Except StoreError Unit :=
  if d.closed then .error (.databaseClosed d.name) else .ok ()

end Database

/-- Databases that share a clock, and the resources that were ever created in them. -/
structure Store where
  clock : Instant := .epoch
  resources : Array Resource := #[]
  databases : Array Database := #[]
deriving DecidableEq, Inhabited

namespace Store

/-! ### Finding -/

/-- A database by its place in the store. -/
def database? (s : Store) (db : Nat) : Option Database := s.databases[db]?

/-- A database by its place, unless it is closed; one that is not there counts as closed. -/
def openDatabase (s : Store) (db : Nat) : Except StoreError Database :=
  match s.database? db with
  | none => .error (.databaseClosed "")
  | some d => do
    d.ensureOpen
    return d

/-- The names of the resources of a database. -/
def names (s : Store) (db : Nat) : List String :=
  (s.database? db).elim [] Database.names

/-- A resource by its place in the store. -/
def resource? (s : Store) (id : Nat) : Option Resource := s.resources[id]?

/-- The store with another state of a resource. -/
def setResource (s : Store) (id : Nat) (r : Resource) : Store :=
  { s with resources := s.resources.setIfInBounds id r }

/-- The store with another state of a database. -/
def setDatabase (s : Store) (db : Nat) (d : Database) : Store :=
  { s with databases := s.databases.setIfInBounds db d }

/-- The store with one more database, whose place is the number of those before. -/
def addDatabase (s : Store) (d : Database) : Store := { s with databases := s.databases.push d }

/-- The place of the resource with a name. -/
def locate (s : Store) (db : Nat) (name : String) : Except StoreError Nat := do
  let d ← s.openDatabase db
  match d.find? name with
  | some entry => return entry.resource
  | none => .error (.resourceNotFound name)

/-! ### Creating and removing

A resource leaves its database with its write transaction closed, but it keeps its place in the
store, so that read transactions and handles on it stay what they were. -/

/-- The store with a new resource, created at the time of its clock. -/
def create (s : Store) (db : Nat) (name : String) (options : ResourceOptions) :
    Except StoreError Store := do
  let d ← s.openDatabase db
  if (d.find? name).isSome then .error (.resourceExists name)
  else
    let entry : Entry := ⟨d.nextId, name, options, s.resources.size⟩
    let created := { s with resources := s.resources.push (.create name d.lookup s.clock) }
    return created.setDatabase db { d with entries := d.entries ++ [entry], nextId := d.nextId + 1 }

/-- The store after the write transaction of a resource has been closed. -/
def endWriter (s : Store) (id : Nat) : Store :=
  { s with resources := s.resources.modify id fun r => r.endWriter.2 }

/-- The store after the write transactions of several resources have been closed. -/
def endWriters (s : Store) (ids : List Nat) : Store := ids.foldl endWriter s

/-- Whether there was a resource with the name, and the store without it. -/
def remove (s : Store) (db : Nat) (name : String) : Except StoreError (Bool × Store) := do
  let d ← s.openDatabase db
  match d.find? name with
  | none => return (false, s)
  | some entry =>
    let kept := { d with entries := d.entries.filter (·.id != entry.id) }
    return (true, (s.setDatabase db kept).endWriter entry.resource)

/-- The store after all resources of a database have been removed. -/
def clear (s : Store) (db : Nat) : Store :=
  match s.database? db with
  | none => s
  | some d => (s.endWriters (d.entries.map (·.resource))).setDatabase db { d with entries := [] }

/-- The store after a database has been closed. -/
def close (s : Store) (db : Nat) : Store :=
  match s.database? db with
  | none => s
  | some d => (s.endWriters (d.entries.map (·.resource))).setDatabase db { d with closed := true }

end Store

/-! ## Edits

What is done to a write transaction, as data: moving its cursor, inserting, committing and going
back. A list of edits is a script; a document is made by running one on a new resource. -/

/-- A write transaction: the place of its resource in the store, and its handle there. -/
structure WriterRef where
  resource : Nat
  handle : Nat
deriving DecidableEq, Inhabited

/-- What is done to a write transaction. The last two edits act on what lies around it: the clock of
the store is set, or the script gives up. -/
inductive Edit where
  | toRoot
  | toParent
  | moveTo (key : Nat)
  | insert (kind : NodeKind)
  | commit
  | revert (target : RevisionNumber)
  | readNode
  | readClosed
  | readResource
  | setClock (time : Instant)
  | giveUp (reason : StoreError)

/-- What an edit yields. -/
inductive EditAnswer where
  | done
  | key (key : Nat)
  | revision (number : RevisionNumber)
  | node (node : Node)
  | flag (value : Bool)
  | name (value : String)

namespace Resource

/-- One edit on the write transaction with a handle, sealing at a time. -/
def edit (r : Resource) (handle : Nat) (now : Instant) :
    Edit → Except StoreError (EditAnswer × Resource)
  | .toRoot => do
    let t ← (← r.liveWriter handle).moveTo rootKey
    return (.done, r.setWriter handle t)
  | .toParent => do
    let t ← (← r.liveWriter handle).ascend
    return (.done, r.setWriter handle t)
  | .moveTo key => do
    let t ← (← r.liveWriter handle).moveTo key
    return (.done, r.setWriter handle t)
  | .insert kind => do
    let (key, t) ← (← r.liveWriter handle).insert kind
    return (.key key, r.setWriter handle t)
  | .commit => do
    let (number, r) ← r.commit handle now
    return (.revision number, r)
  | .revert target => do
    let r ← r.revert handle target
    return (.done, r)
  | .readNode => do
    let node ← (← r.liveWriter handle).node
    return (.node node, r)
  | .readClosed => .ok (.flag ((r.writer? handle).elim true (·.closed)), r)
  | .readResource => .ok (.name r.name, r)
  | .setClock _ => .ok (.done, r)
  | .giveUp reason => .error reason

end Resource

namespace Store

/-- One edit on a write transaction. -/
def edit (s : Store) (w : WriterRef) (e : Edit) : Except StoreError (EditAnswer × Store) :=
  match s.resource? w.resource with
  | none => .error .trxClosed
  | some r => do
    let (answer, r) ← r.edit w.handle s.clock e
    let s := s.setResource w.resource r
    return (answer, match e with
      | .setClock time => { s with clock := time }
      | _ => s)

/-- A script on a write transaction: why it ended before its end, if it did, and the store that it
leaves. -/
def runScript (s : Store) (w : WriterRef) : List Edit → Except StoreError Unit × Store
  | [] => (.ok (), s)
  | e :: rest =>
    match s.edit w e with
    | .ok (_, s) => s.runScript w rest
    | .error reason => (.error reason, s)

end Store

/-! ## Faults

A store that does not behave: calls that fail, and answers that are not those of the store. Without
faults the store answers for itself. -/

/-- The calls of a store that can fail. -/
inductive StoreCall where
  | locate
  | create
  | remove
  | clear
  | close
  | startWriter
  | startReader
  | startReaderAsOf
deriving DecidableEq, Repr

namespace StoreCall

/-- All calls. -/
def all : List StoreCall :=
  [locate, create, remove, clear, close, startWriter, startReader, startReaderAsOf]

/-- The name of a call. -/
def name : StoreCall → String
  | locate => "open_resource"
  | create => "create_resource"
  | remove => "remove_resource"
  | clear => "remove"
  | close => "close"
  | startWriter => "begin_write_trx"
  | startReader => "begin_read_trx"
  | startReaderAsOf => "begin_read_trx_at"

end StoreCall

/-- What a store is made to answer: whether a write transaction is running, that its handle is
missing, which revision stands for every time, and that some calls fail. -/
structure Faults where
  running : Option Bool := none
  hideHandle : Bool := false
  lookup : Option RevisionNumber := none
  failing : List StoreCall := []

namespace Faults

/-- The store answers for itself. -/
def none : Faults := {}

/-- The error of a call that fails. -/
def failure (call : StoreCall) : StoreError :=
  .io (call.name ++ " failed") (call.name ++ " failed")

/-- A call is refused if it is to fail. -/
def check (f : Faults) (call : StoreCall) : Except StoreError Unit :=
  if call ∈ f.failing then .error (failure call) else .ok ()

/-- Whether a write transaction is said to be running. -/
def hasRunning (f : Faults) (r : Resource) : Bool := f.running.getD r.running.isSome

/-- The handle of the running write transaction, as far as it is given away. -/
def runningHandle (f : Faults) (r : Resource) : Option Nat :=
  if f.hideHandle then Option.none else r.running

/-- The number of the revision that is said to stand for a time. -/
def candidate (f : Faults) (r : Resource) (time : Instant) : RevisionNumber :=
  f.lookup.getD (r.candidate time)

@[simp]
theorem hasRunning_none (r : Resource) : none.hasRunning r = r.running.isSome := rfl

@[simp]
theorem runningHandle_none (r : Resource) : none.runningHandle r = r.running := rfl

@[simp]
theorem candidate_none (r : Resource) (time : Instant) :
    none.candidate r time = r.candidate time := rfl

end Faults

/-! ## One resource of a store

Actions on a resource as actions on the store that holds it. -/

namespace Observed

/-- An action on one resource of a store; a resource that is not there has no open transaction. -/
def onResource {α : Type} (place : Nat) (x : Action (Observed Resource) StoreError α) :
    Action (Observed Store) StoreError α := fun o =>
  match o.state.resource? place with
  | none => (.error .trxClosed, o)
  | some r =>
    let (a, o') := x ⟨r, o.counters, o.journal⟩
    (a, ⟨o.state.setResource place o'.state, o'.counters, o'.journal⟩)

end Observed

end AsOf
