import AsOf.Collection.Basic
import AsOf.Session.Command

/-!
# Running sessions

A session answers one command after the other. How a command is answered depends on what it concerns: the
session itself, a database, a resource, a collection or a document.

## Main definitions

* `Session.openCollection`: a new collection over a database
* `Session.stepSession`
* `Session.stepDatabase`
* `Session.giveLease`: a lease becomes a document
* `Session.stepResource`
* `Session.giveOrNone`: a document, if there is one
* `Session.pullDocuments`: documents on request
* `Session.stepCollection`
* `Session.moveAll`, `Session.writeAll`, `Session.streamAll`: requests with several parts
* `Session.stepDocument`
* `Session.step`: the answer to a command
* `Session.play`: the answers to several commands
-/

namespace AsOf

/-! ## Sessions as a whole

How a session answers requests that concern itself: its clock, what it holds, and what was counted. -/

namespace Session

open AsOf.Action

/-- A new collection over a database: its number and its id. -/
def openCollection (db registry : Nat) (name : String) : Step (Nat × Nat) := do
  let s ← get
  let id := s.lastId + 1
  let settings := (s.registries[registry]?).elim {} (·.settings)
  let c : Collection := ⟨id, name, db, settings, registry⟩
  modify fun s => { s with lastId := id, collections := s.collections.push c }
  observing registry
    (Observed.report .collectionOpened [("collection", name), ("id", Text.decimal id)])
  return (s.collections.size, id)

/-- The answer to a request that concerns the session. -/
def stepSession : SessionCommand → Step Answer
  | .setClock time => do
    setStore { (← get).store with clock := time }
    return .time time
  | .addDatabase name lookup => do
    let store := (← get).store
    setStore (store.addDatabase { name, lookup })
    return .number store.databases.size
  | .addRegistry settings => do
    modify fun s => { s with registries := s.registries.push { settings } }
    return .settings settings
  | .openCollection db registry name => do
    let (n, id) ← openCollection db registry name
    return .opened n id
  | .setFaults faults => do
    modify fun s => { s with faults }
    return .done
  | .sameDatabase a b => do
    return .flag ((← collection a).database == (← collection b).database)
  | .countDatabases => do
    return .number ((← get).collections.toList.map (·.database)).eraseDups.length
  | .counters registry => do return .counters ((← get).countersOf registry)

end Session

/-! ## Databases in a session

How a session answers requests that concern a database. Resources that are located get the next
number. -/

namespace Session

open AsOf.Action

/-- The answer to a request that concerns a database. -/
def stepDatabase (db : Nat) (f : Faults) : DatabaseCommand → Step Answer
  | .create name options => do
    change fun s => do
      f.check .create
      return ((), ← s.create db name options)
    return .done
  | .remove name => do
    let removed ← change fun s => do
      f.check .remove
      s.remove db name
    return .flag removed
  | .locate name => do
    let place ← change fun s => do
      f.check .locate
      return (← s.locate db name, s)
    let n := (← get).resources.size
    modify fun s => { s with resources := s.resources.push place }
    return .number n
  | .nameOf id => do return .textOrNone (((← get).store.database? db).bind (·.nameOf? id))
  | .entry name => do return .entry (((← get).store.database? db).bind (·.find? name))
  | .info => do return .database (← orClosed ((← get).store.database? db))
  | .clear => do
    change fun s => do
      f.check .clear
      return ((), s.clear db)
    return .done
  | .close => do
    change fun s => do
      f.check .close
      return ((), s.close db)
    return .done

end Session

/-! ## Resources in a session

How a session answers requests that concern a resource. Leases become documents, which go into the
next slots and count for the first collection. -/

namespace Session

open AsOf.Action

/-- An action on a resource, by its place in the store. -/
def onResource {α : Type} (place registry : Nat) (x : Action (Observed Resource) StoreError α) :
    Step α :=
  observing registry (Collection.liftStore (Observed.onResource place x))

/-- A lease on a resource, which no collection gave, goes into the next slot. It counts for the
first collection. -/
def giveLease (place : Nat) (lease : Lease) : Step Answer := do
  let s ← get
  let name := (← resourceAt place).name
  let (slot, view) ← give ⟨(s.collections[0]?).elim 0 (·.id), name, place, lease⟩
  return .document slot view

/-- The answer to a request that concerns a resource. -/
def stepResource (place : Nat) (f : Faults) : ResourceCommand → Step Answer
  | .info => do
    let r ← resourceAt place
    return .resource ⟨r, f.hasRunning r, (f.runningHandle r).isSome⟩
  | .timeline => do return .revisions (← resourceAt place).history.timeline.toList
  | .candidate time => do return .number (f.candidate (← resourceAt place) time).val
  | .endWriter => do
    let (ended, r) := (← resourceAt place).endWriter
    setStore ((← get).store.setResource place r)
    return .flag ended
  | .startWriter => do
    let handle ← onResource place 0 do
      ofExcept (f.check .startWriter)
      Observed.update Resource.startWriter
    giveLease place (.writer handle)
  | .startReader target => do
    let trx ← onResource place 0 (newReader f target)
    giveLease place (.reader trx)
  | .take registry access target => do
    let lease ← onResource place registry (takeLease f access target)
    giveLease place lease
  | .asOf registry time access => do
    match ← onResource place registry (snapshotAsOf f time access) with
    | none => return .noDocument
    | some lease => giveLease place lease
  | .atRevision registry revision access => do
    let revision ← ofExcept (RevisionChoice.read revision)
    let lease ← onResource place registry (snapshotOf f revision access)
    giveLease place lease

end Session

/-! ## Collections in a session

How a session answers requests that concern a collection. Documents that are found or made go into
the next slots. -/

namespace Session

open AsOf.Action

/-- A document, if there is one, goes into the next slot. -/
def giveOrNone : Option Document → Step Answer
  | none => return .noDocument
  | some d => do
    let (slot, view) ← give d
    return .document slot view

/-- The documents of a batch that remain are given up. -/
def releaseBatch (batch : Batch Document) : Step Unit :=
  modify fun s => { s with store := batch.items.foldl (fun s d => d.release s) s.store }

/-- Documents that are handed out go into slots; those that are not are given up. -/
def pullDocuments : Batch Document → List Pull →
    Step (List (Option (Option (Nat × DocumentView)) × Nat))
  | batch, [] => do
    releaseBatch batch
    return []
  | batch, .close :: rest => do
    releaseBatch batch
    let answers ← pullDocuments batch.close rest
    return (none, batch.close.remaining) :: answers
  | batch, .next :: rest =>
    match batch.next with
    | (none, batch) => do
      let answers ← pullDocuments batch rest
      return (some none, batch.remaining) :: answers
    | (some d, batch) => do
      let given ← give d
      let answers ← pullDocuments batch rest
      return (some (some given), batch.remaining) :: answers

/-- The answer to a request that concerns a collection. -/
def stepCollection (c : Collection) (f : Faults) : CollectionCommand → Step Answer
  | .info => do
    let store := (← get).store
    return .collection c ((store.database? c.database).elim "" (·.name)) (store.names c.database)
  | .describe => do return .text (c.describe (← get).store)
  | .atRevision revision access => do
    let revision ← ofExcept (RevisionChoice.read revision)
    giveOrNone (some (← observing c.registry (c.atRevision f revision access)))
  | .namedRevision name revision access => do
    let revision ← ofExcept (RevisionChoice.read revision)
    giveOrNone (some (← observing c.registry (c.namedRevision f name revision access)))
  | .asOf time access => do giveOrNone (← observing c.registry (c.asOf f time access))
  | .namedAsOf name time access => do
    giveOrNone (← observing c.registry (c.namedAsOf f name time access))
  | .all access pulls => do
    let batch : Batch Document := ⟨← observing c.registry (c.all f access)⟩
    let answers ← pullDocuments batch pulls
    return .documents batch.remaining answers
  | .add edits => do giveOrNone (some (← observing c.registry (c.add f edits)))
  | .addAs name edits => do giveOrNone (some (← observing c.registry (c.addAs f name edits)))
  | .remove id => do return .flag (← observing c.registry (c.remove f id))
  | .clear => do
    observing c.registry (c.clear f)
    return .done
  | .close => do
    observing c.registry (c.close f)
    return .done

end Session

/-! ## Documents in a session

How a session answers requests that concern a document that it gave out. -/

namespace Session

open AsOf.Action

/-- What a cursor answers to one request, and the transaction behind it. -/
def moveCursor (t : Transaction) : CursorMove → Except StoreError CursorAnswer × Transaction
  | .toRoot =>
    match t.moveTo rootKey with
    | .ok t => (.ok .done, t)
    | .error e => (.error e, t)
  | .moveTo key =>
    match t.moveTo key with
    | .ok t => (.ok .done, t)
    | .error e => (.error e, t)
  | .readNode => (t.node.map .node, t)
  | .readRevision => (.ok (.revision t.base), t)

/-- What a cursor answers to several requests, with its key after each, and the transaction behind
them. -/
def moveAll (t : Transaction) :
    List CursorMove → List (Except StoreError CursorAnswer × Nat) × Transaction
  | [] => ([], t)
  | m :: rest =>
    let (answer, t) := moveCursor t m
    let (answers, t') := moveAll t rest
    ((answer, t.cursor) :: answers, t')

/-- One edit on a write transaction, where a refusal is an answer. -/
def writeOne (w : WriterRef) (e : Edit) : Step (Except StoreError EditAnswer) := fun s =>
  match s.store.edit w e with
  | .ok (answer, store) => (.ok (.ok answer), { s with store })
  | .error reason => (.ok (.error reason), s)

/-- What a write transaction answers to several edits, with its revision and its cursor after each.
An edit that is refused does not keep the next ones from being made. -/
def writeAll (w : WriterRef) :
    List Edit → Step (List (Except StoreError EditAnswer × RevisionNumber × Nat))
  | [] => return []
  | e :: rest => do
    let answer ← writeOne w e
    let t := (((← get).store.resource? w.resource).bind (·.writer? w.handle)).getD default
    let answers ← writeAll w rest
    return (answer, t.base.number, t.cursor) :: answers

/-- What a stream answers to one request: the next item, or nothing when it is only closed. -/
def pullOne : Pull → Action (Observed ItemStream) StoreError
    (Option (Except StoreError (Option Item)))
  | .next => do return some (← ItemStream.next.attempt)
  | .close => return none

/-- What a stream answers to several requests. -/
def streamAll : List Pull → Action (Observed ItemStream) StoreError (List StreamAnswer)
  | [] => return []
  | pull :: rest => do
    let result ← pullOne pull
    let s ← Observed.current
    let answers ← streamAll rest
    return ⟨result, s.yielded, s.exhausted⟩ :: answers

/-- A pass through groups of keys with a document in a slot. -/
def streaming {α : Type} (slot : Nat) (d : Document) (groups : List (Option (List Nat)))
    (x : Action (Observed ItemStream) StoreError α) : Step (Except StoreError α × ItemStream) := do
  let (a, stream, d) ← observing 0 fun o =>
    let (result, o) := d.streaming groups x o
    (.ok result, o)
  setDocument slot (some d)
  return (a, stream)

/-- The answer to a request that concerns the document in a slot. -/
def stepDocument (slot : Nat) (d : Document) : DocumentCommand → Step Answer
  | .info => do
    let s ← get
    return .transaction (s.view d) (d.transaction s.store)
  | .describe => do return .text (d.describe (← get).store)
  | .items groups => do
    match (← streaming slot d groups ItemStream.drain).1 with
    | .ok items => return .items items
    | .error e => fail (.store e)
  | .stream groups pulls => do
    let (answers, stream) ← streaming slot d groups (streamAll pulls)
    return .streamed stream.collection (answers.toOption.getD []) stream.cursor.cursor
  | .cursor moves => do
    let store := (← get).store
    let (answers, trx) := moveAll (d.transaction store) moves
    let (d, store) := d.put store trx
    setStore store
    setDocument slot (some d)
    return .moved answers
  | .write edits =>
    match d.writerRef? with
    | none => return .text Access.readOnly.name
    | some w => do return .written (← writeAll w edits)
  | .sameWriter other => do
    let writer? := (← document other).writerRef?
    return .flagOrNone (d.writerRef?.bind fun a => writer?.map (a == ·))
  | .endReader => do
    let (d, store) := d.endReader (← get).store
    setStore store
    setDocument slot (some d)
    return .text (if d.isUpdatable then Access.updatable.name else d.resource)
  | .release => do
    setStore (d.release (← get).store)
    setDocument slot none
    return .done

end Session

/-! ## One command after the other

A session answers one command after the other. A command that fails does not end the session. -/

namespace Session

open AsOf.Action

/-- The answer to a command. -/
def step : Command → Step Answer
  | .session c => stepSession c
  | .collection n c => do stepCollection (← collection n) (← get).faults c
  | .database db c => do stepDatabase db (← get).faults c
  | .resource n c => do stepResource (← place n) (← get).faults c
  | .document slot c => do stepDocument slot (← document slot) c

/-- The answers to several commands, each with the records that it wrote. -/
def play (s : Session) : List Command →
    List (Except CollectionError Answer × List Record) × Session
  | [] => ([], s)
  | c :: rest =>
    let (answer, s') := step c s
    let (answers, s'') := s'.play rest
    ((answer, s'.journal.records.drop s.journal.records.length) :: answers, s'')

end Session

end AsOf
