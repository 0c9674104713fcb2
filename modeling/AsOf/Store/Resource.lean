import AsOf.History.Basic

/-!
# Resources

A resource has a history and at most one running write transaction at a time. It opens transactions, seals
revisions and goes back to earlier ones, or says why it does not.

## Main definitions

* `StoreError`: the causes
* `StoreError.code`, `StoreError.message`, `StoreError.details`, `StoreError.text`: what is said of
  a cause
* `Transaction`: the revision it is based on, its tree, its cursor
* `Transaction.node`, `Transaction.moveTo`: reading
* `Transaction.insert`, `Transaction.ascend`: editing
* `LookupPolicy`: which revision stands for a time between two revisions
* `Resource`: history, write transactions and statistics
* `Resource.candidate`: the revision that stands for a time
* `Resource.startReader`, `Resource.startWriter`, `Resource.endReader`, `Resource.endWriter`:
  opening and closing transactions
* `Resource.commit`, `Resource.revert`: sealing a revision, going back to one
-/

namespace AsOf

/-! ## Store errors

Why a store refuses an operation, with the codes and texts under which the refusals are known. -/

/-- Why a store refuses an operation. -/
inductive StoreError where
  /-- No resource has the name. -/
  | resourceNotFound (name : String)
  /-- A resource has the name already. -/
  | resourceExists (name : String)
  /-- The requested revision is not sealed. -/
  | revisionOutOfRange (requested mostRecent : RevisionNumber)
  /-- The target of a revert does not lie before the most recent revision. -/
  | revertRejected (target mostRecent : RevisionNumber)
  /-- The resource has a running write transaction. -/
  | writeTrxRunning (resource : String)
  /-- The tree that is read has no node with the key, or the node has no parent. -/
  | nodeNotFound (key : Nat) (revision : RevisionNumber)
  /-- The transaction is closed. -/
  | trxClosed
  /-- The database is closed. -/
  | databaseClosed (name : String)
  /-- The medium of the store failed. -/
  | io (message cause : String)
deriving DecidableEq, Inhabited

namespace StoreError

/-- The stable code of an error. -/
def code : StoreError → String
  | resourceNotFound _ => "CHRONO_RESOURCE_NOT_FOUND"
  | resourceExists _ => "CHRONO_RESOURCE_EXISTS"
  | revisionOutOfRange _ _ => "CHRONO_REVISION_OUT_OF_RANGE"
  | revertRejected _ _ => "CHRONO_REVERT_REJECTED"
  | writeTrxRunning _ => "CHRONO_WRITE_TRX_RUNNING"
  | nodeNotFound _ _ => "CHRONO_NODE_NOT_FOUND"
  | trxClosed => "CHRONO_TRX_CLOSED"
  | databaseClosed _ => "CHRONO_DATABASE_CLOSED"
  | io _ _ => "CHRONO_STORAGE_IO_ERROR"

/-- Whether the store cannot be expected to go on. -/
def isFatal : StoreError → Bool
  | io _ _ => true
  | _ => false

/-- How grave the error is, as a word. -/
def gravity (e : StoreError) : String := if e.isFatal then "FATAL" else "ERROR"

/-- What happened. -/
def message : StoreError → String
  | resourceNotFound _ => "resource does not exist"
  | resourceExists _ => "resource already exists"
  | revisionOutOfRange requested _ => "revision " ++ requested.text ++ " is not sealed"
  | revertRejected target _ => "cannot revert to revision " ++ target.text
  | writeTrxRunning _ => "a write transaction is already running"
  | nodeNotFound key _ => "node " ++ Text.decimal key ++ " does not exist"
  | trxClosed => "transaction is closed"
  | databaseClosed _ => "database is closed"
  | io message _ => message

/-- What it happened to. -/
def details : StoreError → Option String
  | resourceNotFound name | resourceExists name | writeTrxRunning name =>
    some ("resource: " ++ name)
  | revisionOutOfRange _ mostRecent | revertRejected _ mostRecent =>
    some ("most_recent: " ++ mostRecent.text)
  | nodeNotFound _ revision => some ("revision: " ++ revision.text)
  | trxClosed | io _ _ => none
  | databaseClosed name => some ("database: " ++ name)

/-- What the error came from, where that lies outside the store. -/
def cause : StoreError → Option String
  | io _ cause => some cause
  | _ => none

/-- The whole text of an error. -/
def text (e : StoreError) : String :=
  "[" ++ e.gravity ++ "] " ++ e.code ++ ": " ++ e.message ++
    match e.details with
    | some details => " (" ++ details ++ ")"
    | none => ""

end StoreError

/-! ## Transactions

A transaction shows one tree of a resource and has a cursor on one of its nodes. A read transaction
shows the tree of a sealed revision; a write transaction shows a working tree that grows from one. -/

/-- A view of a tree with a cursor. -/
structure Transaction where
  base : RevisionStamp
  tree : Tree
  cursor : Nat := rootKey
  closed : Bool := false
deriving DecidableEq, Inhabited

namespace Transaction

/-- The error for a node that the tree does not have. -/
def missing (t : Transaction) (key : Nat) : StoreError := .nodeNotFound key t.base.number

/-- The transaction, unless it is closed. -/
def ensureOpen (t : Transaction) : Except StoreError Unit :=
  if t.closed then .error .trxClosed else .ok ()

/-- The node under the cursor. -/
def node (t : Transaction) : Except StoreError Node := do
  t.ensureOpen
  match t.tree.get? t.cursor with
  | some node => .ok node
  | none => .error (t.missing t.cursor)

/-- The transaction with its cursor on another node. -/
def moveTo (t : Transaction) (key : Nat) : Except StoreError Transaction := do
  t.ensureOpen
  if t.tree.contains key then .ok { t with cursor := key } else .error (t.missing key)

/-- The key of a new last child of the node under the cursor, and the transaction with the cursor on
that child. -/
def insert (t : Transaction) (kind : NodeKind) : Except StoreError (Nat × Transaction) := do
  t.ensureOpen
  match t.tree.append t.cursor kind with
  | some (key, tree) => .ok (key, { t with tree, cursor := key })
  | none => .error (t.missing t.cursor)

/-- The transaction with its cursor on the parent of the node under the cursor. -/
def ascend (t : Transaction) : Except StoreError Transaction := do
  match (← t.node).parent with
  | some parent => .ok { t with cursor := parent }
  | none => .error (t.missing t.cursor)

/-- The transaction after it has ended. -/
def close (t : Transaction) : Transaction := { t with closed := true }

/-- The transaction after its tree was sealed as a revision. -/
def rebase (t : Transaction) (base : RevisionStamp) : Transaction := { t with base }

/-- The transaction after its tree was replaced by that of a revision. -/
def revert (t : Transaction) (base : RevisionStamp) (tree : Tree) : Transaction :=
  { t with base, tree, cursor := rootKey }

end Transaction

/-! ## Resources and their transactions

A resource has a history and at most one running write transaction at a time. Whoever holds a write
transaction goes on holding it after it has been closed, so a resource keeps all write transactions
that it ever opened, and knows which of them is running. Holders refer to their transaction by a
handle, its place among them.

Read transactions are not kept: each belongs to one holder and shows a sealed tree, which nothing
changes. A resource only counts how many were opened and closed. -/

/-- Which revision stands for a time: the last one that does not lie behind it, or the closest. -/
inductive LookupPolicy where
  | floor
  | nearest
deriving DecidableEq, Inhabited, Repr

/-- The policy that holds where none is named. -/
def LookupPolicy.default : LookupPolicy := .nearest

/-- How many transactions were opened and closed, and what the write transactions did. -/
structure ResourceTally where
  readOpened : Nat := 0
  readClosed : Nat := 0
  writeOpened : Nat := 0
  writeClosed : Nat := 0
  reverts : Nat := 0
  commits : Nat := 0
deriving DecidableEq, Inhabited, Repr

/-- How many read transactions are open. -/
def ResourceTally.liveRead (s : ResourceTally) : Nat := s.readOpened - s.readClosed

/-- A resource: its history, every write transaction it ever opened, and which of them is
running. -/
structure Resource where
  name : String
  lookup : LookupPolicy
  history : History
  writers : Array Transaction := #[]
  running : Option Nat := none
  tally : ResourceTally := {}
deriving DecidableEq, Inhabited

namespace Resource

/-! ### Questions to a resource -/

/-- A new resource whose first revision is sealed at a time. -/
def create (name : String) (lookup : LookupPolicy) (now : Instant) : Resource :=
  { name, lookup, history := .start now }

/-- The number of the most recent revision. -/
def mostRecent (r : Resource) : RevisionNumber := r.history.latest.number

/-- The number of the revision that stands for a time, the first one where none does. -/
def candidate (r : Resource) (time : Instant) : RevisionNumber :=
  let found := match r.lookup with
    | .floor => r.history.timeline.floor time
    | .nearest => r.history.timeline.nearest time
  found.elim .first (·.number)

/-! ### Opening and closing transactions -/

/-- The handle of a new write transaction on the most recent revision, and the resource with it. -/
def startWriter (r : Resource) : Except StoreError (Nat × Resource) :=
  if r.running.isSome then .error (.writeTrxRunning r.name)
  else
    match r.history.revision? r.mostRecent with
    | none => .error (.revisionOutOfRange r.mostRecent r.mostRecent)
    | some (_, tree) =>
      let handle := r.writers.size
      .ok (handle, { r with
        writers := r.writers.push { base := r.history.latest, tree }
        running := some handle
        tally := { r.tally with writeOpened := r.tally.writeOpened + 1 } })

/-- Whether a write transaction was running, and the resource without one. -/
def endWriter (r : Resource) : Bool × Resource :=
  match r.running with
  | none => (false, r)
  | some handle =>
    (true, { r with
      writers := r.writers.modify handle Transaction.close
      running := none
      tally := { r.tally with writeClosed := r.tally.writeClosed + 1 } })

/-- A read transaction on a revision, and the resource that has counted it. -/
def startReader (r : Resource) (number : RevisionNumber) :
    Except StoreError (Transaction × Resource) :=
  match r.history.revision? number with
  | none => .error (.revisionOutOfRange number r.mostRecent)
  | some (info, tree) =>
    .ok ({ base := info, tree },
      { r with tally := { r.tally with readOpened := r.tally.readOpened + 1 } })

/-- The read transaction after it has ended, and the resource that has counted it; a transaction
ends once. -/
def endReader (r : Resource) (t : Transaction) : Transaction × Resource :=
  if t.closed then (t, r)
  else (t.close, { r with tally := { r.tally with readClosed := r.tally.readClosed + 1 } })

/-! ### Sealing and going back

Everything here goes by a handle and is refused once the transaction behind it is closed. -/

/-- The write transaction with a handle. -/
def writer? (r : Resource) (handle : Nat) : Option Transaction := r.writers[handle]?

/-- The write transaction with a handle, unless it is closed. -/
def liveWriter (r : Resource) (handle : Nat) : Except StoreError Transaction :=
  match r.writer? handle with
  | none => .error .trxClosed
  | some t => if t.closed then .error .trxClosed else .ok t

/-- The resource with another state of the write transaction with a handle. -/
def setWriter (r : Resource) (handle : Nat) (t : Transaction) : Resource :=
  { r with writers := r.writers.setIfInBounds handle t }

/-- The number of a new revision with the tree of a write transaction, which is based on it from
then on, and the resource with it. -/
def commit (r : Resource) (handle : Nat) (now : Instant) :
    Except StoreError (RevisionNumber × Resource) := do
  let t ← r.liveWriter handle
  let info := r.history.nextStamp now
  let sealedRevision := { r with
    history := r.history.append t.tree now
    tally := { r.tally with commits := r.tally.commits + 1 } }
  return (info.number, sealedRevision.setWriter handle (t.rebase info))

/-- The resource after a write transaction went back to an earlier revision: its tree is that of the
revision, its cursor on the document root. Only revisions before the most recent one qualify. -/
def revert (r : Resource) (handle : Nat) (target : RevisionNumber) :
    Except StoreError Resource := do
  let t ← r.liveWriter handle
  if r.mostRecent ≤ target then .error (.revertRejected target r.mostRecent)
  else
    match r.history.revision? target with
    | none => .error (.revisionOutOfRange target r.mostRecent)
    | some (info, tree) =>
      let counted := { r with tally := { r.tally with reverts := r.tally.reverts + 1 } }
      .ok (counted.setWriter handle (t.revert info tree))

/-- The revision that the write transaction with a handle is based on. -/
def writerBase (r : Resource) (handle : Nat) : RevisionStamp :=
  (r.writer? handle).elim r.history.latest (·.base)

end Resource

end AsOf
