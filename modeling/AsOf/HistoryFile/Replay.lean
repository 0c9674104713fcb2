import AsOf.CommandLine.Arguments
import AsOf.Json.Basic
import AsOf.Store.Database
import AsOf.Time.Text
import AsOf.Tree.Basic

/-!
# History files

A history file declares resources with their revisions. It is read from its JSON form and replayed into a
store.

## Main definitions

* `HistoryFile`, `ListedResource`, `ListedRevision`: what a history file lists
* `HistoryFile.read?`: the history file that a text holds
* `ListedRevision.script`: the edits that lead to a revision
* `HistoryFile.replay`: the store of a history file
-/

namespace AsOf

/-! ## The form of history files

A history file lists resources with the time of their creation, and for each the revisions that
followed with the nodes that each of them added. -/

/-- One revision: when it was sealed, and the nodes that it added below the document root. -/
structure ListedRevision where
  time : Instant
  nodes : List NodeKind
deriving DecidableEq

/-- One resource: its name, when it was created, and its later revisions. -/
structure ListedResource where
  name : String
  created : Instant
  revisions : List ListedRevision
deriving DecidableEq

/-- The resources of a history file. -/
structure HistoryFile where
  resources : List ListedResource
deriving DecidableEq

namespace Json

/-- A time in the lenient form. -/
def instant? (value : Json) : Option Instant := do Instant.readLenient? (← value.string?)

/-- A node that a revision added: an element by its name, a text by its value, an attribute by
both. -/
def addedNode? (value : Json) : Option NodeKind := do
  match ← value.alternative? with
  | ("element", some value) => value.string?.map .element
  | ("text", some value) => value.string?.map .text
  | ("attribute", some value) =>
    (value.twoTexts? "name" "value").map fun (name, value) => .attr name value
  | _ => none

/-- A list that may be missing. -/
def listOrNone? {α : Type} (item? : Json → Option α) : Option Json → Option (List α)
  | none => some []
  | some value => value.list? item?

/-- A revision. -/
def listedRevision? (value : Json) : Option ListedRevision := do
  let [some time, nodes] ← value.fields? ["timestamp", "nodes"] | none
  return ⟨← time.instant?, ← listOrNone? addedNode? nodes⟩

/-- A resource. -/
def listedResource? (value : Json) : Option ListedResource := do
  let [some name, some created, revisions] ←
    value.fields? ["name", "created", "revisions"] | none
  return ⟨← name.string?, ← created.instant?, ← listOrNone? listedRevision? revisions⟩

/-- A history file. -/
def historyFile? (value : Json) : Option HistoryFile := do
  let [some resources] ← value.fields? ["resources"] | none
  return ⟨← resources.list? listedResource?⟩

end Json

/-- The history file that a text holds. -/
def HistoryFile.read? (s : String) : Option HistoryFile := do (← Json.read? s).historyFile?

/-! ## Replaying

The store that a history file describes: every resource is created, and its revisions are sealed one
after the other at their times, with one write transaction. -/

/-- The edits that lead to a revision: its nodes become children of the document root, and the tree
is sealed at its time. -/
def ListedRevision.script (r : ListedRevision) : List Edit :=
  .setClock r.time :: r.nodes.flatMap (fun kind => [.toRoot, .insert kind]) ++ [.commit]

namespace HistoryFile

/-- The place of the database that history files are replayed into. -/
def database : Nat := 0

/-- The error of a resource whose revisions go back in time. -/
def backInTime (name : String) (time : Instant) : CommandError :=
  .historyFile ("revisions of " ++ name ++ " go back in time at " ++ time.plain)

/-- The store after the revisions of a resource, given the time of the one before. -/
def sealListed (name : String) (w : WriterRef) :
    Store → Instant → List ListedRevision → Except CommandError Store
  | s, _, [] => .ok s
  | s, previous, r :: rest =>
    if r.time < previous then .error (backInTime name r.time)
    else
      match s.runScript w r.script with
      | (.ok (), s) => sealListed name w s r.time rest
      | (.error e, _) => .error (.ofStore e)

/-- A refusal of the store ends the replay. -/
def orRefused {α : Type} (x : Except StoreError α) : Except CommandError α := x.mapError .ofStore

/-- The store with one more resource. -/
def addListed (s : Store) (r : ListedResource) : Except CommandError Store := do
  let s := { s with clock := r.created }
  let s ← orRefused (s.create database r.name {})
  let place ← orRefused (s.locate database r.name)
  let resource ← orRefused ((s.resource? place).elim (.error .trxClosed) .ok)
  let (handle, resource) ← orRefused resource.startWriter
  let s ← sealListed r.name ⟨place, handle⟩ (s.setResource place resource) r.created r.revisions
  return s.endWriter place

/-- The store into which history files are replayed. -/
def emptyStore (lookup : LookupPolicy) : Store :=
  { databases := #[{ name := "history", lookup }] }

/-- The store of a history file. -/
def replay (f : HistoryFile) (lookup : LookupPolicy) : Except CommandError Store :=
  f.resources.foldlM addListed (emptyStore lookup)

end HistoryFile

end AsOf
