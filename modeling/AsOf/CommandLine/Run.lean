import AsOf.Collection.Basic
import AsOf.CommandLine.Arguments
import AsOf.Document.Basic
import AsOf.HistoryFile.Replay
import AsOf.Json.Basic
import AsOf.Settings.Basic
import AsOf.Time.Text
import AsOf.Tree.Basic

/-!
# Running commands

A command reads settings and a history file, replays the history, and answers a question about it in lines of
JSON.

## Main definitions

* `FileReader`: how contents are got
* `Shelf.follow`: where a path leads, part by part
* `Shelf`, `Shelf.read`: paths and contents, and the content of a file, or why there is none
* `stem?`: the name of a file without its extension
* `documentLine`, `Item.json`, `historyLine`: the objects
* `printLines`: their text
* `HistorySource.load`: the store of a history file
* `resolveLines`, `scanLines`, `historyLines`: the answers to the three kinds of requests
* `Invocation.run`: the lines, or the error, and the journal
-/

namespace AsOf

open AsOf.Action Observed

/-! ## Shelves

The files that a command can read: contents under relative paths. Whatever leads to a file is a
directory. -/

/-- The parts of a path between slashes, without empty parts and `.`. -/
def pathParts (path : List Char) : List (List Char) :=
  (go path).filter fun part => !part.isEmpty && part != ['.']
where
  /-- All parts of a path. -/
  go : List Char → List (List Char)
    | [] => [[]]
    | c :: cs =>
      if c = '/' then [] :: go cs
      else
        match go cs with
        | [] => [[c]]
        | part :: rest => (c :: part) :: rest

/-- Why a file cannot be read. -/
inductive ReadError where
  | missing
  | notADirectory
  | isADirectory
  | nameTooLong
  | nulInName
  | notText
  | other (reason : String)
deriving DecidableEq

/-- What is said of a file that cannot be read. -/
def ReadError.text : ReadError → String
  | missing => "No such file or directory (os error 2)"
  | notADirectory => "Not a directory (os error 20)"
  | isADirectory => "Is a directory (os error 21)"
  | nameTooLong => "File name too long (os error 36)"
  | nulInName => "file name contained an unexpected NUL byte"
  | notText => "stream did not contain valid UTF-8"
  | other reason => reason

/-- How the content of a file is got by its path. -/
abbrev FileReader := String → Except ReadError String

/-- Files by their paths. -/
abbrev Shelf := List (String × String)

/-- Where a path leads. Directories of the shelf are known by their parts; those around it hold
nothing that can be read. -/
inductive Place where
  | around
  | directory (parts : List (List Char))
  | file (content : String)
deriving DecidableEq

/-- The most bytes that a name in a directory has. -/
def maxNameBytes : Nat := 255

/-- The most bytes that a path has. -/
def maxPathBytes : Nat := 4095

namespace Shelf

/-- The content of the file at a path given in parts. -/
def find? (s : Shelf) (parts : List (List Char)) : Option String :=
  (List.find? (fun file => pathParts file.1.toList == parts) s).map (·.2)

/-- Whether some file lies below a path given in parts. -/
def hasBelow (s : Shelf) (parts : List (List Char)) : Bool :=
  s.any fun file =>
    let path := pathParts file.1.toList
    parts.isPrefixOf path && parts.length < path.length

/-- What a path given in parts leads to. -/
def place? (s : Shelf) (parts : List (List Char)) : Option Place :=
  if s.hasBelow parts then some (.directory parts) else (s.find? parts).map .file

/-- Where one more part of a path leads; `..` leads back. -/
def step (s : Shelf) (place : Place) (part : List Char) : Except ReadError Place :=
  match place with
  | .file _ => .error .notADirectory
  | .around =>
    if part = ['.', '.'] then .ok .around
    else if (String.ofList part).utf8ByteSize > maxNameBytes then .error .nameTooLong
    else .error .missing
  | .directory parts =>
    if part = ['.', '.'] then
      .ok (if parts.isEmpty then .around else .directory parts.dropLast)
    else if (String.ofList part).utf8ByteSize > maxNameBytes then .error .nameTooLong
    else
      match s.place? (parts ++ [part]) with
      | some place => .ok place
      | none => .error .missing

/-- Where a path leads, part by part: one with a slash in front starts around the shelf, all others
start in it. -/
def follow (s : Shelf) (path : List Char) : Except ReadError Place :=
  let start := if path.head? = some '/' then Place.around else .directory []
  (pathParts path).foldlM s.step start

/-- Whether the end of a path, a slash or a lone dot, says that it leads to a directory. -/
def namesDirectory (path : List Char) : Bool :=
  path.getLast? = some '/' ∨ path.reverse.take 2 = ['.', '/']

/-- The content of the file at a path. What the path itself does not allow comes first. -/
def read (s : Shelf) (path : String) : Except ReadError String :=
  let cs := path.toList
  if cs.contains '\x00' then .error .nulInName
  else if path.utf8ByteSize > maxPathBytes then .error .nameTooLong
  else
    match s.follow cs with
    | .error e => .error e
    | .ok (.file content) => if namesDirectory cs then .error .notADirectory else .ok content
    | .ok _ => .error .isADirectory

end Shelf

/-- The name of a file without its last extension; a dot in front belongs to the name. -/
def withoutExtension (name : List Char) : List Char :=
  let front := (name.reverse.dropWhile (· != '.')).drop 1
  if front.isEmpty then name else front.reverse

/-- The name of the file that a path leads to, without its extension. -/
def stem? (path : String) : Option String :=
  match (pathParts path.toList).getLast? with
  | none => none
  | some name =>
    if name = ['.', '.'] then none else some (String.ofList (withoutExtension name))

/-! ## Lines of output

What a command says of documents, items and histories: one JSON object a line, its members in the
order of their names. -/

/-- A revision's time as it is written. -/
def RevisionStamp.timeJson (r : RevisionStamp) : Json := .ofString (r.time.rfc3339 .seconds)

/-- What is said of a document. -/
def documentLine (s : Store) (d : Document) : Json :=
  let base := d.base s
  .record [("collection", .ofNat d.collection), ("resource", .ofString d.resource),
    ("revision", .ofNat base.number.val), ("timestamp", base.timeJson),
    ("updatable", .bool d.isUpdatable)]

/-- What is said of an item. -/
def Item.json (i : Item) : Json :=
  .record [("collection", .ofNat i.collection), ("kind", i.kind.json),
    ("node_key", .ofNat i.nodeKey), ("revision", .ofNat i.revision.val)]

/-- What is said of a sealed revision. -/
def RevisionStamp.json (r : RevisionStamp) : Json :=
  .record [("revision", .ofNat r.number.val), ("timestamp", r.timeJson)]

/-- What is said of the history of a resource. -/
def historyLine (r : Resource) : Json :=
  .record [("resource", .ofString r.name),
    ("revisions", .array (r.history.timeline.toList.map RevisionStamp.json))]

/-- The text of several lines. -/
def printLines (lines : List Json) : String :=
  String.ofList (lines.flatMap fun line => line.print ++ ['\n'])

/-! ## Answers -/

/-- Parts of a command: they work on a store that was replayed. -/
abbrev CommandStep (α : Type) := Action (Observed Store) CommandError α

/-- A refusal of the collection ends the command. -/
def orEnd {α : Type} (x : Action (Observed Store) CollectionError α) : CommandStep α :=
  x.mapError .document

/-! ### The history -/

namespace HistorySource

/-- The content of a history file. -/
def content (files : FileReader) (source : HistorySource) : Except CommandError HistoryFile :=
  match files source.path with
  | .error e => .error (.historyFile ("failed to read " ++ source.path ++ ": " ++ e.text))
  | .ok text =>
    match HistoryFile.read? text with
    | some file => .ok file
    | none => .error (.historyFile "invalid history JSON")

/-- The store that a history file describes. -/
def replay (files : FileReader) (source : HistorySource) : Except CommandError Store := do
  let file ← source.content files
  file.replay source.lookup

/-- The store that a history file describes takes the place of the store. -/
def load (files : FileReader) (source : HistorySource) : CommandStep Unit := do
  let store ← ofExcept (source.replay files)
  modify fun o => { o with state := store }

/-- The name of the collection over a history file. -/
def collectionName (source : HistorySource) : String := (stem? source.path).getD "history"

/-- The collection over a history file, which is the first one to be opened. -/
def openCollection (files : FileReader) (settings : CollectionSettings) (source : HistorySource) :
    CommandStep Collection := do
  source.load files
  let c : Collection := ⟨1, source.collectionName, HistoryFile.database, settings, 0⟩
  report .collectionOpened [("collection", c.name), ("id", Text.decimal c.id)]
  return c

end HistorySource

/-! ### The three answers -/

/-- The name of the only resource; a time can be asked for without a name only if there is one
resource. -/
def nameForTime (c : Collection) : CommandStep String := do
  match (← current).names c.database with
  | [name] => return name
  | names => fail (.invalidArgument ("--at needs --resource when the history holds " ++
      Text.decimal names.length ++ " resources"))

/-- The document as of a time. -/
def documentAsOf (c : Collection) (resource : Option String) (time : Instant) (access : Access) :
    CommandStep (Option Document) := do
  let name ← match resource with
    | some name => pure name
    | none => nameForTime c
  orEnd (c.namedAsOf .none name time access)

/-- The document as of a revision, the latest one unless another is named. -/
def documentAtRevision (c : Collection) (resource : Option String) (revision : Option Int)
    (access : Access) : CommandStep Document := do
  let revision ← orEnd (ofExcept (RevisionChoice.read (revision.getD (-1))))
  match resource with
  | some name => orEnd (c.namedRevision .none name revision access)
  | none => orEnd (c.atRevision .none revision access)

/-- A document that is not needed any more is given up. -/
def releaseDocument (d : Document) : CommandStep Unit :=
  modify fun o => { o with state := d.release o.state }

/-- The line that says which document was found, or that there is none. -/
def describeFound : Option Document → CommandStep (List Json)
  | none => return [.null]
  | some d => do
    let line := documentLine (← current) d
    releaseDocument d
    return [line]

/-- The line of a document as of a time or a revision. -/
def resolveLines (c : Collection) (resource : Option String) (asOf : Option Instant)
    (revision : Option Int) (access : Access) : CommandStep (List Json) :=
  match asOf with
  | some time => do describeFound (← documentAsOf c resource time access)
  | none => do describeFound (some (← documentAtRevision c resource revision access))

/-- The items that groups of keys name in a document, and the document behind them. -/
def scanItems (d : Document) (groups : List KeySet) :
    CommandStep (Except StoreError (List Item) × Document) := fun o =>
  let (result, o) := d.items (groups.map fun group => some group.keys) o
  (.ok result, o)

/-- The lines of the items that groups of keys name in a revision. -/
def scanLines (c : Collection) (resource : String) (revision : Int) (groups : List KeySet) :
    CommandStep (List Json) := do
  let revision ← orEnd (ofExcept (RevisionChoice.read revision))
  let d ← orEnd (c.namedRevision .none resource revision .readOnly)
  let (items, d) ← scanItems d groups
  releaseDocument d
  match items with
  | .ok items => return items.map Item.json
  | .error e => fail (.ofStore e)

/-- The lines of the histories of all resources of a store. -/
def historyLines (s : Store) : Except CommandError (List Json) :=
  (s.names HistoryFile.database).mapM fun name =>
    match s.locate HistoryFile.database name with
    | .error e => .error (.ofStore e)
    | .ok place => .ok (historyLine ((s.resource? place).getD default))

/-- The lines that answer a request. -/
def Request.run (files : FileReader) (settings : CollectionSettings) :
    Request → CommandStep (List Json)
  | resolve source resource asOf revision updatable => do
    let c ← source.openCollection files settings
    resolveLines c resource asOf revision (.ofUpdatable updatable)
  | scan source resource revision groups => do
    let c ← source.openCollection files settings
    scanLines c resource revision groups
  | history source => do
    source.load files
    ofExcept (historyLines (← current))

/-! ### The invocation

The configuration is read before anything else, and the history file before the question about it is
looked at. -/

/-- The configuration takes effect. -/
def Configuration.apply (c : Configuration) : CommandStep Unit := do
  modify fun o => { o with journal := { o.journal with threshold := c.logLevel } }
  report .configLoaded
    [("log_level", c.logLevel.name), ("resource_prefix", c.collection.resourcePrefix)]

namespace Invocation

/-- The configuration that an invocation names. -/
def configuration (files : FileReader) (i : Invocation) : Except CommandError Configuration :=
  match i.config with
  | none => .ok {}
  | some path =>
    match files path with
    | .error e => .error (.ofConfiguration (.unreadable path e.text))
    | .ok text => (Configuration.read text).mapError .ofConfiguration

/-- What an invocation does. -/
def action (files : FileReader) (i : Invocation) : CommandStep (List Json) := do
  let configuration ← ofExcept (i.configuration files)
  configuration.apply
  i.request.run files configuration.collection

/-- The lines that answer an invocation, or the error, and the journal. -/
def run (files : FileReader) (i : Invocation) : Except CommandError (List Json) × Journal :=
  let (result, o) := i.action files { state := {} }
  (result, o.journal)

end Invocation

end AsOf
