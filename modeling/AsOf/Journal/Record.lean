import AsOf.Text.Quoted

/-!
# Records

A journal keeps what happened as records. A record has a severity, the name of an event and named texts, and
is written as one line.

## Main definitions

* `Severity`: the four severities in ascending order
* `Severity.read?`: the severity with a name
* `Record`, `Record.line`: a record and its line
* `Journal`: the records that were kept
* `Journal.write`: the journal with one more record, if it is grave enough
* `Event`: the events, each with its name and its severity
* `Event.record`: the record of an event
-/

namespace AsOf

open Text

/-! ## Severities

How grave a journal record is. -/

/-- How grave a record is, in ascending order. -/
inductive Severity where
  | trace
  | info
  | warn
  | error
deriving DecidableEq, Inhabited, Repr

namespace Severity

/-- All severities in ascending order. -/
def all : List Severity := [trace, info, warn, error]

/-- The place of a severity in the order. -/
def rank : Severity → Nat
  | trace => 0
  | info => 1
  | warn => 2
  | error => 3

instance : LE Severity := ⟨fun s t => s.rank ≤ t.rank⟩

theorem le_def {s t : Severity} : s ≤ t ↔ s.rank ≤ t.rank := Iff.rfl

instance (s t : Severity) : Decidable (s ≤ t) := decidable_of_iff _ le_def.symm

/-- The name of a severity. -/
def name : Severity → String
  | trace => "TRACE"
  | info => "INFO"
  | warn => "WARN"
  | error => "ERROR"

/-- The severity with exactly the given name. -/
def ofName? (s : String) : Option Severity := all.find? (·.name == s)

/-- The text with the letters `a` to `z` made capital. -/
def capitals (s : String) : String := s.map Char.toUpper

/-- The severity that a text names, where small letters count as capital ones; else the text in
capital letters. -/
def read? (s : String) : Except String Severity :=
  match ofName? (capitals s) with
  | some severity => .ok severity
  | none => .error (capitals s)

/-- What is said of a text that names no severity. -/
def unknownMessage (capitals : String) : String := "unknown severity: " ++ capitals

theorem ofName?_name (s : Severity) : ofName? s.name = some s := by
  cases s <;> decide

end Severity

/-! ## Records and journals

What happened, as a record with a severity, the name of an event and named texts, and the line that
a record is written as. A journal keeps the records from a threshold of severity on. -/

/-- Named texts; a name may occur more than once. -/
abbrev Fields := List (String × String)

/-- A severity, the name of an event, and named texts. -/
structure Record where
  severity : Severity
  event : String
  fields : Fields
deriving DecidableEq, Inhabited, Repr

namespace Record

/-- The fields in the order of their names; equal names keep their order. -/
def sortFields (fields : Fields) : Fields :=
  fields.mergeSort fun a b => decide (a.1 ≤ b.1)

/-- A name and a text, quoted, with a colon between them. -/
def printField (field : String × String) : List Char :=
  quoted field.1 ++ ':' :: quoted field.2

/-- The line of a record: one JSON object with the event, the severity and the sorted fields. -/
def printLine (r : Record) : List Char :=
  '\x7b' :: printField ("event", r.event) ++ ',' :: printField ("severity", r.severity.name) ++
    (sortFields r.fields).flatMap (fun field => ',' :: printField field) ++ ['\x7d', '\n']

/-- The line of a record, its line feed included. -/
def line (r : Record) : String := String.ofList r.printLine

end Record

/-- The records that reached a threshold of severity, in order. -/
structure Journal where
  threshold : Severity := .info
  records : List Record := []
deriving DecidableEq, Inhabited

namespace Journal

/-- Whether records of a severity are kept. -/
def keeps (j : Journal) (severity : Severity) : Bool := j.threshold ≤ severity

/-- The journal with one more record, if it is grave enough. -/
def write (j : Journal) (r : Record) : Journal :=
  if j.keeps r.severity then { j with records := j.records ++ [r] } else j

/-- The journal with a further run of records. -/
def writeAll (j : Journal) (rs : List Record) : Journal := rs.foldl write j

/-- The lines of all records. -/
def lines (j : Journal) : List String := j.records.map Record.line

@[simp]
theorem threshold_write (j : Journal) (r : Record) : (j.write r).threshold = j.threshold := by
  unfold write
  split <;> rfl

theorem records_write (j : Journal) (r : Record) :
    (j.write r).records = j.records ++ [r].filter (j.keeps ·.severity) := by
  unfold write
  split <;> simp_all

end Journal

/-! ## Events

The events that operations on collections, resources and documents report. -/

/-- What an operation reports. -/
inductive Event where
  | configLoaded
  | collectionOpened
  | collectionClosed
  | collectionDeleted
  | resourceRemoved
  | documentAdded
  | ingestionFailed
  | writeTrxReused
  | writeTrxOpened
  | writeTrxHandleMissing
  | readTrxOpened
  | writeTrxReverted
  | revertSkipped
  | snapshotSteppedBack
  | snapshotResolved
  | snapshotAbsent
  | ambiguousResource
  | itemStreamExhausted
deriving DecidableEq, Repr

namespace Event

/-- The name of an event. -/
def name : Event → String
  | configLoaded => "CONFIG_LOADED"
  | collectionOpened => "COLLECTION_OPENED"
  | collectionClosed => "COLLECTION_CLOSED"
  | collectionDeleted => "COLLECTION_DELETED"
  | resourceRemoved => "RESOURCE_REMOVED"
  | documentAdded => "DOCUMENT_ADDED"
  | ingestionFailed => "DOCUMENT_INGESTION_FAILED"
  | writeTrxReused => "WRITE_TRX_REUSED"
  | writeTrxOpened => "WRITE_TRX_OPENED"
  | writeTrxHandleMissing => "WRITE_TRX_HANDLE_MISSING"
  | readTrxOpened => "READ_TRX_OPENED"
  | writeTrxReverted => "WRITE_TRX_REVERTED"
  | revertSkipped => "REVERT_SKIPPED"
  | snapshotSteppedBack => "SNAPSHOT_STEPPED_BACK"
  | snapshotResolved => "SNAPSHOT_RESOLVED"
  | snapshotAbsent => "SNAPSHOT_ABSENT"
  | ambiguousResource => "AMBIGUOUS_RESOURCE"
  | itemStreamExhausted => "ITEM_STREAM_EXHAUSTED"

/-- The severity of an event. -/
def severity : Event → Severity
  | ingestionFailed | ambiguousResource => .error
  | writeTrxHandleMissing | revertSkipped => .warn
  | readTrxOpened | itemStreamExhausted => .trace
  | _ => .info

/-- The record of an event. -/
def record (e : Event) (fields : Fields) : Record := ⟨e.severity, e.name, fields⟩

end Event

end AsOf
