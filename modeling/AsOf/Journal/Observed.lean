import AsOf.Action
import AsOf.Journal.Record
import AsOf.Json.Basic

/-!
# What is known of a state

Operations count what they do and write records about it. A state is observed together with the counts and
the journal.

## Main definitions

* `Counter`: what is counted
* `Counters`: the counts
* `Counters.count`: one more of a kind
* `Scope`: the name of an operation and the fields that all its records carry
* `Scope.began`, `Scope.completed`, `Scope.failed`, `Scope.abandoned`: the records
* `Observed`: a state, counts and a journal
* `Observed.report`, `Observed.count`, `Observed.record`: the ways of reporting
* `Observed.within`: an action bracketed by the records of a scope
-/

namespace AsOf

/-! ## Counters

How often what was done to the documents of a registry. -/

/-- What is counted. -/
inductive Counter where
  | writeTrxReused
  | writeTrxOpened
  | readTrxOpened
  | reverts
  | snapshotsResolved
  | snapshotsAbsent
  | documentsAdded
  | ingestionFailures
deriving DecidableEq, Repr

namespace Counter

/-- All counters, in the order in which they are reported. -/
def all : List Counter :=
  [writeTrxReused, writeTrxOpened, readTrxOpened, reverts, snapshotsResolved, snapshotsAbsent,
    documentsAdded, ingestionFailures]

/-- The name of a counter. -/
def name : Counter → String
  | writeTrxReused => "write_trx_reused"
  | writeTrxOpened => "write_trx_opened"
  | readTrxOpened => "read_trx_opened"
  | reverts => "reverts"
  | snapshotsResolved => "snapshots_resolved"
  | snapshotsAbsent => "snapshots_absent"
  | documentsAdded => "documents_added"
  | ingestionFailures => "ingestion_failures"

end Counter

/-- The counts of a registry. -/
structure Counters where
  writeTrxReused : Nat := 0
  writeTrxOpened : Nat := 0
  readTrxOpened : Nat := 0
  reverts : Nat := 0
  snapshotsResolved : Nat := 0
  snapshotsAbsent : Nat := 0
  documentsAdded : Nat := 0
  ingestionFailures : Nat := 0
deriving DecidableEq, Inhabited, Repr

namespace Counters

/-- One more of a kind. -/
def count (c : Counters) : Counter → Counters
  | .writeTrxReused => { c with writeTrxReused := c.writeTrxReused + 1 }
  | .writeTrxOpened => { c with writeTrxOpened := c.writeTrxOpened + 1 }
  | .readTrxOpened => { c with readTrxOpened := c.readTrxOpened + 1 }
  | .reverts => { c with reverts := c.reverts + 1 }
  | .snapshotsResolved => { c with snapshotsResolved := c.snapshotsResolved + 1 }
  | .snapshotsAbsent => { c with snapshotsAbsent := c.snapshotsAbsent + 1 }
  | .documentsAdded => { c with documentsAdded := c.documentsAdded + 1 }
  | .ingestionFailures => { c with ingestionFailures := c.ingestionFailures + 1 }

/-- The count of a kind. -/
def get (c : Counters) : Counter → Nat
  | .writeTrxReused => c.writeTrxReused
  | .writeTrxOpened => c.writeTrxOpened
  | .readTrxOpened => c.readTrxOpened
  | .reverts => c.reverts
  | .snapshotsResolved => c.snapshotsResolved
  | .snapshotsAbsent => c.snapshotsAbsent
  | .documentsAdded => c.documentsAdded
  | .ingestionFailures => c.ingestionFailures

/-- The names and counts. -/
def toList (c : Counters) : List (String × Nat) := Counter.all.map fun k => (k.name, c.get k)

/-- The counts as one JSON object. -/
def json (c : Counters) : Json := .record (c.toList.map fun (name, n) => (name, .ofNat n))

theorem get_count (c : Counters) (k l : Counter) :
    (c.count k).get l = c.get l + if l = k then 1 else 0 := by
  cases k <;> cases l <;> rfl

end Counters

/-! ## Scopes

An operation that takes its time is bracketed in the journal: one record when it begins, one when it
ends, and the latter says how. -/

/-- The name of an operation and the fields that all its records carry. -/
structure Scope where
  name : String
  fields : Fields := []

namespace Scope

/-- The text in the place of the elapsed time, which a journal does not keep. -/
def elapsedMask : String := "*"

/-- The operation begins. -/
def began (s : Scope) : Record := ⟨.info, s.name ++ "_BEGIN", s.fields⟩

/-- The operation has come to its end, with further fields. -/
def completed (s : Scope) (extra : Fields) : Record :=
  ⟨.info, s.name ++ "_COMPLETE", s.fields ++ extra ++ [("elapsed_ms", elapsedMask)]⟩

/-- The operation has failed for a reason. -/
def failed (s : Scope) (reason : String) : Record :=
  ⟨.error, s.name ++ "_FAILED", s.fields ++ [("reason", reason)]⟩

/-- The operation was left without a word. -/
def abandoned (s : Scope) : Record :=
  ⟨.warn, s.name ++ "_INCOMPLETE", s.fields ++ [("reason", "scope dropped without completion")]⟩

end Scope

/-! ## Observed states

A state together with what is known about how it came about: counts and a journal. Actions on an
observed state report what they do; their results never depend on counts or journal. -/

/-- A state with counts and a journal. -/
structure Observed (σ : Type) where
  state : σ
  counters : Counters := {}
  journal : Journal := {}
deriving DecidableEq

namespace Observed

variable {σ ε α : Type}

/-- The state. -/
def current : Action (Observed σ) ε σ := fun o => (.ok o.state, o)

/-- A change of the state that takes place as a whole or not at all. -/
def update (f : σ → Except ε (α × σ)) : Action (Observed σ) ε α := fun o =>
  match f o.state with
  | .ok (a, state) => (.ok a, { o with state })
  | .error e => (.error e, o)

/-- A record is written. -/
def record (r : Record) : Action (Observed σ) ε Unit :=
  Action.modify fun o => { o with journal := o.journal.write r }

/-- An event is reported. -/
def report (e : Event) (fields : Fields) : Action (Observed σ) ε Unit := record (e.record fields)

/-- Something is counted. -/
def count (k : Counter) : Action (Observed σ) ε Unit :=
  Action.modify fun o => { o with counters := o.counters.count k }

/-- An action whose beginning is written, and its failure with a reason. The end of a success is
left to the caller, who knows what it yielded. -/
def within (scope : Scope) (reason : ε → String) (x : Action (Observed σ) ε α) :
    Action (Observed σ) ε α := do
  record scope.began
  match ← x.attempt with
  | .ok a => return a
  | .error e =>
    record (scope.failed (reason e))
    Action.fail e

end Observed

end AsOf
