import AsOf.Journal.Observed
import AsOf.Lookup.Snapshot
import AsOf.Store.Database
import AsOf.Store.Resource

/-!
# Documents

A document is a lease on a resource, given out by a collection under a name. The nodes that it shows are
handed out as a stream of items, and documents that are found together as a batch.

## Main definitions

* `Item`: a node as it was reached
* `ItemStream`: groups, position and cursor
* `ItemStream.next`: the next item, or a pause
* `ItemStream.drain`: all items up to the end of the groups
* `Document`: a lease and where it comes from
* `Document.base`, `Document.transaction`: what it shows
* `Document.put`: the state of its transaction is replaced
* `Document.endReader`, `Document.release`: the end of a document
* `Document.items`: the items that groups of keys name
* `Batch`: the items that remain
* `Pull`: what is asked of a batch
-/

namespace AsOf

/-! ## Streams of items

The nodes that groups of keys name, one after the other: a transaction's cursor goes from key to key
and every node that it reaches becomes an item. A group without keys yields one pause; so does the
end of the groups, and for good. -/

/-- A node as it was reached: by which collection, under which key and in which revision. -/
structure Item where
  collection : Nat
  nodeKey : Nat
  revision : RevisionNumber
  kind : NodeKind
deriving DecidableEq

/-- The node under the cursor of a transaction as an item. -/
def Transaction.item (t : Transaction) (collection : Nat) : Except StoreError Item := do
  let node ← t.node
  return ⟨collection, node.key, t.base.number, node.kind⟩

/-- A pass through groups of keys: the groups ahead, and the keys ahead in the group at hand. A
group `none` is a source of groups that reports its end and may go on all the same. -/
structure ItemStream where
  collection : Nat
  groups : List (Option (List Nat))
  keys : List Nat := []
  yielded : Nat := 0
  exhausted : Bool := false
  cursor : Transaction

namespace ItemStream

open Observed

/-- The stream of groups over a transaction. -/
def new (collection : Nat) (groups : List (Option (List Nat))) (cursor : Transaction) :
    ItemStream :=
  { collection, groups, cursor }

/-- The item of a key, where the cursor goes; a key that names no node leaves it in place. -/
def serve (s : ItemStream) (key : Nat) : Except StoreError Item × ItemStream :=
  match s.cursor.moveTo key with
  | .error e => (.error e, s)
  | .ok cursor =>
    match cursor.item s.collection with
    | .error e => (.error e, { s with cursor })
    | .ok item => (.ok item, { s with cursor, yielded := s.yielded + 1 })

/-- The item of the next key in the group at hand, or a pause if there is none. -/
def advance : Action (Observed ItemStream) StoreError (Option Item) := fun o =>
  match o.state.keys with
  | [] => (.ok none, o)
  | key :: rest =>
    match serve { o.state with keys := rest } key with
    | (.ok item, state) => (.ok (some item), { o with state })
    | (.error e, state) => (.error e, { o with state })

/-- The stream at its end. -/
def finished (s : ItemStream) : ItemStream := { s with keys := [], exhausted := true }

/-- The record of the end. -/
def finishRecord (s : ItemStream) : Record :=
  Event.itemStreamExhausted.record
    [("collection", Text.decimal s.collection), ("items", Text.decimal s.yielded)]

/-- The end of the groups, which is reported. -/
def finish : Action (Observed ItemStream) StoreError (Option Item) := fun o =>
  (.ok none, { o with state := o.state.finished, journal := o.journal.write o.state.finishRecord })

/-- The next item, or a pause. A group is taken up when the one before is used up. -/
def next : Action (Observed ItemStream) StoreError (Option Item) := fun o =>
  if o.state.exhausted then (.ok none, o)
  else if o.state.keys.isEmpty then
    match o.state.groups with
    | [] => finish o
    | none :: groups => finish { o with state := { o.state with groups } }
    | some keys :: groups => advance { o with state := { o.state with groups, keys } }
  else advance o

/-! ### The work that is ahead

Every call of `next` on a stream that is not at its end uses up a key, a group or the end itself. So
a stream can be drained. -/

/-- How many keys the groups ahead name. -/
def keysAhead : List (Option (List Nat)) → Nat
  | [] => 0
  | none :: groups => keysAhead groups
  | some keys :: groups => keys.length + keysAhead groups

/-- How many steps can be ahead: one for every key, one for every group, one for the end. -/
def stepsAhead (s : ItemStream) : Nat :=
  s.keys.length + keysAhead s.groups + s.groups.length + if s.exhausted then 0 else 1

theorem serve_ahead (s : ItemStream) (key : Nat) :
    (serve s key).2.keys = s.keys ∧ (serve s key).2.groups = s.groups ∧
      (serve s key).2.exhausted = s.exhausted := by
  unfold serve
  split
  · simp
  · split <;> simp

theorem stepsAhead_advance {o : Observed ItemStream} {key : Nat} {rest : List Nat}
    (h : o.state.keys = key :: rest) :
    (advance o).2.state.stepsAhead < o.state.stepsAhead := by
  have hp := serve_ahead { o.state with keys := rest } key
  have : (advance o).2.state = (serve { o.state with keys := rest } key).2 := by
    unfold advance
    split
    · next h' => simp [h'] at h
    · next h' =>
      rw [h'] at h
      obtain ⟨rfl, rfl⟩ := List.cons.inj h
      split <;> simp_all
  rw [this]
  simp only [stepsAhead, hp, h, List.length_cons]
  omega

theorem stepsAhead_finished {s : ItemStream} (h : s.exhausted = false) :
    s.finished.stepsAhead < s.stepsAhead := by
  have behind : s.finished.stepsAhead = keysAhead s.groups + s.groups.length := by
    simp [stepsAhead, finished]
  have ahead : s.stepsAhead = s.keys.length + keysAhead s.groups + s.groups.length + 1 := by
    simp [stepsAhead, h]
  omega

/-- A stream that is not at its end comes closer to it by every step. -/
theorem stepsAhead_next {o : Observed ItemStream} (h : o.state.exhausted = false) :
    (next o).2.state.stepsAhead < o.state.stepsAhead := by
  unfold next
  rw [if_neg (by simp [h])]
  split
  · next hc =>
    have hc : o.state.keys = [] := List.isEmpty_iff.mp hc
    split
    · exact stepsAhead_finished h
    · next groups hg =>
      refine Nat.lt_trans (stepsAhead_finished (s := { o.state with groups }) h) ?_
      simp [stepsAhead, hg, keysAhead]
    · next keys groups hg =>
      have hs : ItemStream.stepsAhead { o.state with groups, keys } < o.state.stepsAhead := by
        simp [stepsAhead, hg, hc, keysAhead]
      cases keys with
      | nil => exact hs
      | cons key rest => exact Nat.lt_trans (stepsAhead_advance rfl) hs
  · next hc =>
    cases hcur : o.state.keys with
    | nil => simp [hcur] at hc
    | cons key rest => exact stepsAhead_advance hcur

/-! ### Draining -/

/-- All items up to the end of the groups, or the first failure. -/
def drain : Action (Observed ItemStream) StoreError (List Item) := fun o =>
  if h : o.state.exhausted = false then
    match hn : next o with
    | (.error e, o') => (.error e, o')
    | (.ok item, o') =>
      have : o'.state.stepsAhead < o.state.stepsAhead := by
        simpa [hn] using stepsAhead_next h
      match drain o' with
      | (.ok items, o'') => (.ok (item.toList ++ items), o'')
      | (.error e, o'') => (.error e, o'')
  else (.ok [], o)
termination_by o => o.state.stepsAhead

end ItemStream

/-! ## Leases that were given out

A document is a lease on a resource, given out by a collection under a name. What it shows lies in
its own read transaction or in a write transaction that others may share. -/

/-- A lease on a resource: the id of the collection that gave it, the name of the resource, and the
place of the resource in the store. -/
structure Document where
  collection : Nat
  resource : String
  place : Nat
  lease : Lease
deriving DecidableEq, Inhabited

namespace Document

/-- Whether the document may be changed. -/
def isUpdatable (d : Document) : Bool := d.lease.isUpdatable

/-- The write transaction of a document that may be changed. -/
def writerRef? (d : Document) : Option WriterRef :=
  match d.lease with
  | .reader _ => none
  | .writer handle => some ⟨d.place, handle⟩

/-- The revision that the document is based on. -/
def base (s : Store) (d : Document) : RevisionStamp :=
  match s.resource? d.place with
  | some r => d.lease.base r
  | none => default

/-- The transaction that the document shows. -/
def transaction (s : Store) (d : Document) : Transaction :=
  match d.lease with
  | .reader trx => trx
  | .writer handle => ((s.resource? d.place).bind (·.writer? handle)).getD default

/-- The document and the store after a change of its transaction. -/
def put (s : Store) (d : Document) (trx : Transaction) : Document × Store :=
  match d.lease with
  | .reader _ => ({ d with lease := .reader trx }, s)
  | .writer handle =>
    match s.resource? d.place with
    | none => (d, s)
    | some r => (d, s.setResource d.place (r.setWriter handle trx))

/-- The document after its read transaction has been closed, and the store that has counted it. A
write transaction is left to the others who share it. -/
def endReader (s : Store) (d : Document) : Document × Store :=
  match d.lease with
  | .writer _ => (d, s)
  | .reader trx =>
    match s.resource? d.place with
    | none => (d, s)
    | some r =>
      let (trx, r) := r.endReader trx
      ({ d with lease := .reader trx }, s.setResource d.place r)

/-- The store after the document has been given up. -/
def release (s : Store) (d : Document) : Store := (d.endReader s).2

/-- A pass through groups of keys with the transaction of a document: what it yields, the stream
behind it and the document. -/
def streaming {α : Type} (d : Document) (groups : List (Option (List Nat)))
    (x : Action (Observed ItemStream) StoreError α) (o : Observed Store) :
    (Except StoreError α × ItemStream × Document) × Observed Store :=
  let stream := ItemStream.new d.collection groups (d.transaction o.state)
  let (a, o') := x ⟨stream, o.counters, o.journal⟩
  let (d', store) := d.put o.state o'.state.cursor
  ((a, o'.state, d'), ⟨store, o'.counters, o'.journal⟩)

/-- The items that groups of keys name, up to the first key that names no node, and the document
with its cursor on the last item. -/
def items (d : Document) (groups : List (Option (List Nat))) (o : Observed Store) :
    (Except StoreError (List Item) × Document) × Observed Store :=
  let ((a, _, d'), o') := d.streaming groups ItemStream.drain o
  ((a, d'), o')

end Document

/-! ## Batches

Items that are handed out one by one from the front. A batch can be closed, which gives up what has
not been handed out. -/

/-- The items that remain to be handed out. -/
structure Batch (α : Type) where
  items : List α

/-- What is asked of a batch or a stream: its next item, or that it ends. -/
inductive Pull where
  | next
  | close
deriving DecidableEq

namespace Batch

variable {α : Type}

/-- How many items remain. -/
def remaining (b : Batch α) : Nat := b.items.length

/-- The next item, if one remains, and the batch behind it. -/
def next (b : Batch α) : Option α × Batch α :=
  match b.items with
  | [] => (none, b)
  | item :: rest => (some item, ⟨rest⟩)

/-- The batch after it has been closed. -/
def close (_ : Batch α) : Batch α := ⟨[]⟩

/-- What a run of requests yields, with the number of items that remain after each: the next item,
if there was one, or nothing where the batch was closed. -/
def pulls : Batch α → List Pull → List (Option (Option α) × Nat)
  | _, [] => []
  | b, .next :: rest =>
    let (item, b) := b.next
    (some item, b.remaining) :: b.pulls rest
  | b, .close :: rest => (none, b.close.remaining) :: b.close.pulls rest

end Batch

end AsOf
