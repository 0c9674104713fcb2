import AsOf.Lookup.Snapshot
import AsOf.Store.Database

/-!
# What an operation can do to a resource

Every operation on a resource either leaves it as it is or does one of a few things to it: it counts
a read transaction, opens or closes the write transaction, or moves, seals or reverts a write
transaction that is not closed. What all operations preserve is proved once for each of these.

## Main definitions

* `Transaction.Moves`: a transaction moves its cursor or grows its tree
* `Edit.IsLocal`: the edits that do nothing else
* `Resource.opened`, `Resource.ended`, `Resource.committed`, `Resource.rewound`: the resource after
  its write transaction was opened, closed, sealed and taken back
* `Resource.Step`: what an operation can do
* `Resource.WriterStep`, `Resource.LookupStep`: what a lookup can do

## Main results

* `Resource.startWriter_eq_ok_iff`, `Resource.commit_eq_ok_iff`, `Resource.revert_eq_ok_iff`: when
  the operations succeed, and with which resource
* `Resource.edit_moveTo`, `Resource.edit_insert` and so on: an edit does what its transaction does
* `Resource.moved_of_edit`, `Resource.step_of_edit`: what an edit can do to the resource
-/

namespace AsOf

theorem except_bind_eq_ok_iff {ε α β : Type} {x : Except ε α} {f : α → Except ε β} {b : β} :
    x >>= f = .ok b ↔ ∃ a, x = .ok a ∧ f a = .ok b := by
  cases x with
  | error e =>
    constructor
    · intro h
      cases h
    · rintro ⟨a, h, -⟩
      cases h
  | ok a =>
    constructor
    · exact fun h => ⟨a, rfl, h⟩
    · rintro ⟨a', h, h'⟩
      cases h
      exact h'

theorem except_mapError_eq_ok_iff {ε ε' α : Type} {x : Except ε α} {f : ε → ε'} {a : α} :
    x.mapError f = .ok a ↔ x = .ok a := by
  cases x with
  | error e => exact ⟨nofun, nofun⟩
  | ok b =>
    constructor
    · exact fun h => congrArg Except.ok (Except.ok.inj h)
    · exact fun h => congrArg Except.ok (Except.ok.inj h)

theorem except_mapError_eq_error_iff {ε ε' α : Type} {x : Except ε α} {f : ε → ε'} {e' : ε'} :
    x.mapError f = .error e' ↔ ∃ e, x = .error e ∧ e' = f e := by
  cases x with
  | error e =>
    constructor
    · exact fun h => ⟨e, rfl, (Except.error.inj h).symm⟩
    · rintro ⟨e, h, rfl⟩
      cases h
      rfl
  | ok b => exact ⟨nofun, fun ⟨_, h, _⟩ => nomatch h⟩

theorem eq_ok_of_toOption {ε α : Type} {x : Except ε α} {a : α} (h : x.toOption = some a) :
    x = .ok a := by
  cases x with
  | error e => cases h
  | ok b => exact congrArg _ (Option.some.inj h)

theorem exists_of_isOk {ε α : Type} {x : Except ε α} (h : x.isOk = true) : ∃ a, x = .ok a := by
  cases x with
  | error e => cases h
  | ok a => exact ⟨a, rfl⟩

theorem mapM_eq_ok {ε α β : Type} {f : α → Except ε β} {g : α → β} {xs : List α}
    (h : ∀ x ∈ xs, f x = .ok (g x)) : xs.mapM f = .ok (xs.map g) := by
  induction xs with
  | nil => rfl
  | cons x xs ih =>
    rw [List.mapM_cons, h x List.mem_cons_self, ih fun y hy => h y (List.mem_cons_of_mem x hy)]
    rfl

theorem exists_mapM_eq_error {ε α β : Type} {f : α → Except ε β} {xs : List α} {x : α} {e : ε}
    (hx : x ∈ xs) (he : f x = .error e) : ∃ e', xs.mapM f = .error e' := by
  induction xs with
  | nil => cases hx
  | cons y xs ih =>
    rw [List.mapM_cons]
    cases hy : f y with
    | error e' => exact ⟨e', rfl⟩
    | ok b =>
      rcases List.mem_cons.mp hx with rfl | hx
      · cases he.symm.trans hy
      · obtain ⟨e', hrest⟩ := ih hx
        exact ⟨e', by rw [hrest]; rfl⟩

theorem setIfInBounds_self {α : Type} {xs : Array α} {i : Nat} {x : α} (h : xs[i]? = some x) :
    xs.setIfInBounds i x = xs := by
  obtain ⟨hlt, rfl⟩ := Array.getElem?_eq_some_iff.mp h
  simp only [Array.setIfInBounds, hlt, dif_pos, Array.set_getElem_self]

/-- Putting an element in its place changes nothing exactly if it was there before. -/
theorem setIfInBounds_eq_self_iff {α : Type} {xs : Array α} {i : Nat} {x y : α}
    (h : xs[i]? = some x) : xs.setIfInBounds i y = xs ↔ y = x := by
  constructor
  · intro hsame
    have hy := Array.getElem?_setIfInBounds_self_of_lt (a := y) (Array.getElem?_eq_some_iff.mp h).1
    rw [hsame] at hy
    exact Option.some.inj (hy.symm.trans h)
  · rintro rfl
    exact setIfInBounds_self h

namespace Transaction

/-- A transaction moves its cursor to a node or to the parent of its node, or inserts a node and
moves there. -/
inductive Moves (t : Transaction) : Transaction → Prop
  | moveTo {key : Nat} (h : t.tree.contains key = true) : Moves t { t with cursor := key }
  | ascend {node : Node} {parent : Nat} (hn : t.tree.get? t.cursor = some node)
      (hp : node.parent = some parent) : Moves t { t with cursor := parent }
  | insert {kind : NodeKind} {key : Nat} {tree : Tree}
      (h : t.tree.append t.cursor kind = some (key, tree)) :
      Moves t { t with tree, cursor := key }

variable {t t' : Transaction}

theorem Moves.base_eq (h : t.Moves t') : t'.base = t.base := by
  cases h <;> rfl

theorem Moves.closed_eq (h : t.Moves t') : t'.closed = t.closed := by
  cases h <;> rfl

theorem ensureOpen_eq_ok_iff : t.ensureOpen = .ok () ↔ t.closed = false := by
  unfold ensureOpen
  cases t.closed <;> simp

theorem moveTo_eq_ok_iff {key : Nat} :
    t.moveTo key = .ok t' ↔
      t.closed = false ∧ t.tree.contains key = true ∧ t' = { t with cursor := key } := by
  unfold moveTo
  rw [except_bind_eq_ok_iff]
  constructor
  · rintro ⟨⟨⟩, hopen, h⟩
    split at h
    · next hkey =>
      cases h
      exact ⟨ensureOpen_eq_ok_iff.mp hopen, hkey, rfl⟩
    · cases h
  · rintro ⟨hopen, hkey, rfl⟩
    exact ⟨(), ensureOpen_eq_ok_iff.mpr hopen, if_pos hkey⟩

theorem moveTo_of_contains (hopen : t.closed = false) {key : Nat} (hkey : t.tree.contains key = true) :
    t.moveTo key = .ok { t with cursor := key } :=
  moveTo_eq_ok_iff.mpr ⟨hopen, hkey, rfl⟩

theorem moveTo_of_not_contains (hopen : t.closed = false) {key : Nat}
    (hkey : t.tree.contains key = false) : t.moveTo key = .error (.nodeNotFound key t.base.number) := by
  simp only [moveTo, ensureOpen, hopen, hkey]
  rfl

theorem node_eq_ok_iff {node : Node} :
    t.node = .ok node ↔ t.closed = false ∧ t.tree.get? t.cursor = some node := by
  unfold Transaction.node
  rw [except_bind_eq_ok_iff]
  constructor
  · rintro ⟨⟨⟩, hopen, h⟩
    split at h
    · next hnode =>
      cases h
      exact ⟨ensureOpen_eq_ok_iff.mp hopen, hnode⟩
    · cases h
  · rintro ⟨hopen, hnode⟩
    refine ⟨(), ensureOpen_eq_ok_iff.mpr hopen, ?_⟩
    rw [hnode]

theorem ascend_eq_ok_iff :
    t.ascend = .ok t' ↔ t.closed = false ∧ ∃ node parent, t.tree.get? t.cursor = some node ∧
      node.parent = some parent ∧ t' = { t with cursor := parent } := by
  unfold ascend
  rw [except_bind_eq_ok_iff]
  constructor
  · rintro ⟨node, hread, h⟩
    obtain ⟨hopen, hnode⟩ := node_eq_ok_iff.mp hread
    split at h
    · next hparent =>
      cases h
      exact ⟨hopen, node, _, hnode, hparent, rfl⟩
    · cases h
  · rintro ⟨hopen, node, parent, hnode, hparent, rfl⟩
    refine ⟨node, node_eq_ok_iff.mpr ⟨hopen, hnode⟩, ?_⟩
    rw [hparent]

theorem insert_eq_ok_iff {kind : NodeKind} {key : Nat} :
    t.insert kind = .ok (key, t') ↔ t.closed = false ∧ ∃ tree,
      t.tree.append t.cursor kind = some (key, tree) ∧ t' = { t with tree, cursor := key } := by
  unfold Transaction.insert
  rw [except_bind_eq_ok_iff]
  constructor
  · rintro ⟨⟨⟩, hopen, h⟩
    split at h
    · next happend =>
      cases h
      exact ⟨ensureOpen_eq_ok_iff.mp hopen, _, happend, rfl⟩
    · cases h
  · rintro ⟨hopen, tree, happend, rfl⟩
    refine ⟨(), ensureOpen_eq_ok_iff.mpr hopen, ?_⟩
    rw [happend]

theorem moves_of_moveTo {key : Nat} (h : t.moveTo key = .ok t') : t.Moves t' := by
  obtain ⟨-, hkey, rfl⟩ := moveTo_eq_ok_iff.mp h
  exact .moveTo hkey

theorem moves_of_ascend (h : t.ascend = .ok t') : t.Moves t' := by
  obtain ⟨-, node, parent, hnode, hparent, rfl⟩ := ascend_eq_ok_iff.mp h
  exact .ascend hnode hparent

theorem moves_of_insert {kind : NodeKind} {key : Nat} (h : t.insert kind = .ok (key, t')) :
    t.Moves t' := by
  obtain ⟨-, tree, happend, rfl⟩ := insert_eq_ok_iff.mp h
  exact .insert happend

end Transaction

/-- The edit reads, moves the cursor or inserts; it neither seals a revision nor goes back to one. -/
def Edit.IsLocal : Edit → Prop
  | .commit | .revert _ => False
  | _ => True

namespace Resource

/-! ## The resources that operations leave -/

/-- The resource after a write transaction with a tree was opened. -/
def opened (r : Resource) (tree : Tree) : Resource :=
  { r with
    writers := r.writers.push { base := r.history.latest, tree }
    running := some r.writers.size
    tally := { r.tally with writeOpened := r.tally.writeOpened + 1 } }

/-- The resource after its running write transaction was closed. -/
def ended (r : Resource) (handle : Nat) : Resource :=
  { r with
    writers := r.writers.modify handle Transaction.close
    running := none
    tally := { r.tally with writeClosed := r.tally.writeClosed + 1 } }

/-- The resource after the tree of a write transaction was sealed. -/
def committed (r : Resource) (handle : Nat) (t : Transaction) (now : Instant) : Resource :=
  { r with
    history := r.history.append t.tree now
    writers := r.writers.setIfInBounds handle (t.rebase (r.history.nextStamp now))
    tally := { r.tally with commits := r.tally.commits + 1 } }

/-- The resource after a write transaction went back `times` times, in the end to a revision and its
tree. -/
def rewound (r : Resource) (handle : Nat) (t : Transaction) (times : Nat) (info : RevisionStamp)
    (tree : Tree) : Resource :=
  { r with
    writers := r.writers.setIfInBounds handle (t.revert info tree)
    tally := { r.tally with reverts := r.tally.reverts + times } }

/-- The resource after it counted a read transaction that was opened. -/
def countedOpen (r : Resource) : Resource :=
  { r with tally := { r.tally with readOpened := r.tally.readOpened + 1 } }

/-- The resource after it counted a read transaction that was closed. -/
def countedClose (r : Resource) : Resource :=
  { r with tally := { r.tally with readClosed := r.tally.readClosed + 1 } }

/-- What an operation can do to a resource. -/
inductive Step (r : Resource) : Resource → Prop
  | stay : Step r r
  | countOpen : Step r r.countedOpen
  | countClose : Step r r.countedClose
  | opened {s : RevisionStamp} {tree : Tree} (idle : r.running = none)
      (h : r.history.revision? r.mostRecent = some (s, tree)) : Step r (r.opened tree)
  | ended {handle : Nat} (h : r.running = some handle) : Step r (r.ended handle)
  | moved {handle : Nat} {t t' : Transaction} (live : r.liveWriter handle = .ok t)
      (h : t.Moves t') : Step r (r.setWriter handle t')
  | committed {handle : Nat} {t : Transaction} (live : r.liveWriter handle = .ok t)
      (now : Instant) : Step r (r.committed handle t now)
  | rewound {handle : Nat} {t : Transaction} {target : RevisionNumber} {info : RevisionStamp}
      {tree : Tree} (live : r.liveWriter handle = .ok t) (earlier : target < r.mostRecent)
      (h : r.history.revision? target = some (info, tree)) :
      Step r (r.rewound handle t 1 info tree)

/-- What a lookup does to get a document that may be changed: it opens the write transaction or takes it
back. -/
inductive WriterStep (r : Resource) : Resource → Prop
  | opened {s : RevisionStamp} {tree : Tree} (idle : r.running = none)
      (hs : r.history.revision? r.mostRecent = some (s, tree)) : WriterStep r (r.opened tree)
  | rewound {handle : Nat} {t : Transaction} {target : RevisionNumber} {info : RevisionStamp}
      {tree : Tree} (live : r.liveWriter handle = .ok t) (earlier : target < r.mostRecent)
      (hs : r.history.revision? target = some (info, tree)) :
      WriterStep r (r.rewound handle t 1 info tree)

/-- What a lookup can do to a resource. -/
inductive LookupStep (access : Access) (r : Resource) : Resource → Prop
  | countOpen : LookupStep access r r.countedOpen
  | countClose : LookupStep access r r.countedClose
  | writer {r' : Resource} (h : access = .updatable) (hstep : r.WriterStep r') :
      LookupStep access r r'

variable {r r' : Resource} {handle : Nat}

theorem WriterStep.step (h : r.WriterStep r') : r.Step r' := by
  cases h with
  | opened idle hs => exact .opened idle hs
  | rewound live earlier hs => exact .rewound live earlier hs

theorem Step.name_eq (h : r.Step r') : r'.name = r.name := by
  cases h <;> rfl

theorem Step.lookup_eq (h : r.Step r') : r'.lookup = r.lookup := by
  cases h <;> rfl

theorem LookupStep.step {access : Access} (h : r.LookupStep access r') : r.Step r' := by
  cases h with
  | countOpen => exact .countOpen
  | countClose => exact .countClose
  | writer _ hstep => exact hstep.step

theorem LookupStep.history_eq {access : Access} (h : r.LookupStep access r') :
    r'.history = r.history := by
  cases h with
  | countOpen | countClose => rfl
  | writer _ hstep => cases hstep <;> rfl

/-- Only a lookup for changing opens a write transaction. -/
theorem LookupStep.access_of_opened {access : Access} (h : r.LookupStep access r')
    (hidle : r.running = none) (hbusy : r'.running ≠ none) : access = .updatable := by
  cases h with
  | countOpen | countClose => exact absurd hidle hbusy
  | writer h _ => exact h

/-! ## When operations succeed -/

theorem liveWriter_eq_ok_iff {t : Transaction} :
    r.liveWriter handle = .ok t ↔ r.writer? handle = some t ∧ t.closed = false := by
  unfold liveWriter
  cases r.writer? handle with
  | none => simp
  | some u => cases hu : u.closed <;> grind

/-- A write transaction that is refused is closed, or there is none. -/
theorem eq_trxClosed_of_liveWriter {e : StoreError} (h : r.liveWriter handle = .error e) :
    e = .trxClosed := by
  unfold liveWriter at h
  split at h
  · exact (Except.error.inj h).symm
  · split at h
    · exact (Except.error.inj h).symm
    · cases h

theorem startWriter_eq_ok_iff :
    r.startWriter = .ok (handle, r') ↔ r.running = none ∧ handle = r.writers.size ∧
      ∃ s tree, r.history.revision? r.mostRecent = some (s, tree) ∧ r' = r.opened tree := by
  unfold startWriter
  cases hrun : r.running with
  | some running => simp
  | none =>
    cases hrev : r.history.revision? r.mostRecent with
    | none => simp
    | some found =>
      obtain ⟨s, tree⟩ := found
      simp only [Option.isSome_none, Bool.false_eq_true, if_false, Except.ok.injEq, Prod.mk.injEq,
        Option.some.injEq, true_and]
      constructor
      · rintro ⟨rfl, rfl⟩
        exact ⟨rfl, s, tree, ⟨rfl, rfl⟩, rfl⟩
      · rintro ⟨rfl, s', tree', ⟨rfl, rfl⟩, rfl⟩
        exact ⟨rfl, rfl⟩

theorem startReader_eq_ok_iff {number : RevisionNumber} {trx : Transaction} :
    r.startReader number = .ok (trx, r') ↔
      ∃ s tree, r.history.revision? number = some (s, tree) ∧ trx = { base := s, tree } ∧
        r' = r.countedOpen := by
  unfold startReader
  cases r.history.revision? number with
  | none => simp
  | some found =>
    obtain ⟨s, tree⟩ := found
    constructor
    · intro h
      cases h
      exact ⟨s, tree, rfl, rfl, rfl⟩
    · rintro ⟨s', tree', h, rfl, rfl⟩
      cases h
      rfl

theorem commit_eq_ok_iff {now : Instant} {number : RevisionNumber} :
    r.commit handle now = .ok (number, r') ↔ ∃ t, r.liveWriter handle = .ok t ∧
      number = (r.history.nextStamp now).number ∧ r' = r.committed handle t now := by
  unfold commit
  rw [except_bind_eq_ok_iff]
  constructor
  · rintro ⟨t, live, h⟩
    cases h
    exact ⟨t, live, rfl, rfl⟩
  · rintro ⟨t, live, rfl, rfl⟩
    exact ⟨t, live, rfl⟩

theorem revert_eq_ok_iff {target : RevisionNumber} :
    r.revert handle target = .ok r' ↔ ∃ t info tree, r.liveWriter handle = .ok t ∧
      target < r.mostRecent ∧ r.history.revision? target = some (info, tree) ∧
      r' = r.rewound handle t 1 info tree := by
  unfold revert
  rw [except_bind_eq_ok_iff]
  constructor
  · rintro ⟨t, live, h⟩
    split at h
    · cases h
    · next hlt =>
      split at h
      · cases h
      · next info tree hrev =>
        cases h
        exact ⟨t, info, tree, live, RevisionNumber.not_le.mp hlt, hrev, rfl⟩
  · rintro ⟨t, info, tree, live, hlt, hrev, rfl⟩
    refine ⟨t, live, ?_⟩
    rw [if_neg (RevisionNumber.not_le.mpr hlt), hrev]
    rfl

/-! ## Operations are steps -/

theorem writerStep_of_startWriter (h : r.startWriter = .ok (handle, r')) : r.WriterStep r' := by
  obtain ⟨idle, -, s, tree, hrev, rfl⟩ := startWriter_eq_ok_iff.mp h
  exact .opened idle hrev

theorem step_of_startWriter (h : r.startWriter = .ok (handle, r')) : r.Step r' :=
  (writerStep_of_startWriter h).step

theorem history_of_startWriter (h : r.startWriter = .ok (handle, r')) : r'.history = r.history := by
  obtain ⟨-, -, s, tree, -, rfl⟩ := startWriter_eq_ok_iff.mp h
  rfl

theorem step_of_startReader {number : RevisionNumber} {trx : Transaction}
    (h : r.startReader number = .ok (trx, r')) : r.Step r' := by
  obtain ⟨-, -, -, -, rfl⟩ := startReader_eq_ok_iff.mp h
  exact .countOpen

theorem step_endWriter (r : Resource) : r.Step r.endWriter.2 := by
  unfold endWriter
  split
  · exact .stay
  · exact .ended ‹_›

theorem running_endWriter (r : Resource) : r.endWriter.2.running = none := by
  unfold endWriter
  split
  · assumption
  · rfl

theorem step_endReader (r : Resource) (trx : Transaction) : r.Step (r.endReader trx).2 := by
  unfold endReader
  split
  · exact .stay
  · exact .countClose

theorem writerStep_of_revert {target : RevisionNumber} (h : r.revert handle target = .ok r') :
    r.WriterStep r' := by
  obtain ⟨t, info, tree, live, hlt, hrev, rfl⟩ := revert_eq_ok_iff.mp h
  exact .rewound live hlt hrev

theorem step_of_revert {target : RevisionNumber} (h : r.revert handle target = .ok r') :
    r.Step r' :=
  (writerStep_of_revert h).step

theorem history_of_revert {target : RevisionNumber} (h : r.revert handle target = .ok r') :
    r'.history = r.history := by
  obtain ⟨t, info, tree, -, -, -, rfl⟩ := revert_eq_ok_iff.mp h
  rfl

/-- A local edit moves the transaction or changes nothing. -/
theorem moved_of_edit {now : Instant} {e : Edit} {answer : EditAnswer} (he : e.IsLocal)
    (h : r.edit handle now e = .ok (answer, r')) :
    r' = r ∨ ∃ t t', r.liveWriter handle = .ok t ∧ t.Moves t' ∧ r' = r.setWriter handle t' := by
  cases e with
  | toRoot | moveTo =>
    obtain ⟨t, live, h⟩ := except_bind_eq_ok_iff.mp h
    obtain ⟨t', ht, h⟩ := except_bind_eq_ok_iff.mp h
    cases h
    exact .inr ⟨t, t', live, Transaction.moves_of_moveTo ht, rfl⟩
  | toParent =>
    obtain ⟨t, live, h⟩ := except_bind_eq_ok_iff.mp h
    obtain ⟨t', ht, h⟩ := except_bind_eq_ok_iff.mp h
    cases h
    exact .inr ⟨t, t', live, Transaction.moves_of_ascend ht, rfl⟩
  | insert kind =>
    obtain ⟨t, live, h⟩ := except_bind_eq_ok_iff.mp h
    obtain ⟨⟨key, t'⟩, ht, h⟩ := except_bind_eq_ok_iff.mp h
    cases h
    exact .inr ⟨t, t', live, Transaction.moves_of_insert ht, rfl⟩
  | readNode =>
    obtain ⟨t, -, h⟩ := except_bind_eq_ok_iff.mp h
    obtain ⟨node, -, h⟩ := except_bind_eq_ok_iff.mp h
    cases h
    exact .inl rfl
  | readClosed | readResource | setClock =>
    cases h
    exact .inl rfl
  | giveUp => cases h
  | commit | revert => cases he

section Edits

variable {t : Transaction} (live : r.liveWriter handle = .ok t) (now : Instant)
include live

theorem edit_moveTo (key : Nat) : r.edit handle now (.moveTo key) =
    (t.moveTo key).map fun t' => (.done, r.setWriter handle t') := by
  simp only [edit, live, bind, Except.bind]
  cases t.moveTo key <;> rfl

theorem edit_toRoot : r.edit handle now .toRoot =
    (t.moveTo rootKey).map fun t' => (.done, r.setWriter handle t') :=
  edit_moveTo live now rootKey

theorem edit_toParent : r.edit handle now .toParent =
    t.ascend.map fun t' => (.done, r.setWriter handle t') := by
  simp only [edit, live, bind, Except.bind]
  cases t.ascend <;> rfl

theorem edit_insert (kind : NodeKind) : r.edit handle now (.insert kind) =
    (t.insert kind).map fun inserted => (.key inserted.1, r.setWriter handle inserted.2) := by
  simp only [edit, live, bind, Except.bind]
  cases t.insert kind <;> rfl

theorem edit_readNode : r.edit handle now .readNode = t.node.map fun node => (.node node, r) := by
  simp only [edit, live, bind, Except.bind]
  cases t.node <;> rfl

end Edits

/-- Every move of a transaction that is not closed is made by a local edit, whatever the clock
shows. -/
theorem exists_edit_of_moves {t t' : Transaction} (live : r.liveWriter handle = .ok t)
    (h : t.Moves t') : ∃ e : Edit, e.IsLocal ∧
      ∀ now, ∃ answer, r.edit handle now e = .ok (answer, r.setWriter handle t') := by
  have hopen := (liveWriter_eq_ok_iff.mp live).2
  cases h with
  | @moveTo key hkey =>
    refine ⟨.moveTo key, trivial, fun now => ⟨.done, ?_⟩⟩
    rw [edit_moveTo live, Transaction.moveTo_of_contains hopen hkey]
    rfl
  | @ascend node parent hnode hparent =>
    refine ⟨.toParent, trivial, fun now => ⟨.done, ?_⟩⟩
    rw [edit_toParent live, Transaction.ascend_eq_ok_iff.mpr ⟨hopen, node, parent, hnode, hparent, rfl⟩]
    rfl
  | @insert kind key tree happend =>
    refine ⟨.insert kind, trivial, fun now => ⟨.key key, ?_⟩⟩
    rw [edit_insert live, Transaction.insert_eq_ok_iff.mpr ⟨hopen, tree, happend, rfl⟩]
    rfl

theorem step_of_edit {now : Instant} {e : Edit} {answer : EditAnswer}
    (h : r.edit handle now e = .ok (answer, r')) : r.Step r' := by
  by_cases he : e.IsLocal
  · rcases moved_of_edit he h with rfl | ⟨t, t', live, hmoves, rfl⟩
    · exact .stay
    · exact .moved live hmoves
  · cases e with
    | commit =>
      obtain ⟨⟨number, u⟩, hu, h⟩ := except_bind_eq_ok_iff.mp h
      obtain ⟨t, live, -, rfl⟩ := commit_eq_ok_iff.mp hu
      cases h
      exact .committed live now
    | revert target =>
      obtain ⟨u, hu, h⟩ := except_bind_eq_ok_iff.mp h
      cases h
      exact step_of_revert hu
    | _ => exact absurd trivial he

end Resource

end AsOf
