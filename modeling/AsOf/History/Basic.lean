import AsOf.Text.Basic
import AsOf.Time.Instant
import AsOf.Tree.Basic

/-!
# Histories

The revisions of a resource are numbered in the order in which they are sealed, at times that never decrease.
A history holds the tree of each of them.

## Main definitions

* `RevisionNumber`: a number from one on
* `RevisionChoice`: the latest revision, or the one with a given number
* `RevisionChoice.ofInt?`: the choice that an integer stands for
* `RevisionStamp`: number and time of a revision
* `Timeline.push`: a timeline with one more revision
* `Timeline.partitionPoint`: how many revisions were sealed at a time or before it
* `Timeline.floor`, `Timeline.nearest`: the last of those, and the one closest to the time
* `History`: the timeline, the trees and the latest revision
* `History.start`, `History.append`: the two ways in which histories arise
* `History.revision?`: a revision with its tree
-/

namespace AsOf

/-! ## Revision numbers

The revisions of a resource are numbered from one in the order in which they are sealed. -/

/-- The number of a revision, counted from one. -/
structure RevisionNumber where
  val : Nat
  pos : 0 < val
deriving DecidableEq

namespace RevisionNumber

/-- The number of the first revision. -/
def first : RevisionNumber := ⟨1, Nat.one_pos⟩

instance : Inhabited RevisionNumber := ⟨first⟩

/-- The revision number with a value; zero numbers no revision. -/
def ofNat? (n : Nat) : Option RevisionNumber :=
  if h : 0 < n then some ⟨n, h⟩ else none

/-- The number of the next revision. -/
def next (n : RevisionNumber) : RevisionNumber := ⟨n.val + 1, Nat.succ_pos _⟩

/-- The number of the revision before, if there is one. -/
def previous (n : RevisionNumber) : Option RevisionNumber := ofNat? (n.val - 1)

/-- Whether this is the number of the first revision. -/
def isFirst (n : RevisionNumber) : Bool := n.val == 1

/-- The position of the revision in a list of all revisions. -/
def index (n : RevisionNumber) : Nat := n.val - 1

instance : LE RevisionNumber := ⟨fun m n => m.val ≤ n.val⟩

instance : LT RevisionNumber := ⟨fun m n => m.val < n.val⟩

theorem le_def {m n : RevisionNumber} : m ≤ n ↔ m.val ≤ n.val := Iff.rfl

theorem lt_def {m n : RevisionNumber} : m < n ↔ m.val < n.val := Iff.rfl

instance (m n : RevisionNumber) : Decidable (m ≤ n) := decidable_of_iff _ le_def.symm

instance (m n : RevisionNumber) : Decidable (m < n) := decidable_of_iff _ lt_def.symm

/-- The numeral of the number. -/
def text (n : RevisionNumber) : String := Text.decimal n.val

/-- The bound below which a number can be read. -/
def readBound : Nat := 1 <<< 32

@[ext]
theorem ext {m n : RevisionNumber} (h : m.val = n.val) : m = n := by
  cases m
  cases n
  simp_all

@[simp]
theorem val_next (n : RevisionNumber) : n.next.val = n.val + 1 := rfl

@[simp]
theorem val_first : first.val = 1 := rfl

theorem ofNat?_eq_some {k : Nat} {n : RevisionNumber} : ofNat? k = some n ↔ n.val = k := by
  unfold ofNat?
  split
  · simp [RevisionNumber.ext_iff, eq_comm]
  · have := n.pos
    simp
    omega

@[simp]
theorem previous_first : first.previous = none := rfl

@[simp]
theorem previous_next (n : RevisionNumber) : n.next.previous = some n := by
  simp [previous, ofNat?_eq_some]

theorem previous_eq_some {m n : RevisionNumber} : n.previous = some m ↔ n = m.next := by
  rw [previous, ofNat?_eq_some, RevisionNumber.ext_iff, val_next]
  have := n.pos
  have := m.pos
  omega

theorem le_refl (n : RevisionNumber) : n ≤ n := Nat.le_refl _

theorem not_le {m n : RevisionNumber} : ¬m ≤ n ↔ n < m := Nat.not_le

theorem not_lt {m n : RevisionNumber} : ¬m < n ↔ n ≤ m := Nat.not_lt

theorem lt_of_le_of_ne {m n : RevisionNumber} (h : m ≤ n) (h' : m ≠ n) : m < n :=
  Nat.lt_of_le_of_ne h fun e => h' (RevisionNumber.ext e)

theorem ne_of_lt {m n : RevisionNumber} (h : m < n) : m ≠ n := fun e =>
  Nat.ne_of_lt h (congrArg val e)

theorem next_ne (n : RevisionNumber) : n.next ≠ n := fun h =>
  Nat.succ_ne_self n.val (congrArg val h)

theorem le_antisymm {m n : RevisionNumber} (h : m ≤ n) (h' : n ≤ m) : m = n :=
  RevisionNumber.ext (Nat.le_antisymm h h')

theorem first_le (n : RevisionNumber) : first ≤ n := n.pos

/-! ### Numbers and positions -/

@[simp]
theorem index_first : first.index = 0 := rfl

@[simp]
theorem index_next (n : RevisionNumber) : n.next.index = n.val := rfl

theorem index_le_index {m n : RevisionNumber} : m.index ≤ n.index ↔ m ≤ n := by
  have := m.pos
  have := n.pos
  rw [le_def, index, index]
  omega

theorem index_injective {m n : RevisionNumber} (h : m.index = n.index) : m = n := by
  have := m.pos
  have := n.pos
  apply RevisionNumber.ext
  simp only [index] at h
  omega

end RevisionNumber

/-- Which revision is meant: the latest one, or the one with a number. -/
inductive RevisionChoice where
  | latest
  | exact (number : RevisionNumber)
deriving DecidableEq

namespace RevisionChoice

/-- The number that is meant, given the number of the most recent revision. -/
def resolve (mostRecent : RevisionNumber) : RevisionChoice → RevisionNumber
  | latest => mostRecent
  | exact number => number

/-- The choice that an integer stands for: -1 is the latest revision, a revision number that can be
read is itself. -/
def ofInt? (raw : Int) : Option RevisionChoice :=
  if raw = -1 then some latest
  else if 0 ≤ raw ∧ raw < RevisionNumber.readBound then
    (RevisionNumber.ofNat? raw.toNat).map exact
  else none

/-- The word `latest`, or the number. -/
def text : RevisionChoice → String
  | latest => "latest"
  | exact number => number.text

end RevisionChoice

/-! ## Timelines

The numbers and times of the sealed revisions of a resource, in the order of their numbers. Times
never decrease along a timeline: a revision with an earlier time than the last one is refused. So
the revisions that do not lie behind a time are the first few, and a binary search finds how many
they are. -/

/-- The number of a revision and the time at which it was sealed. -/
structure RevisionStamp where
  number : RevisionNumber
  time : Instant
deriving DecidableEq, Inhabited

/-- The sealed revisions in the order of their numbers. -/
structure Timeline where
  revisions : Array RevisionStamp := #[]
deriving DecidableEq, Inhabited

namespace Timeline

/-- How many revisions there are. -/
def size (t : Timeline) : Nat := t.revisions.size

/-- Whether there is no revision. -/
def isEmpty (t : Timeline) : Bool := t.revisions.isEmpty

/-- The revisions as a list. -/
def toList (t : Timeline) : List RevisionStamp := t.revisions.toList

/-- The last revision. -/
def latest? (t : Timeline) : Option RevisionStamp := t.revisions.back?

/-- The revision with a number. -/
def get? (t : Timeline) (number : RevisionNumber) : Option RevisionStamp :=
  t.revisions[number.index]?

/-! ### Growing -/

/-- The number of one more revision at a time, and the timeline with it; a time before that of the
last revision is refused. -/
def push (t : Timeline) (time : Instant) : Option (RevisionNumber × Timeline) :=
  match t.latest? with
  | none => some (.first, ⟨t.revisions.push ⟨.first, time⟩⟩)
  | some latest =>
    if time < latest.time then none
    else
      let number := latest.number.next
      some (number, ⟨t.revisions.push ⟨number, time⟩⟩)

/-- One more revision stands at the end. -/
theorem toList_push {t u : Timeline} {time : Instant} {number : RevisionNumber}
    (h : t.push time = some (number, u)) : u.toList = t.toList ++ [⟨number, time⟩] := by
  unfold push at h
  split at h
  · simp only [Option.some.injEq, Prod.mk.injEq] at h
    obtain ⟨rfl, rfl⟩ := h
    simp [toList]
  · split at h
    · simp at h
    · simp only [Option.some.injEq, Prod.mk.injEq] at h
      obtain ⟨rfl, rfl⟩ := h
      simp [toList]

/-- A time is refused exactly if it lies before that of the last revision. -/
theorem push_eq_none {t : Timeline} {time : Instant} :
    t.push time = none ↔ ∃ latest, t.latest? = some latest ∧ time < latest.time := by
  unfold push
  split
  · next h => simp [h]
  · next latest h => simp [h]

/-! ### Looking up by time -/

/-- The first position from `lo` to `hi` whose revision lies behind the time, or `hi`, given that
all revisions in front of `lo` do not and all from `hi` on do. -/
def search (t : Timeline) (time : Instant) (lo hi : Nat) (bound : hi ≤ t.revisions.size) : Nat :=
  if h : lo < hi then
    let middle := lo + (hi - lo) / 2
    have : middle < t.revisions.size := by omega
    if t.revisions[middle].time ≤ time then t.search time (middle + 1) hi bound
    else t.search time lo middle (by omega)
  else lo
termination_by hi - lo

/-- How many revisions were sealed at a time or before it. -/
def partitionPoint (t : Timeline) (time : Instant) : Nat :=
  t.search time 0 t.revisions.size (Nat.le_refl _)

/-- The last revision that was sealed at a time or before it. -/
def floor (t : Timeline) (time : Instant) : Option RevisionStamp :=
  match t.partitionPoint time with
  | 0 => none
  | n + 1 => t.revisions[n]?

/-- The revision whose time is closest to a time: out of the last one that does not lie behind it
and the first one that does, the former if it is strictly closer. -/
def nearest (t : Timeline) (time : Instant) : Option RevisionStamp :=
  match t.floor time, t.revisions[t.partitionPoint time]? with
  | some below, some above =>
    if time.since below.time < above.time.since time then some below else some above
  | some below, none => some below
  | none, above => above

end Timeline

/-! ## Sealed histories

The sealed revisions of a resource with their trees. A history starts with the revision of an empty
document and grows at its end only. -/

/-- The sealed revisions of a resource: their numbers and times, their trees in the same order, and
the latest of them at hand. -/
structure History where
  timeline : Timeline
  trees : Array Tree
  latest : RevisionStamp
deriving Inhabited, DecidableEq

namespace History

/-- The history whose only revision is the empty document at a time. -/
def start (created : Instant) : History :=
  ⟨((Timeline.mk #[]).push created).elim ⟨#[]⟩ (·.2), #[.new], ⟨.first, created⟩⟩

/-- The revision with a number, and its tree. -/
def revision? (h : History) (number : RevisionNumber) : Option (RevisionStamp × Tree) := do
  let info ← h.timeline.get? number
  let tree ← h.trees[number.index]?
  return (info, tree)

/-- The revision that sealing at a time yields; its time is not before that of the latest one. -/
def nextStamp (h : History) (now : Instant) : RevisionStamp :=
  ⟨h.latest.number.next, now.latest h.latest.time⟩

/-- The history with one more revision, sealed at a time. -/
def append (h : History) (tree : Tree) (now : Instant) : History :=
  let info := h.nextStamp now
  { timeline := (h.timeline.push info.time).elim h.timeline (·.2)
    trees := h.trees.push tree
    latest := info }

/-- How many revisions there are. -/
def size (h : History) : Nat := h.timeline.size

@[simp]
theorem latest_append (h : History) (tree : Tree) (now : Instant) :
    (h.append tree now).latest = h.nextStamp now := rfl

@[simp]
theorem trees_append (h : History) (tree : Tree) (now : Instant) :
    (h.append tree now).trees = h.trees.push tree := rfl

end History

end AsOf
