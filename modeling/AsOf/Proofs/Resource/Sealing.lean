import AsOf.Proofs.Resource.Run

/-!
# What sealing leaves in a resource

The number, the time and the tree of a revision come to lie in three places when it is sealed, the
latest number and time are kept once more at hand, and commits are counted in a fourth place. Nothing
compares these places later on. They agree all the same, whatever was done to the resource and whatever
the clock showed: only sealing touches them, and it touches all of them together.

## Main definitions

* `Resource.CommitsCounted`: every revision but the first one was counted as a commit
* `History.Aligned`: the places where a history of some length is kept agree

## Main results

* `Resource.CommitsCounted.step`: whatever is done to a resource, its commits are counted
* `History.Sound.aligned`: the places of a sound history agree
* `Resource.history_aligned_run`: so they do in every resource, and sealing is never refused
-/

namespace AsOf

/-! ## Commits -/

namespace Resource

/-- Every revision but the first one was counted as a commit when it was sealed. -/
def CommitsCounted (r : Resource) : Prop := r.tally.commits + 1 = r.history.size

variable {r r' : Resource}

theorem commitsCounted_create (name : String) (lookup : LookupPolicy) (now : Instant) :
    (create name lookup now).CommitsCounted := rfl

/-- Only sealing adds a revision, and it counts what it adds. -/
theorem CommitsCounted.step (hr : r.Sound) (hc : r.CommitsCounted) (h : r.Step r') :
    r'.CommitsCounted := by
  cases h with
  | stay | countOpen | countClose | opened | ended | moved | rewound => exact hc
  | committed live now =>
    show r.tally.commits + 1 + 1 = (r.history.append _ now).timeline.revisions.size
    rw [hr.history.timeline_append, Array.size_push, hc]
    rfl

/-- Whatever happened to a new resource, its commits are counted. -/
theorem commitsCounted_run (name : String) (lookup : LookupPolicy) (created : Instant)
    (events : List ResourceEvent) : ((create name lookup created).run events).CommitsCounted :=
  -- Counting relies on soundness: a time that the timeline refused would be counted all the same.
  (sound_create name lookup created).keeps_run CommitsCounted.step
    (commitsCounted_create name lookup created) events

end Resource

/-! ## The places of a history -/

namespace History

/-- The places where a history of `n` revisions is kept agree: the timeline and the trees are as long as
it is, the entry at each position carries the number that the position stands for, times never decrease,
the entry at hand is the last one, and each number up to `n`, and no other, is answered with the entry
and the tree at its position. -/
structure Aligned (h : History) (n : Nat) : Prop where
  one_le : 1 ≤ n
  size_timeline : h.timeline.size = n
  size_trees : h.trees.size = n
  number_val : ∀ {i : Nat} {s : RevisionStamp}, h.timeline.revisions[i]? = some s →
    s.number.val = i + 1
  time_le : ∀ {i j : Nat} {s u : RevisionStamp}, h.timeline.revisions[i]? = some s →
    h.timeline.revisions[j]? = some u → i ≤ j → s.time ≤ u.time
  latest?_eq : h.timeline.latest? = some h.latest
  isSome_revision? : ∀ k : RevisionNumber, (h.revision? k).isSome = true ↔ k.val ≤ n
  revision?_eq : ∀ {k : RevisionNumber} {s : RevisionStamp} {tree : Tree},
    h.revision? k = some (s, tree) → s.number = k ∧
      h.timeline.revisions[k.val - 1]? = some s ∧ h.trees[k.val - 1]? = some tree

variable {h : History}

theorem Sound.isSome_revision?_iff (hh : h.Sound) (k : RevisionNumber) :
    (h.revision? k).isSome = true ↔ k.val ≤ h.size := by
  have hlast : h.latest.number.val = h.size := hh.ordered.val_latest? hh.latest?_eq
  rw [← hlast, ← RevisionNumber.le_def, ← hh.exists_revision?_iff, Option.isSome_iff_exists,
    Prod.exists]

/-- The places of a sound history agree. -/
theorem Sound.aligned (hh : h.Sound) : h.Aligned h.size where
  one_le := by
    have hlast : h.latest.number.val = h.size := hh.ordered.val_latest? hh.latest?_eq
    rw [← hlast]
    exact h.latest.number.pos
  size_timeline := rfl
  size_trees := hh.size_trees
  number_val {i s} hs := by
    have hindex := hh.ordered.index_eq hs
    have hpos := s.number.pos
    rw [RevisionNumber.index] at hindex
    omega
  time_le := hh.ordered.time_le
  latest?_eq := hh.latest?_eq
  isSome_revision? := hh.isSome_revision?_iff
  revision?_eq hs := ⟨hh.number_of_revision? hs, revision?_eq_some_iff.mp hs⟩

/-- Sealing a tree is never refused, whatever the clock shows: the timeline takes the new revision under
the number that was announced for it, and keeps what it was given. -/
theorem Sound.push_eq_append (hh : h.Sound) (tree : Tree) (now : Instant) :
    h.timeline.push (h.nextStamp now).time =
      some ((h.nextStamp now).number, (h.append tree now).timeline) := by
  rw [hh.timeline_append]
  exact hh.push_nextStamp now

end History

namespace Resource

/-- A write transaction is refused only because another one is running. -/
theorem Sound.startWriter_error_iff {r : Resource} (hr : r.Sound) {e : StoreError} :
    r.startWriter = .error e ↔ r.running ≠ none ∧ e = .writeTrxRunning r.name := by
  cases hrun : r.running with
  | some handle =>
    have hbusy : r.startWriter = .error (.writeTrxRunning r.name) := by
      simp only [startWriter, hrun, Option.isSome_some, if_true]
    rw [hbusy, Except.error.injEq, eq_comm]
    simp
  | none =>
    obtain ⟨tree, -, hstart⟩ := hr.exists_startWriter hrun
    rw [hstart]
    simp

/-- **Number, time, tree and count of every revision agree.** Whatever happened to a resource and
whatever the clock showed, the places where its history is kept agree, and every revision but the first
one was counted as a commit. So the next revision will not be refused, whatever the clock shows then: it
gets the number that sealing announces. And a write transaction is refused only because another one is
running, never because the latest revision could not be found. -/
theorem history_aligned_run (name : String) (lookup : LookupPolicy) (created : Instant)
    (events : List ResourceEvent) :
    let r := (create name lookup created).run events
    r.history.Aligned r.history.size ∧ r.tally.commits = r.history.size - 1 ∧
      (∀ (tree : Tree) (now : Instant), r.history.timeline.push (r.history.nextStamp now).time =
        some ((r.history.nextStamp now).number, (r.history.append tree now).timeline)) ∧
      (∀ {handle : Nat} {now : Instant} {number : RevisionNumber} {r' : Resource},
        r.commit handle now = .ok (number, r') → number.val = r.history.size + 1 ∧
          r'.history.size = r.history.size + 1) ∧
      ∀ {e : StoreError}, r.startWriter = .error e → e = .writeTrxRunning r.name := by
  intro r
  have hr : r.Sound := sound_run name lookup created events
  have hcounted : r.CommitsCounted := commitsCounted_run name lookup created events
  refine ⟨hr.history.aligned, ?_, hr.history.push_eq_append, ?_, ?_⟩
  · rw [← hcounted]
    rfl
  · intro handle now number r' hcommit
    obtain ⟨t, -, rfl, rfl⟩ := commit_eq_ok_iff.mp hcommit
    have hlast : r.history.latest.number.val = r.history.size :=
      hr.history.ordered.val_latest? hr.history.latest?_eq
    constructor
    · show r.history.latest.number.val + 1 = _
      rw [hlast]
    · show (r.history.append t.tree now).timeline.revisions.size = _
      rw [hr.history.timeline_append, Array.size_push]
      rfl
  · intro e he
    exact (hr.startWriter_error_iff.mp he).2

end Resource

end AsOf
