import AsOf.History.Basic
import AsOf.Proofs.History.Search

/-!
# Sound histories

A history that arose by sealing revisions is sound, and the timeline finds the floors of times in it. When it
grows, the floors of earlier times stay what they are.

## Main definitions

* `History.Sound`: the parts of a history agree
* `History.IsFloor`: a revision and its tree are the floor of a time
* `History.StartsAfter`: a time lies before the first revision
* `History.StandsFor`: a number is at most one revision off the floor
* `History.entries`: the sealed revisions with their trees

## Main results

* `History.sound_start`, `History.Sound.append`: histories are sound, whatever the clock says
* `History.Sound.revision?_append`: sealing adds one revision and leaves all others as they are
* `History.Sound.floor_eq_some_iff`, `History.Sound.floor_eq_none_iff`: the timeline finds the floor
* `History.IsFloor.unique`: a time has one floor
* `History.Sound.standsFor_floor`, `History.Sound.standsFor_nearest`: what either search finds stands
  for the time
* `History.Sound.entries_append`: sealing adds one entry at the end
* `History.revision?_of_isPrefix`: a history that grew holds the same revisions
* `History.IsFloor.of_isPrefix`, `History.StartsAfter.of_isPrefix`: floors are final
-/

namespace AsOf

/-! ## Sound histories and their floors

The number, the time and the tree of a revision lie in three places, which grow together: a history
that arose by sealing revisions has a tree for each of them, under consecutive numbers and times
that never decrease. The floor of a time is the last revision that was sealed at it or before it. -/

namespace History

/-- The timeline is ordered, each of its revisions has a tree, and its last revision is at hand. -/
structure Sound (h : History) : Prop where
  ordered : h.timeline.Ordered
  size_trees : h.trees.size = h.timeline.size
  latest?_eq : h.timeline.latest? = some h.latest

variable {h : History} {time now : Instant} {n : RevisionNumber} {s u : RevisionStamp}
  {tree tree' : Tree}

theorem revision?_eq_some_iff :
    h.revision? n = some (s, tree) ↔ h.timeline.get? n = some s ∧ h.trees[n.index]? = some tree := by
  unfold revision?
  cases h.timeline.get? n <;> cases h.trees[n.index]? <;> simp

/-! ### What a sound history holds -/

theorem Sound.number_of_revision? (hh : h.Sound) (hs : h.revision? n = some (s, tree)) :
    s.number = n :=
  hh.ordered.number_of_get? (revision?_eq_some_iff.mp hs).1

/-- The revisions are numbered up to the latest one. -/
theorem Sound.exists_revision?_iff (hh : h.Sound) :
    (∃ s tree, h.revision? n = some (s, tree)) ↔ n ≤ h.latest.number := by
  have hl := hh.ordered.val_latest? hh.latest?_eq
  have hn := n.pos
  have ht := hh.size_trees
  rw [Timeline.size] at hl ht
  rw [RevisionNumber.le_def, hl]
  constructor
  · rintro ⟨s, tree, hs⟩
    have := (Array.getElem?_eq_some_iff.mp (revision?_eq_some_iff.mp hs).1).1
    rw [RevisionNumber.index] at this
    omega
  · intro hle
    have hi : n.index < h.timeline.revisions.size := by
      rw [RevisionNumber.index]
      omega
    exact ⟨_, _, revision?_eq_some_iff.mpr ⟨Array.getElem?_eq_getElem hi,
      Array.getElem?_eq_getElem (ht ▸ hi)⟩⟩

theorem Sound.exists_revision?_latest (hh : h.Sound) :
    ∃ tree, h.revision? h.latest.number = some (h.latest, tree) := by
  obtain ⟨s, tree, hs⟩ := hh.exists_revision?_iff.mpr (RevisionNumber.le_refl h.latest.number)
  have hget := (revision?_eq_some_iff.mp hs).1
  have hlast := hh.latest?_eq
  rw [Timeline.latest?, Array.back?] at hlast
  have hi : h.latest.number.index = h.timeline.revisions.size - 1 := hh.ordered.index_eq hlast
  rw [Timeline.get?, hi, hlast] at hget
  exact ⟨tree, Option.some.inj hget ▸ hs⟩

theorem Sound.exists_revision?_first (hh : h.Sound) :
    ∃ s tree, h.revision? .first = some (s, tree) :=
  hh.exists_revision?_iff.mpr (RevisionNumber.first_le _)

theorem Sound.time_le {m : RevisionNumber} (hh : h.Sound) (hs : h.revision? m = some (s, tree))
    (hu : h.revision? n = some (u, tree')) (hle : m ≤ n) : s.time ≤ u.time :=
  hh.ordered.time_le_of_number_le (revision?_eq_some_iff.mp hs).1 (revision?_eq_some_iff.mp hu).1 hle

/-! ### How histories grow -/

theorem sound_start (created : Instant) : (start created).Sound where
  ordered := Timeline.ordered_empty.push rfl
  size_trees := rfl
  latest?_eq := rfl

/-- The time of the next revision is not refused. -/
theorem Sound.push_nextStamp (hh : h.Sound) (now : Instant) :
    h.timeline.push (h.nextStamp now).time =
      some ((h.nextStamp now).number, ⟨h.timeline.revisions.push (h.nextStamp now)⟩) := by
  unfold Timeline.push
  rw [hh.latest?_eq]
  have := Instant.not_lt.mpr (Instant.le_latest_right now h.latest.time)
  simp only [nextStamp, this, if_false]

theorem Sound.timeline_append (hh : h.Sound) (tree : Tree) (now : Instant) :
    (h.append tree now).timeline = ⟨h.timeline.revisions.push (h.nextStamp now)⟩ := by
  simp only [append, hh.push_nextStamp, Option.elim_some]

theorem Sound.append (hh : h.Sound) (tree : Tree) (now : Instant) : (h.append tree now).Sound where
  ordered := hh.timeline_append tree now ▸ hh.ordered.push (hh.push_nextStamp now)
  size_trees := by
    rw [hh.timeline_append, trees_append, Array.size_push, hh.size_trees, Timeline.size,
      Timeline.size, Array.size_push]
  latest?_eq := by
    rw [hh.timeline_append, latest_append, Timeline.latest?, Array.back?_push]

/-- Sealing adds one revision under the next number and leaves all others as they are. -/
theorem Sound.revision?_append (hh : h.Sound) (tree : Tree) (now : Instant) (n : RevisionNumber) :
    (h.append tree now).revision? n =
      if n = h.latest.number.next then some (h.nextStamp now, tree) else h.revision? n := by
  have hl := hh.ordered.val_latest? hh.latest?_eq
  have ht := hh.size_trees
  rw [Timeline.size] at hl ht
  unfold revision?
  rw [hh.timeline_append, trees_append, Timeline.get?, Timeline.get?, Array.getElem?_push,
    Array.getElem?_push, ht, ← hl]
  by_cases hn : n = h.latest.number.next
  · simp [hn]
  · have hi : n.index ≠ h.latest.number.val := fun hi => hn (RevisionNumber.index_injective hi)
    simp [hn, hi]

/-- What was sealed before stays, since the number of the new revision was not in use. -/
theorem Sound.revision?_append_of_eq_some (hh : h.Sound) (tree : Tree) (now : Instant)
    {n : RevisionNumber} {found : RevisionStamp × Tree} (hs : h.revision? n = some found) :
    (h.append tree now).revision? n = some found := by
  have hle := hh.exists_revision?_iff.mp ⟨found.1, found.2, hs⟩
  have hne : n ≠ h.latest.number.next := by
    rintro rfl
    rw [RevisionNumber.le_def, RevisionNumber.val_next] at hle
    omega
  rw [hh.revision?_append, if_neg hne, hs]

/-- What is sealed behind an append is the new revision, or was there before. -/
theorem Sound.revision?_append_cases (hh : h.Sound) {tree : Tree} {now : Instant} {n : RevisionNumber}
    {found : RevisionStamp × Tree} (hs : (h.append tree now).revision? n = some found) :
    found = (h.nextStamp now, tree) ∨ h.revision? n = some found := by
  rw [hh.revision?_append] at hs
  split at hs
  · exact .inl (Option.some.inj hs).symm
  · exact .inr hs

/-! ### The floor of a time -/

/-- The revision is the last one that was sealed at the time or before it, and the tree is its
tree. -/
structure IsFloor (h : History) (time : Instant) (s : RevisionStamp) (tree : Tree) : Prop where
  sealed : h.revision? s.number = some (s, tree)
  time_le : s.time ≤ time
  greatest : ∀ {n : RevisionNumber} {u : RevisionStamp} {tree' : Tree},
    h.revision? n = some (u, tree') → u.time ≤ time → n ≤ s.number

/-- The time lies before the first revision. -/
def StartsAfter (h : History) (time : Instant) : Prop :=
  ∃ first tree, h.revision? .first = some (first, tree) ∧ time < first.time

/-- A number stands for a time if it is that of the floor, or that of the revision right behind the
floor, or the first one if the time lies before it. -/
def StandsFor (h : History) (n : RevisionNumber) (time : Instant) : Prop :=
  (∃ s tree, h.IsFloor time s tree ∧
    (n = s.number ∨ n = s.number.next ∧ s.number.next ≤ h.latest.number)) ∨
  h.StartsAfter time ∧ n = .first

/-- The revision with the number of the floor is the floor. -/
theorem IsFloor.eq_of_revision? (hs : h.IsFloor time s tree)
    (hu : h.revision? s.number = some (u, tree')) : u = s ∧ tree' = tree :=
  Prod.mk.inj (Option.some.inj (hu.symm.trans hs.sealed))

/-- A time has one floor. -/
theorem IsFloor.unique (hs : h.IsFloor time s tree) (hu : h.IsFloor time u tree') :
    s = u ∧ tree = tree' := by
  have hn : s.number = u.number := RevisionNumber.le_antisymm
    (hu.greatest hs.sealed hs.time_le) (hs.greatest hu.sealed hu.time_le)
  exact hu.eq_of_revision? (hn ▸ hs.sealed)

/-- The revision right behind the floor lies behind the time. -/
theorem IsFloor.lt_next (hs : h.IsFloor time s tree)
    (hu : h.revision? s.number.next = some (u, tree')) : time < u.time := by
  refine Instant.not_le.mp fun hle => ?_
  have := hs.greatest hu hle
  rw [RevisionNumber.le_def, RevisionNumber.val_next] at this
  omega

/-- No revision up to the floor lies behind the time. -/
theorem IsFloor.time_le_of_le (hh : h.Sound) (hs : h.IsFloor time s tree)
    (hu : h.revision? n = some (u, tree')) (hle : n ≤ s.number) : u.time ≤ time :=
  Instant.le_trans (hh.time_le hu hs.sealed hle) hs.time_le

/-- Every revision lies behind a time before the first one. -/
theorem StartsAfter.lt (hh : h.Sound) (hs : h.StartsAfter time)
    (hu : h.revision? n = some (u, tree)) : time < u.time := by
  obtain ⟨first, tree', hfirst, hlt⟩ := hs
  have hle := hh.time_le hfirst hu (RevisionNumber.first_le _)
  exact Instant.not_le.mp fun hle' => Instant.not_le.mpr hlt (Instant.le_trans hle hle')

/-- A time that has a floor does not lie before the first revision. -/
theorem IsFloor.not_startsAfter (hh : h.Sound) (hs : h.IsFloor time s tree) :
    ¬h.StartsAfter time := by
  intro hafter
  exact Instant.not_le.mpr (hafter.lt hh hs.sealed) hs.time_le

theorem Sound.revision?_of_get? (hh : h.Sound) (hs : h.timeline.get? n = some s) :
    ∃ tree, h.revision? n = some (s, tree) := by
  have hi := (Array.getElem?_eq_some_iff.mp hs).1
  have ht := hh.size_trees
  rw [Timeline.size] at ht
  exact ⟨_, revision?_eq_some_iff.mpr ⟨hs, Array.getElem?_eq_getElem (ht ▸ hi)⟩⟩

/-- The timeline finds the floor. -/
theorem Sound.floor_eq_some_iff (hh : h.Sound) :
    h.timeline.floor time = some s ↔ ∃ tree, h.IsFloor time s tree := by
  rw [hh.ordered.floor_eq_some_iff]
  constructor
  · rintro ⟨hs, hle, hmax⟩
    obtain ⟨tree, htree⟩ := hh.revision?_of_get? hs
    refine ⟨tree, htree, hle, fun hu hut => ?_⟩
    have hn := hh.number_of_revision? hu
    exact hn ▸ hmax (hn ▸ (revision?_eq_some_iff.mp hu).1) hut
  · rintro ⟨tree, hs⟩
    refine ⟨(revision?_eq_some_iff.mp hs.sealed).1, hs.time_le, fun hu hut => ?_⟩
    obtain ⟨tree', htree'⟩ := hh.revision?_of_get? hu
    exact hs.greatest htree' hut

/-- The timeline finds no floor exactly for the times before the first revision. -/
theorem Sound.floor_eq_none_iff (hh : h.Sound) :
    h.timeline.floor time = none ↔ h.StartsAfter time := by
  obtain ⟨first, tree, hfirst⟩ := hh.exists_revision?_first
  rw [hh.ordered.floor_eq_none_iff]
  constructor
  · intro hlt
    have hn := hh.number_of_revision? hfirst
    exact ⟨first, tree, hfirst, hlt (hn ▸ (revision?_eq_some_iff.mp hfirst).1)⟩
  · intro hafter u hu
    obtain ⟨tree', hu'⟩ := hh.revision?_of_get? hu
    exact hafter.lt hh hu'

/-! ### What the searches find -/

/-- The floor that the timeline finds stands for the time, and so does the first revision if it finds
none. -/
theorem Sound.standsFor_floor (hh : h.Sound) {found : Option RevisionStamp}
    (hf : h.timeline.floor time = found) : h.StandsFor (found.elim .first (·.number)) time := by
  cases found with
  | none => exact .inr ⟨hh.floor_eq_none_iff.mp hf, rfl⟩
  | some s =>
    obtain ⟨tree, hs⟩ := hh.floor_eq_some_iff.mp hf
    exact .inl ⟨s, tree, hs, .inl rfl⟩

/-- The closest revision stands for the time, and so does the first revision if there is none. -/
theorem Sound.standsFor_nearest (hh : h.Sound) {found : Option RevisionStamp}
    (hn : h.timeline.nearest time = found) : h.StandsFor (found.elim .first (·.number)) time := by
  cases found with
  | none => exact hh.standsFor_floor (Timeline.floor_eq_none_of_nearest_eq_none hn)
  | some u =>
    rcases hh.ordered.nearest_cases hn with hfloor | ⟨hu, ⟨below, hbelow, hnext⟩ | ⟨hnone, hfirst⟩⟩
    · exact hh.standsFor_floor hfloor
    · obtain ⟨tree, hs⟩ := hh.floor_eq_some_iff.mp hbelow
      obtain ⟨tree', hu⟩ := hh.revision?_of_get? hu
      have hle := hh.exists_revision?_iff.mp ⟨u, tree', hu⟩
      exact .inl ⟨below, tree, hs, .inr ⟨hnext, hnext ▸ hle⟩⟩
    · exact .inr ⟨hh.floor_eq_none_iff.mp hnone, hfirst⟩

end History

/-! ## Growing histories

Sealing puts a revision with its tree behind all others. A history that grew holds what it held
before under the same numbers. Since times never decrease, no later revision comes to lie before the
time of the latest one, so the floor of an earlier time stays what it is. -/

namespace History

/-- The sealed revisions with their trees, in the order of their numbers. -/
def entries (h : History) : List (RevisionStamp × Tree) := h.timeline.toList.zip h.trees.toList

variable {h h' : History} {time now : Instant} {n : RevisionNumber} {s : RevisionStamp} {tree : Tree}

theorem revision?_eq_entries (h : History) (n : RevisionNumber) :
    h.revision? n = h.entries[n.index]? := by
  ext ⟨s, tree⟩
  rw [revision?_eq_some_iff, entries, List.getElem?_zip_eq_some, Timeline.get?, Timeline.toList,
    Array.getElem?_toList, Array.getElem?_toList]

theorem entries_start (created : Instant) : (start created).entries = [(⟨.first, created⟩, .new)] :=
  rfl

theorem Sound.length_entries (hh : h.Sound) : h.entries.length = h.size := by
  rw [entries, List.length_zip, Timeline.toList, Array.length_toList, Array.length_toList,
    hh.size_trees]
  exact Nat.min_self _

/-- Sealing adds one entry at the end. -/
theorem Sound.entries_append (hh : h.Sound) (tree : Tree) (now : Instant) :
    (h.append tree now).entries = h.entries ++ [(h.nextStamp now, tree)] := by
  have hlength : h.timeline.revisions.toList.length = h.trees.toList.length := hh.size_trees.symm
  rw [entries, hh.timeline_append, trees_append, Timeline.toList, Array.toList_push,
    Array.toList_push, List.zip_append hlength]
  rfl

/-! ### What a history that grew holds -/

theorem revision?_of_isPrefix (hp : h.entries <+: h'.entries) (hs : h.revision? n = some (s, tree)) :
    h'.revision? n = some (s, tree) := by
  obtain ⟨rest, hrest⟩ := hp
  rw [revision?_eq_entries] at hs ⊢
  rw [← hrest, List.getElem?_append_left (List.getElem?_eq_some_iff.mp hs).1, hs]

theorem StartsAfter.of_isPrefix (hp : h.entries <+: h'.entries) (hs : h.StartsAfter time) :
    h'.StartsAfter time := by
  obtain ⟨first, tree, hfirst, hlt⟩ := hs
  exact ⟨first, tree, revision?_of_isPrefix hp hfirst, hlt⟩

/-- The floor of a time before that of the latest revision is final. -/
theorem IsFloor.of_isPrefix (hh : h.Sound) (hh' : h'.Sound) (hp : h.entries <+: h'.entries)
    (hlt : time < h.latest.time) (hs : h.IsFloor time s tree) : h'.IsFloor time s tree := by
  refine ⟨revision?_of_isPrefix hp hs.sealed, hs.time_le, fun {n u tree'} hu hle => ?_⟩
  obtain ⟨ltree, hlatest⟩ := hh.exists_revision?_latest
  have hn : n ≤ h.latest.number := by
    refine RevisionNumber.not_lt.mp fun hbehind => Instant.not_le.mpr hlt ?_
    have := hh'.time_le (revision?_of_isPrefix hp hlatest) hu (Nat.le_of_lt hbehind)
    exact Instant.le_trans this hle
  obtain ⟨v, vtree, hv⟩ := hh.exists_revision?_iff.mpr hn
  obtain ⟨rfl, rfl⟩ := Prod.mk.inj (Option.some.inj ((revision?_of_isPrefix hp hv).symm.trans hu))
  exact hs.greatest hv hle

end History

end AsOf
