import AsOf.Proofs.HistoryFile.Replay

/-!
# Revisions of history files by number and by time

Which revision of a resource an integer or a time means can be read off the file: revisions are numbered
as they are listed, behind the first one, which is that of the creation, and the last one that was sealed
by some time is found by counting the listed times up to it.

## Main definitions

* `ListedResource.timeOf`, `ListedResource.asOf`: the time of a number, and the number for a time
* `ListedResource.Asks`: which number an integer asks for

## Main results

* `Resource.IsReplayOf.revision?_eq_some_iff`: what a replayed resource has under which number
* `Resource.IsReplayOf.eq_of_isFloor`, `Resource.IsReplayOf.startsAfter_iff`: what it has as of a time
* `ListedResource.Asks.read`, `ListedResource.asks_of_read`: which integers mean a revision
* `ListedResource.InOrder.le_asOf_iff`: the revisions up to the one as of a time
-/

namespace AsOf

/-! ## Counting -/

/-- Elements that have a property in front of all others are counted by it. -/
theorem lt_countP_iff {α : Type} {p : α → Bool} {xs : List α}
    (h : xs.Pairwise fun x y => p y = true → p x = true) {i : Nat} {x : α} (hi : xs[i]? = some x) :
    i < xs.countP p ↔ p x = true := by
  induction xs generalizing i with
  | nil => cases hi
  | cons y ys ih =>
    rw [List.pairwise_cons] at h
    by_cases hy : p y = true
    · rw [List.countP_cons_of_pos hy]
      cases i with
      | zero =>
        obtain rfl := Option.some.inj hi
        exact iff_of_true (Nat.succ_pos _) hy
      | succ i => rw [Nat.succ_lt_succ_iff, ih h.2 hi]
    · have hnone : ∀ z ∈ y :: ys, ¬p z = true := by
        intro z hz hpz
        rcases List.mem_cons.mp hz with rfl | hz
        · exact hy hpz
        · exact hy (h.1 z hz hpz)
      rw [List.countP_eq_zero.mpr hnone]
      exact iff_of_false (Nat.not_lt_zero i) (hnone x (List.mem_of_getElem? hi))

/-- Where exactly the first elements have a property, so many have it. -/
theorem countP_eq_of_lt_iff {α : Type} {p : α → Bool} {xs : List α} {k : Nat} (hk : k ≤ xs.length)
    (h : ∀ i x, xs[i]? = some x → (p x = true ↔ i < k)) : xs.countP p = k := by
  have hfirst : (xs.take k).countP p = (xs.take k).length := by
    refine List.countP_eq_length.mpr fun x hx => ?_
    obtain ⟨i, hi⟩ := List.getElem?_of_mem hx
    rw [List.getElem?_take] at hi
    split at hi
    · next hlt => exact (h i x hi).mpr hlt
    · cases hi
  have hrest : (xs.drop k).countP p = 0 := by
    refine List.countP_eq_zero.mpr fun x hx => ?_
    obtain ⟨i, hi⟩ := List.getElem?_of_mem hx
    rw [List.getElem?_drop] at hi
    rw [h _ _ hi]
    omega
  rw [← List.take_append_drop k xs, List.countP_append, hfirst, hrest, List.length_take]
  omega

/-! ## What is listed -/

namespace ListedResource

/-- When the revision with a number was sealed. -/
def timeOf (l : ListedResource) (n : Nat) : Instant := (l.upTo (n - 1)).lastTime

/-- The number of the last revision that does not lie behind a time, unless all do. -/
def asOf (l : ListedResource) (time : Instant) : Nat :=
  1 + l.revisions.countP fun v => decide (v.time ≤ time)

/-- The number of the revision that an integer asks for: minus one stands for the last one, and every
number that has 32 bits for itself. -/
def Asks (l : ListedResource) (raw : Int) (n : Nat) : Prop :=
  raw = -1 ∧ n = l.revisions.length + 1 ∨
    raw = n ∧ 1 ≤ n ∧ n ≤ l.revisions.length + 1 ∧ n < RevisionNumber.readBound

variable {l : ListedResource} {time : Instant} {raw : Int} {n : Nat}

theorem getElem?_times (l : ListedResource) {i : Nat} (hi : i ≤ l.revisions.length) :
    l.times[i]? = some (l.timeOf (i + 1)) := by
  rw [timeOf, upTo, lastTime, times, Nat.add_sub_cancel]
  cases i with
  | zero => rfl
  | succ i =>
    rw [List.getElem?_cons_succ, List.getElem?_map, List.getLast?_take, if_neg (Nat.succ_ne_zero i),
      Nat.add_sub_cancel, List.getElem?_eq_getElem hi]
    rfl

theorem timeOf_mem_times (l : ListedResource) (hpos : 1 ≤ n) (hle : n ≤ l.revisions.length + 1) :
    l.timeOf n ∈ l.times := by
  have h := l.getElem?_times (i := n - 1) (by omega)
  rw [Nat.sub_add_cancel hpos] at h
  exact List.mem_of_getElem? h

theorem asOf_eq_countP (hcreated : l.created ≤ time) :
    l.asOf time = l.times.countP fun u => decide (u ≤ time) := by
  rw [times, List.countP_cons, List.countP_map, asOf, if_pos (decide_eq_true hcreated), Nat.add_comm]
  rfl

theorem asOf_le (l : ListedResource) (time : Instant) : l.asOf time ≤ l.revisions.length + 1 := by
  have := List.countP_le_length (l := l.revisions) (p := fun v => decide (v.time ≤ time))
  rw [asOf]
  omega

/-- The revisions up to the one as of a time are those that do not lie behind it. -/
theorem InOrder.le_asOf_iff (horder : l.InOrder) (hcreated : l.created ≤ time) (hpos : 1 ≤ n)
    (hle : n ≤ l.revisions.length + 1) : n ≤ l.asOf time ↔ l.timeOf n ≤ time := by
  have hn := l.getElem?_times (i := n - 1) (by omega)
  rw [Nat.sub_add_cancel hpos] at hn
  have hdown : l.times.Pairwise fun u v => decide (v ≤ time) = true → decide (u ≤ time) = true :=
    List.Pairwise.imp (fun huv hv => decide_eq_true (Instant.le_trans huv (of_decide_eq_true hv)))
      horder
  rw [asOf_eq_countP hcreated, ← decide_eq_true_iff (p := l.timeOf n ≤ time), ← lt_countP_iff hdown hn]
  omega

/-- No revision was sealed before the creation. -/
theorem InOrder.created_le (horder : l.InOrder) {t : Instant} (ht : t ∈ l.times) : l.created ≤ t := by
  rcases List.mem_cons.mp ht with rfl | hrest
  · exact Instant.le_refl _
  · exact List.rel_of_pairwise_cons horder hrest

/-- Later revisions have later times, or the same. -/
theorem InOrder.timeOf_le (horder : l.InOrder) {m : Nat} (hpos : 1 ≤ n) (hnm : n ≤ m)
    (hle : m ≤ l.revisions.length + 1) : l.timeOf n ≤ l.timeOf m := by
  -- The revisions as of the time of the later one are all up to it, so the earlier one is among them.
  have hcreated := horder.created_le (l.timeOf_mem_times (Nat.le_trans hpos hnm) hle)
  have hm := (horder.le_asOf_iff hcreated (Nat.le_trans hpos hnm) hle).mpr (Instant.le_refl _)
  exact (horder.le_asOf_iff hcreated hpos (Nat.le_trans hnm hle)).mp (Nat.le_trans hnm hm)

theorem Asks.pos (h : l.Asks raw n) : 1 ≤ n := by
  rcases h with ⟨-, rfl⟩ | ⟨-, h, -⟩
  · exact Nat.succ_pos _
  · exact h

theorem Asks.le (h : l.Asks raw n) : n ≤ l.revisions.length + 1 := by
  rcases h with ⟨-, rfl⟩ | ⟨-, -, h, -⟩
  · exact Nat.le_refl _
  · exact h

/-- An integer that asks for a revision is read as a choice of it. -/
theorem Asks.read (h : l.Asks raw n) : ∃ choice, RevisionChoice.read raw = .ok choice ∧
    ∀ mostRecent : RevisionNumber, mostRecent.val = l.revisions.length + 1 →
      (choice.resolve mostRecent).val = n := by
  rcases h with ⟨rfl, rfl⟩ | ⟨rfl, hpos, -, hbound⟩
  · exact ⟨.latest, rfl, fun _ h => h⟩
  · refine ⟨.exact ⟨n, hpos⟩, ?_, fun _ _ => rfl⟩
    have hneg : (n : Int) ≠ -1 := by omega
    have hread : (0 : Int) ≤ n ∧ (n : Int) < (RevisionNumber.readBound : Nat) := by omega
    have hnumber : RevisionNumber.ofNat? n = some ⟨n, hpos⟩ := RevisionNumber.ofNat?_eq_some.mpr rfl
    rw [RevisionChoice.read, RevisionChoice.ofInt?, if_neg hneg, if_pos hread, Int.toNat_natCast,
      hnumber]
    rfl

/-- An integer that is read as a choice of a revision asks for it. -/
theorem asks_of_read {choice : RevisionChoice} (h : RevisionChoice.read raw = .ok choice)
    {mostRecent : RevisionNumber} (hrecent : mostRecent.val = l.revisions.length + 1)
    (hle : choice.resolve mostRecent ≤ mostRecent) :
    l.Asks raw (choice.resolve mostRecent).val := by
  rw [RevisionChoice.read, RevisionChoice.ofInt?] at h
  by_cases hlatest : raw = -1
  · rw [if_pos hlatest] at h
    cases h
    exact .inl ⟨hlatest, hrecent⟩
  · rw [if_neg hlatest] at h
    by_cases hread : 0 ≤ raw ∧ raw < RevisionNumber.readBound
    · rw [if_pos hread] at h
      cases hnumber : RevisionNumber.ofNat? raw.toNat with
      | none =>
        rw [hnumber] at h
        cases h
      | some number =>
        rw [hnumber] at h
        cases h
        have hval := RevisionNumber.ofNat?_eq_some.mp hnumber
        have hpos := number.pos
        have hle : number.val ≤ mostRecent.val := hle
        refine .inr ⟨?_, hpos, hrecent ▸ hle, ?_⟩ <;>
          simp only [RevisionChoice.resolve] <;> omega
    · rw [if_neg hread] at h
      cases h

end ListedResource

/-! ## What is replayed -/

namespace Resource.IsReplayOf

variable {r : Resource} {l : ListedResource} {lookup : LookupPolicy} {n : RevisionNumber}
  {s : RevisionStamp} {tree : Tree} {time : Instant}

/-- The revision with a number has the time and the nodes that are listed up to it. -/
theorem revision?_eq_some_iff (h : r.IsReplayOf l lookup) :
    r.history.revision? n = some (s, tree) ↔ n.val ≤ l.revisions.length + 1 ∧
      s = ⟨n, l.timeOf n.val⟩ ∧ tree = .flat (l.upTo n.index).nodes := by
  have hpos := n.pos
  have hnumber : (⟨n.index + 1, Nat.succ_pos _⟩ : RevisionNumber) = n :=
    RevisionNumber.ext (Nat.sub_add_cancel hpos)
  rw [History.revision?_eq_entries, h.entries, l.getElem?_entries]
  by_cases hle : n.val ≤ l.revisions.length + 1
  · rw [l.getElem?_times (by rw [RevisionNumber.index]; omega), Option.map_some, hnumber,
      show n.index + 1 = n.val from congrArg RevisionNumber.val hnumber]
    simp only [hle, true_and, Option.some.injEq, Prod.mk.injEq, eq_comm]
  · have hnone : l.times[n.index]? = none := by
      rw [List.getElem?_eq_none_iff, l.length_times, RevisionNumber.index]
      omega
    simp [hnone, hle]

theorem val_mostRecent (h : r.IsReplayOf l lookup) : r.mostRecent.val = l.revisions.length + 1 := by
  obtain ⟨tree, hlatest⟩ := h.sound.history.exists_revision?_latest
  have hle := (h.revision?_eq_some_iff.mp hlatest).1
  have hlast : r.history.revision? ⟨l.revisions.length + 1, Nat.succ_pos _⟩ = some (_, _) :=
    h.revision?_eq_some_iff.mpr ⟨Nat.le_refl _, rfl, rfl⟩
  exact Nat.le_antisymm hle (h.sound.history.exists_revision?_iff.mp ⟨_, _, hlast⟩)

/-- All revisions lie behind the times before the creation, and behind no others. -/
theorem startsAfter_iff (h : r.IsReplayOf l lookup) :
    r.history.StartsAfter time ↔ time < l.created := by
  constructor
  · rintro ⟨first, tree, hfirst, hlt⟩
    obtain ⟨-, rfl, -⟩ := h.revision?_eq_some_iff.mp hfirst
    exact hlt
  · intro hlt
    exact ⟨_, _, h.revision?_eq_some_iff.mpr ⟨Nat.succ_pos _, rfl, rfl⟩, hlt⟩

/-- The floor of a time is found by counting. -/
theorem eq_of_isFloor (h : r.IsReplayOf l lookup) (floor : r.history.IsFloor time s tree) :
    s.number.val = l.asOf time ∧ s.time = l.timeOf (l.asOf time) := by
  obtain ⟨hle, hs, -⟩ := h.revision?_eq_some_iff.mp floor.sealed
  have hcount : l.times.countP (fun u => decide (u ≤ time)) = s.number.val := by
    refine countP_eq_of_lt_iff (by rw [l.length_times]; exact hle) fun i u hu => ?_
    have hi : i ≤ l.revisions.length := by
      have := (List.getElem?_eq_some_iff.mp hu).1
      rw [l.length_times] at this
      omega
    rw [l.getElem?_times hi] at hu
    obtain rfl := Option.some.inj hu
    have hrevision : r.history.revision? ⟨i + 1, Nat.succ_pos i⟩ = some (_, _) :=
      h.revision?_eq_some_iff.mpr ⟨Nat.succ_le_succ hi, rfl, rfl⟩
    rw [decide_eq_true_iff]
    exact ⟨fun hle => floor.greatest hrevision hle,
      fun hlt => floor.time_le_of_le h.sound.history hrevision hlt⟩
  have hcreated : l.created ≤ time :=
    Instant.not_lt.mp fun hlt => floor.not_startsAfter h.sound.history (h.startsAfter_iff.mpr hlt)
  have hnumber : s.number.val = l.asOf time := by rw [l.asOf_eq_countP hcreated, hcount]
  exact ⟨hnumber, hnumber ▸ congrArg RevisionStamp.time hs⟩

end Resource.IsReplayOf

end AsOf
