import AsOf.History.Basic

/-!
# Searching a timeline

Numbers count up along a timeline and times never decrease, whatever was appended. So the revisions
that do not lie behind a time are the first few, and the binary search finds how many they are.

## Main definitions

* `Timeline.Ordered`: numbers count up from one and times never decrease

## Main results

* `Timeline.Ordered.push`: one more revision keeps a timeline ordered
* `Timeline.Ordered.time_le_iff`: the search counts the revisions that do not lie behind a time
* `Timeline.Ordered.floor_eq_some_iff`, `Timeline.Ordered.floor_eq_none_iff`: the floor is the last
  such revision
* `Timeline.nearest_cases`: the closest revision is the floor or the one right behind it
-/

namespace AsOf.Timeline

/-- Numbers count up from one, and times never decrease. -/
structure Ordered (t : Timeline) : Prop where
  index_eq : ∀ {i : Nat} {s : RevisionStamp}, t.revisions[i]? = some s → s.number.index = i
  time_le : ∀ {i j : Nat} {s u : RevisionStamp}, t.revisions[i]? = some s →
    t.revisions[j]? = some u → i ≤ j → s.time ≤ u.time

variable {t : Timeline} {time : Instant}

theorem ordered_empty : Ordered ⟨#[]⟩ where
  index_eq h := by simp at h
  time_le h := by simp at h

theorem Ordered.get?_number (ht : t.Ordered) {i : Nat} {s : RevisionStamp}
    (h : t.revisions[i]? = some s) : t.get? s.number = some s := by
  rw [get?, ht.index_eq h, h]

theorem Ordered.number_of_get? (ht : t.Ordered) {number : RevisionNumber} {s : RevisionStamp}
    (h : t.get? number = some s) : s.number = number :=
  RevisionNumber.index_injective (ht.index_eq h)

theorem Ordered.time_le_of_number_le (ht : t.Ordered) {m n : RevisionNumber} {s u : RevisionStamp}
    (hs : t.get? m = some s) (hu : t.get? n = some u) (h : m ≤ n) : s.time ≤ u.time :=
  ht.time_le hs hu (RevisionNumber.index_le_index.mpr h)

/-! ## Growing -/

/-- A revision that carries the next number and does not lie before the last one keeps a timeline
ordered. -/
theorem Ordered.snoc (ht : t.Ordered) {s : RevisionStamp} (hn : s.number.index = t.size)
    (hl : ∀ {latest}, t.latest? = some latest → latest.time ≤ s.time) :
    Ordered ⟨t.revisions.push s⟩ where
  index_eq {i u} h := by
    rw [Array.getElem?_push] at h
    split at h
    · next hi =>
      obtain rfl := Option.some.inj h
      rw [hn, hi, size]
    · exact ht.index_eq h
  time_le {i j u v} hu hv hij := by
    have hlast : ∀ {k : Nat} {w : RevisionStamp}, t.revisions[k]? = some w → w.time ≤ s.time := by
      intro k w hw
      have hk : k < t.revisions.size := (Array.getElem?_eq_some_iff.mp hw).1
      have hback : t.latest? = some (t.revisions[t.revisions.size - 1]) := by
        rw [latest?, Array.back?, Array.getElem?_eq_getElem (by omega)]
      refine Instant.le_trans (ht.time_le hw (Array.getElem?_eq_getElem (by omega)) ?_) (hl hback)
      omega
    rw [Array.getElem?_push] at hu hv
    split at hv
    · next hj =>
      obtain rfl := Option.some.inj hv
      split at hu
      · obtain rfl := Option.some.inj hu
        exact Instant.le_refl _
      · exact hlast hu
    · next hj =>
      have hjt : j < t.revisions.size := (Array.getElem?_eq_some_iff.mp hv).1
      rw [if_neg (by omega)] at hu
      exact ht.time_le hu hv hij

/-- The last revision carries the number of revisions. -/
theorem Ordered.val_latest? (ht : t.Ordered) {latest : RevisionStamp}
    (h : t.latest? = some latest) : latest.number.val = t.size := by
  rw [latest?, Array.back?] at h
  have hlt := (Array.getElem?_eq_some_iff.mp h).1
  have hi := ht.index_eq h
  have := latest.number.pos
  rw [RevisionNumber.index] at hi
  rw [size]
  omega

/-- One more revision keeps a timeline ordered: it carries the next number, and its time was not
refused. -/
theorem Ordered.push (ht : t.Ordered) {number : RevisionNumber} {u : Timeline}
    (h : t.push time = some (number, u)) : u.Ordered := by
  unfold Timeline.push at h
  split at h
  · next hnone =>
    obtain ⟨rfl, rfl⟩ := Prod.mk.inj (Option.some.inj h)
    refine ht.snoc ?_ fun hl => by simp [hnone] at hl
    rw [latest?, Array.back?_eq_none_iff] at hnone
    simp [size, hnone, RevisionNumber.index]
  · next latest hlatest =>
    split at h
    · cases h
    · next hlt =>
      obtain ⟨rfl, rfl⟩ := Prod.mk.inj (Option.some.inj h)
      refine ht.snoc (ht.val_latest? hlatest) fun hl => ?_
      obtain rfl := Option.some.inj (hlatest.symm.trans hl)
      exact Instant.not_lt.mp hlt

/-! ## Counting the revisions that do not lie behind a time -/

/-- Between bounds that are right, the search ends at the first revision behind the time: the
revisions in front of its answer do not lie behind the time, and those from it on do. -/
theorem Ordered.time_le_iff_lt_search (ht : t.Ordered) {lo hi : Nat} (bound : hi ≤ t.revisions.size)
    (hle : lo ≤ hi) (hlo : ∀ {i s}, t.revisions[i]? = some s → i < lo → s.time ≤ time)
    (hhi : ∀ {i s}, t.revisions[i]? = some s → hi ≤ i → ¬s.time ≤ time) {i : Nat}
    {s : RevisionStamp} (hs : t.revisions[i]? = some s) :
    s.time ≤ time ↔ i < t.search time lo hi bound := by
  fun_induction t.search time lo hi bound with
  | case1 lo hi bound h middle hm hmid ih =>
    refine ih (by omega) (fun {k u} hu hk => ?_) hhi
    exact Instant.le_trans (ht.time_le hu (Array.getElem?_eq_getElem hm) (by omega)) hmid
  | case2 lo hi bound h middle hm hmid ih =>
    refine ih (by omega) hlo fun {k u} hu hk hku => hmid ?_
    exact Instant.le_trans (ht.time_le (Array.getElem?_eq_getElem hm) hu hk) hku
  | case3 lo hi bound h =>
    constructor
    · intro hst
      refine Nat.lt_of_not_le fun hi => hhi hs ?_ hst
      omega
    · exact hlo hs

/-- The search counts the revisions that do not lie behind the time. -/
theorem Ordered.time_le_iff (ht : t.Ordered) {i : Nat} {s : RevisionStamp}
    (hs : t.revisions[i]? = some s) : s.time ≤ time ↔ i < t.partitionPoint time := by
  refine ht.time_le_iff_lt_search (Nat.le_refl _) (Nat.zero_le _) (fun _ h => ?_) (fun hu h => ?_) hs
  · omega
  · have := (Array.getElem?_eq_some_iff.mp hu).1
    omega

theorem partitionPoint_le (t : Timeline) (time : Instant) : t.partitionPoint time ≤ t.size := by
  have search_le : ∀ lo hi (bound : hi ≤ t.revisions.size), lo ≤ hi →
      t.search time lo hi bound ≤ hi := by
    intro lo hi bound hle
    fun_induction t.search time lo hi bound with
    | case1 lo hi bound h middle hm hmid ih => exact ih (by omega)
    | case2 lo hi bound h middle hm hmid ih => exact Nat.le_trans (ih (by omega)) (by omega)
    | case3 lo hi bound h => exact hle
  exact search_le 0 t.revisions.size _ (Nat.zero_le _)

/-! ## The floor and the closest revision -/

/-- The floor is the last revision that does not lie behind the time. -/
theorem Ordered.floor_eq_some_iff (ht : t.Ordered) {s : RevisionStamp} :
    t.floor time = some s ↔ t.get? s.number = some s ∧ s.time ≤ time ∧
      ∀ {u : RevisionStamp}, t.get? u.number = some u → u.time ≤ time → u.number ≤ s.number := by
  unfold floor
  have hle := partitionPoint_le t time
  split
  · next h0 =>
    constructor
    · intro h
      cases h
    · rintro ⟨hs, hst, -⟩
      have := (ht.time_le_iff hs).mp hst
      omega
  · next n hn =>
    obtain ⟨last, hlast⟩ : ∃ last, t.revisions[n]? = some last :=
      ⟨_, Array.getElem?_eq_getElem (by rw [size] at hle; omega)⟩
    rw [hlast, Option.some.injEq]
    constructor
    · rintro rfl
      refine ⟨ht.get?_number hlast, (ht.time_le_iff hlast).mpr (by omega), fun hu hut => ?_⟩
      have := (ht.time_le_iff hu).mp hut
      rw [← RevisionNumber.index_le_index, ht.index_eq hlast]
      omega
    · rintro ⟨hs, hst, hmax⟩
      have hsn := (ht.time_le_iff hs).mp hst
      have hns := hmax (ht.get?_number hlast) ((ht.time_le_iff hlast).mpr (by omega))
      rw [← RevisionNumber.index_le_index, ht.index_eq hlast] at hns
      have hi : s.number.index = n := by omega
      rw [get?, hi, hlast] at hs
      exact Option.some.inj hs

/-- There is no floor exactly if every revision lies behind the time. -/
theorem Ordered.floor_eq_none_iff (ht : t.Ordered) :
    t.floor time = none ↔ ∀ {u : RevisionStamp}, t.get? u.number = some u → time < u.time := by
  have hle := partitionPoint_le t time
  constructor
  · intro h u hu
    rw [← Instant.not_le, ht.time_le_iff hu]
    unfold floor at h
    split at h
    · omega
    · rw [Array.getElem?_eq_none_iff] at h
      rw [size] at hle
      omega
  · intro h
    cases hf : t.floor time with
    | none => rfl
    | some s =>
      obtain ⟨hs, hst, -⟩ := ht.floor_eq_some_iff.mp hf
      exact absurd hst (Instant.not_le.mpr (h hs))

/-- The floor is the revision in front of the first one that lies behind the time. -/
theorem Ordered.val_floor (ht : t.Ordered) {s : RevisionStamp} (h : t.floor time = some s) :
    s.number.val = t.partitionPoint time := by
  unfold floor at h
  split at h
  · cases h
  · next n hn =>
    have hi := ht.index_eq h
    have := s.number.pos
    rw [RevisionNumber.index] at hi
    omega

theorem Ordered.partitionPoint_of_floor_eq_none (ht : t.Ordered) (h : t.floor time = none) :
    t.partitionPoint time = 0 := by
  rw [ht.floor_eq_none_iff] at h
  refine Nat.le_zero.mp (Nat.le_of_not_lt fun hp => ?_)
  have hle := partitionPoint_le t time
  obtain ⟨u, hu⟩ : ∃ u, t.revisions[0]? = some u :=
    ⟨_, Array.getElem?_eq_getElem (by rw [size] at hle; omega)⟩
  exact Instant.not_le.mpr (h (ht.get?_number hu)) ((ht.time_le_iff hu).mpr hp)

/-- The closest revision is the floor, or else the one right behind the floor, or the first one
where there is no floor. -/
theorem Ordered.nearest_cases (ht : t.Ordered) {s : RevisionStamp} (h : t.nearest time = some s) :
    t.floor time = some s ∨ t.get? s.number = some s ∧
      ((∃ below, t.floor time = some below ∧ s.number = below.number.next) ∨
        t.floor time = none ∧ s.number = .first) := by
  unfold nearest at h
  split at h
  · next below above hbelow habove =>
    split at h
    · obtain rfl := Option.some.inj h
      exact .inl hbelow
    · obtain rfl := Option.some.inj h
      refine .inr ⟨ht.get?_number habove, .inl ⟨below, hbelow, ?_⟩⟩
      apply RevisionNumber.index_injective
      rw [ht.index_eq habove, RevisionNumber.index_next, ht.val_floor hbelow]
  · next below hbelow _ =>
    exact .inl (hbelow.trans h)
  · next above hnone =>
    refine .inr ⟨ht.get?_number h, .inr ⟨hnone, ?_⟩⟩
    apply RevisionNumber.index_injective
    rw [ht.index_eq h, ht.partitionPoint_of_floor_eq_none hnone, RevisionNumber.index_first]

/-- Where no revision is the closest one, none is the floor. -/
theorem floor_eq_none_of_nearest_eq_none (h : t.nearest time = none) : t.floor time = none := by
  unfold nearest at h
  split at h
  · split at h <;> cases h
  · cases h
  · assumption

end AsOf.Timeline
