import AsOf.HistoryFile.Replay
import AsOf.Proofs.Time.RoundTrip
import AsOf.Proofs.Tree.Arising
import Mathlib.Data.List.Induction

/-!
# What history files declare

A history file is read as a declaration of revisions, at times that a clock shows.

## Main definitions

* `ListedResource.times`, `ListedResource.nodes`, `ListedResource.entries`: the times, nodes and
  revisions that are declared for a resource
* `ListedResource.InOrder`, `ListedResource.GoesBackAt`: times in order, and the first one that is not
* `HistoryFile.Consistent`, `HistoryFile.FirstObstacle`: files that can be replayed, and what comes first
  in those that cannot

## Main results

* `ListedResource.inOrder_or_goesBackAt`, `HistoryFile.consistent_or_obstacle`: one or the other
* `ListedResource.entries_more`: one more listed revision is one more entry
* `HistoryFile.onClock_of_read?`: the times of a file that was read
-/

namespace AsOf

/-! ## What history files list

A history file is read as a declaration: each resource has one revision more than are listed, the first
of them empty, and the tree of each is flat and holds the nodes that were listed up to it. Such a
declaration can be replayed if no name is used twice and the times of each resource are in order;
otherwise something in it comes first that stands in the way. -/

/-! ### One resource -/

namespace ListedResource

/-- The resource with one more listed revision. -/
def more (l : ListedResource) (v : ListedRevision) : ListedResource :=
  { l with revisions := l.revisions ++ [v] }

/-- The resource with the first listed revisions only. -/
def upTo (l : ListedResource) (n : Nat) : ListedResource :=
  { l with revisions := l.revisions.take n }

/-- When the revisions were sealed: at the creation, and at the listed times. -/
def times (l : ListedResource) : List Instant := l.created :: l.revisions.map (·.time)

/-- The time of the last revision. -/
def lastTime (l : ListedResource) : Instant := l.revisions.getLast?.elim l.created (·.time)

/-- All listed nodes. -/
def nodes (l : ListedResource) : List NodeKind := l.revisions.flatMap (·.nodes)

/-- The revisions with their trees: the one at position `i` has the nodes of the first `i` listed
revisions. -/
def entries (l : ListedResource) : List (RevisionStamp × Tree) :=
  l.times.mapIdx fun i time => (⟨⟨i + 1, Nat.succ_pos i⟩, time⟩, .flat (l.upTo i).nodes)

/-- The times never decrease. -/
def InOrder (l : ListedResource) : Prop := l.times.Pairwise (· ≤ ·)

/-- The times are in order up to a listed revision at the given time, and not with it. -/
def GoesBackAt (l : ListedResource) (time : Instant) : Prop :=
  ∃ before v after, l.revisions = before ++ v :: after ∧ v.time = time ∧
    InOrder { l with revisions := before } ∧ ¬InOrder { l with revisions := before ++ [v] }

variable {l : ListedResource} {v : ListedRevision}

@[simp]
theorem length_times (l : ListedResource) : l.times.length = l.revisions.length + 1 := by
  simp [times]

theorem times_more (l : ListedResource) (v : ListedRevision) :
    (l.more v).times = l.times ++ [v.time] := by
  simp [times, more]

@[simp]
theorem lastTime_more (l : ListedResource) (v : ListedRevision) : (l.more v).lastTime = v.time := by
  simp [lastTime, more]

theorem nodes_more (l : ListedResource) (v : ListedRevision) :
    (l.more v).nodes = l.nodes ++ v.nodes := by
  simp [nodes, more]

theorem length_entries (l : ListedResource) : l.entries.length = l.revisions.length + 1 := by
  simp [entries]

theorem getElem?_entries (l : ListedResource) (i : Nat) :
    l.entries[i]? = l.times[i]?.map fun time =>
      (⟨⟨i + 1, Nat.succ_pos i⟩, time⟩, .flat (l.upTo i).nodes) :=
  List.getElem?_mapIdx

/-- One more listed revision is one more entry. -/
theorem entries_more (l : ListedResource) (v : ListedRevision) :
    (l.more v).entries = l.entries ++
      [(⟨⟨l.revisions.length + 2, Nat.succ_pos _⟩, v.time⟩, .flat (l.more v).nodes)] := by
  have hbefore {i : Nat} (hi : i ≤ l.revisions.length) : (l.more v).upTo i = l.upTo i := by
    simp only [upTo, more, List.take_append_of_le_length hi]
  have hall : (l.more v).upTo (l.revisions.length + 1) = l.more v := by
    rw [upTo, List.take_of_length_le (Nat.le_of_eq (by simp [more]))]
  rw [entries, times_more, List.mapIdx_append, entries]
  congr 1
  · refine List.mapIdx_eq_mapIdx_iff.mpr fun i hi => ?_
    rw [length_times, Nat.lt_succ_iff] at hi
    rw [hbefore hi]
  · simp only [List.mapIdx_cons, List.mapIdx_nil, Nat.zero_add, length_times, hall]

/-! ### Times in order -/

theorem inOrder_nil (name : String) (created : Instant) : InOrder ⟨name, created, []⟩ :=
  List.pairwise_singleton _ created

/-- No time lies behind the last one. -/
theorem InOrder.le_lastTime (h : l.InOrder) {time : Instant} (ht : time ∈ l.times) :
    time ≤ l.lastTime := by
  obtain ⟨name, created, revisions⟩ := l
  rcases List.eq_nil_or_concat revisions with rfl | ⟨before, v, rfl⟩
  · obtain rfl := List.mem_singleton.mp ht
    exact Instant.le_refl _
  · rw [List.concat_eq_append] at h ht ⊢
    have htimes := times_more ⟨name, created, before⟩ v
    rw [more] at htimes
    rw [InOrder, htimes, List.pairwise_append] at h
    rw [htimes, List.mem_append] at ht
    have hlast := lastTime_more ⟨name, created, before⟩ v
    rw [more] at hlast
    rw [hlast]
    rcases ht with ht | ht
    · exact h.2.2 _ ht _ (List.mem_singleton_self _)
    · exact List.mem_singleton.mp ht ▸ Instant.le_refl _

theorem lastTime_mem_times (l : ListedResource) : l.lastTime ∈ l.times := by
  obtain ⟨name, created, revisions⟩ := l
  rcases List.eq_nil_or_concat revisions with rfl | ⟨before, v, rfl⟩
  · exact List.mem_singleton_self _
  · simp [lastTime, times]

/-- One more revision keeps the times in order exactly if it does not lie before the last one. -/
theorem inOrder_more_iff : (l.more v).InOrder ↔ l.InOrder ∧ l.lastTime ≤ v.time := by
  rw [InOrder, times_more, List.pairwise_append]
  constructor
  · rintro ⟨h, -, hle⟩
    exact ⟨h, hle _ l.lastTime_mem_times _ (List.mem_singleton_self _)⟩
  · rintro ⟨h, hle⟩
    refine ⟨h, List.pairwise_singleton _ _, fun time ht time' ht' => ?_⟩
    rw [List.mem_singleton.mp ht']
    exact Instant.le_trans (InOrder.le_lastTime h ht) hle

/-- The times are in order, or there is a first one that goes back. -/
theorem inOrder_or_goesBackAt (l : ListedResource) : l.InOrder ∨ ∃ time, l.GoesBackAt time := by
  obtain ⟨name, created, revisions⟩ := l
  -- What goes back first in the revisions before the last one still does with it.
  induction revisions using List.reverseRecOn with
  | nil => exact .inl (inOrder_nil name created)
  | append_singleton before v ih =>
    rcases ih with h | ⟨time, before', w, after, hsplit, htime, h, hnot⟩
    · by_cases hv : InOrder ⟨name, created, before ++ [v]⟩
      · exact .inl hv
      · exact .inr ⟨v.time, before, v, [], rfl, rfl, h, hv⟩
    · refine .inr ⟨time, before', w, after ++ [v], ?_, htime, h, hnot⟩
      show before ++ [v] = _
      rw [show before = before' ++ w :: after from hsplit, List.append_assoc, List.cons_append]

end ListedResource

/-! ### The whole file -/

namespace HistoryFile

/-- The file with one more resource. -/
def more (f : HistoryFile) (l : ListedResource) : HistoryFile := ⟨f.resources ++ [l]⟩

/-- The names of the resources. -/
def names (f : HistoryFile) : List String := f.resources.map (·.name)

/-- No name is used twice, and the times of every resource are in order. -/
structure Consistent (f : HistoryFile) : Prop where
  names : f.names.Nodup
  inOrder : ∀ l ∈ f.resources, l.InOrder

/-- What is wrong with a resource, given the names that are in use: its own name is one of them, or a
revision goes back in time. A name in use comes first. -/
inductive Obstacle (inUse : List String) (l : ListedResource) : CommandError → Prop
  | taken (h : l.name ∈ inUse) : Obstacle inUse l (.ofStore (.resourceExists l.name))
  | backInTime {time : Instant} (hfree : l.name ∉ inUse) (h : l.GoesBackAt time) :
      Obstacle inUse l (backInTime l.name time)

/-- What is wrong with the first resource that stands in the way. -/
def FirstObstacle (f : HistoryFile) (e : CommandError) : Prop :=
  ∃ before l after, f.resources = before ++ l :: after ∧ Consistent ⟨before⟩ ∧
    Obstacle (names ⟨before⟩) l e

variable {f : HistoryFile} {l : ListedResource}

theorem names_more (f : HistoryFile) (l : ListedResource) : (f.more l).names = f.names ++ [l.name] :=
  List.map_append

theorem consistent_nil : Consistent ⟨[]⟩ := ⟨List.nodup_nil, fun _ h => nomatch h⟩

theorem consistent_more_iff :
    (f.more l).Consistent ↔ f.Consistent ∧ l.name ∉ f.names ∧ l.InOrder := by
  constructor
  · rintro ⟨hnames, horder⟩
    rw [names_more, List.nodup_append] at hnames
    refine ⟨⟨hnames.1, fun u hu => horder u (List.mem_append_left _ hu)⟩, fun h => ?_, ?_⟩
    · exact hnames.2.2 _ h _ (List.mem_singleton_self _) rfl
    · exact horder l (List.mem_append_right _ (List.mem_singleton_self l))
  · rintro ⟨⟨hnames, horder⟩, hfree, hl⟩
    refine ⟨?_, fun u hu => ?_⟩
    · rw [names_more, List.nodup_append]
      refine ⟨hnames, List.pairwise_singleton _ _, fun name hname other hother => ?_⟩
      rw [List.mem_singleton.mp hother]
      rintro rfl
      exact hfree hname
    · rcases List.mem_append.mp hu with hu | hu
      · exact horder u hu
      · exact List.mem_singleton.mp hu ▸ hl

/-- A file is consistent, or something in it comes first that stands in the way. -/
theorem consistent_or_obstacle (f : HistoryFile) : f.Consistent ∨ ∃ e, f.FirstObstacle e := by
  obtain ⟨resources⟩ := f
  induction resources using List.reverseRecOn with
  | nil => exact .inl consistent_nil
  | append_singleton before l ih =>
    rcases ih with h | ⟨e, before', u, after, hsplit, h, hobstacle⟩
    · by_cases hfree : l.name ∈ names ⟨before⟩
      · exact .inr ⟨_, before, l, [], rfl, h, .taken hfree⟩
      · rcases l.inOrder_or_goesBackAt with horder | ⟨time, hback⟩
        · exact .inl (consistent_more_iff.mpr ⟨h, hfree, horder⟩)
        · exact .inr ⟨_, before, l, [], rfl, h, .backInTime hfree hback⟩
    · refine .inr ⟨e, before', u, after ++ [l], ?_, h, hobstacle⟩
      show before ++ [l] = _
      rw [show before = before' ++ u :: after from hsplit, List.append_assoc, List.cons_append]

end HistoryFile

/-! ## The times in history files

Every time that a history file lists was read from a text, so it is one that a clock shows. -/

/-- What is read item by item was read from some item each. -/
theorem exists_of_mem_mapM {α β : Type} {f : α → Option β} {xs : List α} {ys : List β}
    (h : xs.mapM f = some ys) {y : β} (hy : y ∈ ys) : ∃ x ∈ xs, f x = some y := by
  induction xs generalizing ys with
  | nil =>
    cases h
    cases hy
  | cons x xs ih =>
    rw [List.mapM_cons] at h
    obtain ⟨z, hz, h⟩ := Option.bind_eq_some_iff.mp h
    obtain ⟨zs, hzs, h⟩ := Option.bind_eq_some_iff.mp h
    obtain rfl := Option.some.inj h
    rcases List.mem_cons.mp hy with rfl | hy
    · exact ⟨x, List.mem_cons_self, hz⟩
    · obtain ⟨x', hx', hfx'⟩ := ih hzs hy
      exact ⟨x', List.mem_cons_of_mem x hx', hfx'⟩

namespace Json

variable {value : Json}

theorem exists_of_mem_list? {α : Type} {item? : Json → Option α} {xs : List α}
    (h : value.list? item? = some xs) {x : α} (hx : x ∈ xs) : ∃ item, item? item = some x := by
  unfold list? at h
  split at h
  · obtain ⟨item, -, hitem⟩ := exists_of_mem_mapM h hx
    exact ⟨item, hitem⟩
  · cases h

theorem exists_of_mem_listOrNone? {α : Type} {item? : Json → Option α} {xs : List α}
    {value : Option Json} (h : listOrNone? item? value = some xs) {x : α} (hx : x ∈ xs) :
    ∃ item, item? item = some x := by
  cases value with
  | none =>
    cases h
    cases hx
  | some value => exact exists_of_mem_list? h hx

theorem onClock_of_instant? {t : Instant} (h : value.instant? = some t) : t.OnClock := by
  obtain ⟨text, -, h⟩ := Option.bind_eq_some_iff.mp h
  exact Instant.onClock_of_readLenient? h

theorem onClock_of_listedRevision? {v : ListedRevision} (h : value.listedRevision? = some v) :
    v.time.OnClock := by
  unfold listedRevision? at h
  simp only [Option.bind_eq_bind, Option.bind_eq_some_iff] at h
  obtain ⟨fields, -, h⟩ := h
  split at h
  · simp only [Option.bind_eq_some_iff] at h
    obtain ⟨time, htime, nodes, -, h⟩ := h
    obtain rfl := Option.some.inj h
    exact onClock_of_instant? htime
  · cases h

theorem onClock_of_listedResource? {l : ListedResource} (h : value.listedResource? = some l)
    {t : Instant} (ht : t ∈ l.times) : t.OnClock := by
  unfold listedResource? at h
  simp only [Option.bind_eq_bind, Option.bind_eq_some_iff] at h
  obtain ⟨fields, -, h⟩ := h
  split at h
  · simp only [Option.bind_eq_some_iff] at h
    obtain ⟨name, -, created, hcreated, revisions, hrevisions, h⟩ := h
    obtain rfl := Option.some.inj h
    rcases List.mem_cons.mp ht with rfl | ht
    · exact onClock_of_instant? hcreated
    · obtain ⟨v, hv, rfl⟩ := List.mem_map.mp ht
      obtain ⟨item, hitem⟩ := exists_of_mem_listOrNone? hrevisions hv
      exact onClock_of_listedRevision? hitem
  · cases h

end Json

/-- The times of a file that was read are those that a clock shows. -/
theorem HistoryFile.onClock_of_read? {text : String} {f : HistoryFile} (h : read? text = some f)
    {l : ListedResource} (hl : l ∈ f.resources) {t : Instant} (ht : t ∈ l.times) : t.OnClock := by
  obtain ⟨value, -, h⟩ := Option.bind_eq_some_iff.mp h
  unfold Json.historyFile? at h
  obtain ⟨fields, -, h⟩ := Option.bind_eq_some_iff.mp h
  split at h
  · obtain ⟨resources, hresources, h⟩ := Option.bind_eq_some_iff.mp h
    obtain rfl := Option.some.inj h
    obtain ⟨item, hitem⟩ := Json.exists_of_mem_list? hresources hl
    exact Json.onClock_of_listedResource? hitem ht
  · cases h

end AsOf
