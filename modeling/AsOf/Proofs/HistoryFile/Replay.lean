import AsOf.Proofs.Collection.Add
import AsOf.Proofs.HistoryFile.Contents

/-!
# Replaying is faithful

A resource is replayed with one write transaction, which never leaves the latest revision and inserts at
the document root only. So its tree is flat and holds the nodes that were listed so far, and since the
clock is set to times that are in order, every revision is sealed at the time that was listed.

## Main definitions

* `Resource.Replaying`: a resource while it is replayed
* `Resource.IsReplayOf`, `Store.IsReplayOf`: a resource, and a store, as they were listed

## Main results

* `Resource.Replaying.runScript`: what sealing one listed revision does
* `HistoryFile.addListed_of_inOrder`: what replaying one resource does
* `replay_tells_file`: when a file can be replayed, what is said if it cannot, and what comes of it
-/

namespace AsOf

/-- A transaction with the cursor on the last node of a flat tree. -/
def Transaction.listing (base : RevisionStamp) (kinds : List NodeKind) : Transaction :=
  { base, tree := .flat kinds, cursor := kinds.length }

theorem Instant.latest_of_le {now time : Instant} (h : time ≤ now) : now.latest time = now := by
  unfold latest
  split
  · next h' => exact le_antisymm h h'
  · rfl

namespace Resource

variable {r r' : Resource} {handle : Nat} {t : Transaction} {now : Instant} {base : RevisionStamp}
  {kinds : List NodeKind} {l : ListedResource} {v : ListedRevision} {lookup : LookupPolicy}

/-! ## Inserting at the root -/

/-- A node that is inserted at the root is the next one of a flat tree. -/
theorem runScript_insert (live : r.liveWriter handle = .ok (.listing base kinds)) (kind : NodeKind)
    (rest : List Edit) :
    r.runScript handle now (.toRoot :: .insert kind :: rest) =
      (r.setWriter handle (.listing base (kinds ++ [kind]))).runScript handle now rest := by
  let atRoot : Transaction := { base, tree := .flat kinds }
  have hmove : (Transaction.listing base kinds).moveTo rootKey = .ok atRoot :=
    Transaction.moveTo_of_contains rfl (Tree.contains_flat.mpr (Nat.zero_le _))
  have hroot : r.edit handle now .toRoot = .ok (.done, r.setWriter handle atRoot) := by
    rw [edit_toRoot live, hmove]
    rfl
  have live' : (r.setWriter handle atRoot).liveWriter handle = .ok atRoot :=
    liveWriter_setWriter live rfl
  have hlength : (kinds ++ [kind]).length = kinds.length + 1 := List.length_append
  have hgrow : atRoot.insert kind = .ok (kinds.length + 1, .listing base (kinds ++ [kind])) := by
    simp only [Transaction.insert, Transaction.ensureOpen, atRoot, Tree.append_flat,
      Transaction.listing, hlength]
    rfl
  have hinsert : (r.setWriter handle atRoot).edit handle now (.insert kind) = .ok
      (.key (kinds.length + 1), r.setWriter handle (.listing base (kinds ++ [kind]))) := by
    rw [edit_insert live', hgrow, Except.map, setWriter_setWriter]
  rw [runScript, hroot]
  simp only [runScript, hinsert, Edit.clockBehind]

/-- Nodes that are inserted at the root are the next ones of a flat tree. -/
theorem runScript_inserts (live : r.liveWriter handle = .ok (.listing base kinds))
    (added : List NodeKind) (rest : List Edit) :
    r.runScript handle now ((added.flatMap fun kind => [.toRoot, .insert kind]) ++ rest) =
      (r.setWriter handle (.listing base (kinds ++ added))).runScript handle now rest := by
  induction added generalizing r kinds with
  | nil =>
    rw [List.append_nil, setWriter_self (liveWriter_eq_ok_iff.mp live).1, List.flatMap_nil,
      List.nil_append]
  | cons kind added ih =>
    simp only [List.flatMap_cons, List.cons_append, List.nil_append]
    rw [runScript_insert live, ih (liveWriter_setWriter live rfl), setWriter_setWriter,
      List.append_assoc, List.singleton_append]

/-! ## Sealing revisions -/

/-- The listed revisions are sealed, and the write transaction goes on from the last of them. -/
structure Replaying (r : Resource) (l : ListedResource) (lookup : LookupPolicy) (handle : Nat) :
    Prop where
  writing : r.Writing handle
  name_eq : r.name = l.name
  lookup_eq : r.lookup = lookup
  entries : r.history.entries = l.entries
  latest : r.history.latest = ⟨⟨l.revisions.length + 1, Nat.succ_pos _⟩, l.lastTime⟩
  live : r.liveWriter handle = .ok (.listing r.history.latest l.nodes)
  tally : r.tally = { writeOpened := 1, commits := l.revisions.length }

/-- A new resource with its first write transaction. -/
theorem exists_replaying (l : ListedResource) (lookup : LookupPolicy) :
    ∃ r, (create l.name lookup l.created).startWriter = .ok (0, r) ∧
      r.Replaying ⟨l.name, l.created, []⟩ lookup 0 := by
  have hstart : (create l.name lookup l.created).startWriter =
      .ok (0, (create l.name lookup l.created).opened .new) := rfl
  exact ⟨_, hstart,
    { writing := writing_of_startWriter hstart
      name_eq := rfl
      lookup_eq := rfl
      entries := rfl
      latest := rfl
      live := rfl
      tally := rfl }⟩

/-- One more listed revision is sealed. -/
theorem Replaying.runScript (h : r.Replaying l lookup handle) (now : Instant)
    (hle : l.lastTime ≤ v.time) :
    ∃ r', r.runScript handle now v.script = (.ok (), r', v.time) ∧
      r'.Replaying (l.more v) lookup handle := by
  let grown := r.setWriter handle (.listing r.history.latest (l.nodes ++ v.nodes))
  have live : grown.liveWriter handle = .ok _ := liveWriter_setWriter h.live rfl
  -- The time is not before that of the latest revision, so it is taken as it is.
  have hnext : grown.history.nextStamp v.time =
      ⟨⟨l.revisions.length + 2, Nat.succ_pos _⟩, v.time⟩ := by
    show r.history.nextStamp v.time = _
    rw [History.nextStamp, h.latest, Instant.latest_of_le hle]
    rfl
  let sealed :=
    grown.committed handle (.listing r.history.latest (l.nodes ++ v.nodes)) v.time
  have hcommit : grown.edit handle v.time .commit =
      .ok (.revision (grown.history.nextStamp v.time).number, sealed) :=
    except_bind_eq_ok_iff.mpr ⟨_, commit_eq_ok_iff.mpr ⟨_, live, rfl, rfl⟩, rfl⟩
  have hscript : r.runScript handle now v.script = (.ok (), sealed, v.time) := by
    rw [ListedRevision.script, List.cons_append, Resource.runScript]
    show r.runScript handle v.time _ = _
    rw [runScript_inserts h.live]
    simp only [Resource.runScript]
    rw [show (r.setWriter handle _).edit handle v.time .commit = _ from hcommit]
    rfl
  -- Sealing goes on with a transaction on the new revision, which has all nodes up to it.
  obtain ⟨hwriting, hname⟩ := h.writing.runScript hscript
  refine ⟨_, hscript, ?_⟩
  have hlatest : sealed.history.latest =
      ⟨⟨l.revisions.length + 2, Nat.succ_pos _⟩, v.time⟩ := hnext
  have hlength : (l.more v).revisions.length = l.revisions.length + 1 := List.length_append
  exact
    { writing := hwriting
      name_eq := hname.trans h.name_eq
      lookup_eq := h.lookup_eq
      entries := by
        rw [ListedResource.entries_more, ListedResource.nodes_more, ← h.entries, ← hnext]
        exact h.writing.sound.history.entries_append _ _
      latest := by
        rw [hlatest]
        simp only [hlength, ListedResource.lastTime_more]
      live := by
        rw [ListedResource.nodes_more, hlatest, ← hnext]
        exact liveWriter_setWriter (r := { grown with history := _, tally := _ }) live rfl
      tally := by
        show ({ r.tally with commits := r.tally.commits + 1 } : ResourceTally) = _
        rw [h.tally, hlength] }

/-- The resource has the revisions that were listed, at the times and with the nodes that were listed.
Its one write transaction is closed, and nobody has read it. -/
structure IsReplayOf (r : Resource) (l : ListedResource) (lookup : LookupPolicy) : Prop where
  sound : r.Sound
  name_eq : r.name = l.name
  lookup_eq : r.lookup = lookup
  entries : r.history.entries = l.entries
  size_eq : r.history.size = l.revisions.length + 1
  running : r.running = none
  tally : r.tally = { writeOpened := 1, writeClosed := 1, commits := l.revisions.length }

/-- A resource whose write transaction is closed behind the last listed revision. -/
theorem Replaying.endWriter (h : r.Replaying l lookup handle) :
    r.endWriter.2.IsReplayOf l lookup := by
  have hended : r.endWriter.2 = r.ended handle := by
    simp only [Resource.endWriter, h.writing.running]
    rfl
  rw [hended]
  exact
    { sound := h.writing.sound.ended h.writing.running
      name_eq := h.name_eq
      lookup_eq := h.lookup_eq
      entries := h.entries
      size_eq := by
        rw [← l.length_entries, ← h.entries]
        exact h.writing.sound.history.length_entries.symm
      running := rfl
      tally := by
        show ({ r.tally with writeClosed := r.tally.writeClosed + 1 } : ResourceTally) = _
        rw [h.tally] }

end Resource

namespace HistoryFile

variable {f : HistoryFile} {l : ListedResource} {lookup : LookupPolicy} {s : Store} {w : WriterRef}
  {r : Resource} {e : CommandError}

/-! ## One resource in the store -/

theorem sealListed_cons_of_lt (name : String) (w : WriterRef) (s : Store) {previous : Instant}
    {v : ListedRevision} (hlt : v.time < previous) (rest : List ListedRevision) :
    sealListed name w s previous (v :: rest) = .error (backInTime name v.time) :=
  if_pos hlt

/-- One listed revision is sealed before the others. -/
theorem sealListed_cons (name : String) {v : ListedRevision} (hr : s.resource? w.resource = some r)
    (h : r.Replaying l lookup w.handle) (hle : l.lastTime ≤ v.time) (rest : List ListedRevision) :
    ∃ r', r'.Replaying (l.more v) lookup w.handle ∧
      sealListed name w s l.lastTime (v :: rest) =
        sealListed name w { s.setResource w.resource r' with clock := v.time } v.time rest := by
  obtain ⟨r', hscript, hreplaying⟩ := h.runScript s.clock hle
  refine ⟨r', hreplaying, ?_⟩
  rw [sealListed, if_neg (Instant.not_lt.mpr hle), Store.runScript_eq hr, hscript]

/-- Listed revisions that are in order are sealed before the others. -/
theorem sealListed_append (name : String) {before : List ListedRevision}
    (hr : s.resource? w.resource = some r)
    (h : r.Replaying ⟨l.name, l.created, []⟩ lookup w.handle)
    (horder : ListedResource.InOrder ⟨l.name, l.created, before⟩) (rest : List ListedRevision) :
    ∃ r' now, r'.Replaying ⟨l.name, l.created, before⟩ lookup w.handle ∧
      sealListed name w s l.created (before ++ rest) =
        sealListed name w { s.setResource w.resource r' with clock := now }
          (ListedResource.lastTime ⟨l.name, l.created, before⟩) rest := by
  -- The induction takes off the last of the revisions before, which is sealed in front of the rest.
  induction before using List.reverseRecOn generalizing rest with
  | nil => exact ⟨r, s.clock, h, by rw [Store.setResource_self hr]; rfl⟩
  | append_singleton before v ih =>
    have hmore : (⟨l.name, l.created, before ++ [v]⟩ : ListedResource) =
      .more ⟨l.name, l.created, before⟩ v := rfl
    rw [hmore] at horder ⊢
    obtain ⟨horder, hle⟩ := ListedResource.inOrder_more_iff.mp horder
    obtain ⟨r₁, now, h₁, hbefore⟩ := ih horder (v :: rest)
    have hr₁ : ({ s.setResource w.resource r₁ with clock := now } : Store).resource? w.resource =
        some r₁ := (Store.resource?_setResource hr r₁ w.resource).trans (if_pos rfl)
    obtain ⟨r₂, h₂, hone⟩ := sealListed_cons name hr₁ h₁ hle rest
    refine ⟨r₂, v.time, h₂, ?_⟩
    rw [List.append_assoc, List.singleton_append, hbefore, hone, ListedResource.lastTime_more,
      ← Store.setResource_setResource s w.resource r₁ r₂]
    rfl

/-- The times of a resource are in order, and all its revisions are sealed; or the first one that goes
back is refused. -/
theorem sealListed_eq_of_inOrder (name : String) (hr : s.resource? w.resource = some r)
    (h : r.Replaying ⟨l.name, l.created, []⟩ lookup w.handle) (horder : l.InOrder) :
    ∃ r' now, r'.Replaying l lookup w.handle ∧
      sealListed name w s l.created l.revisions =
        .ok { s.setResource w.resource r' with clock := now } := by
  obtain ⟨r', now, hreplaying, hseal⟩ := sealListed_append name hr h horder []
  rw [List.append_nil, sealListed] at hseal
  exact ⟨r', now, hreplaying, hseal⟩

theorem sealListed_eq_of_goesBackAt (name : String) (hr : s.resource? w.resource = some r)
    (h : r.Replaying ⟨l.name, l.created, []⟩ lookup w.handle) {time : Instant}
    (hback : l.GoesBackAt time) :
    sealListed name w s l.created l.revisions = .error (backInTime name time) := by
  obtain ⟨before, v, after, hsplit, rfl, horder, hnot⟩ := hback
  obtain ⟨r', now, -, hseal⟩ := sealListed_append name hr h horder (v :: after)
  have hlt : v.time < ListedResource.lastTime ⟨l.name, l.created, before⟩ :=
    Instant.not_le.mp fun hle => hnot (ListedResource.inOrder_more_iff.mpr ⟨horder, hle⟩)
  rw [hsplit, hseal, sealListed_cons_of_lt name w _ hlt after]

/-! ## The whole store -/

/-- The database that history files are replayed into, with the entries of their resources. -/
def replayed (f : HistoryFile) (lookup : LookupPolicy) : Database :=
  { name := "history"
    lookup
    entries := f.names.mapIdx fun i name => ⟨i, name, {}, i⟩
    nextId := f.resources.length }

theorem names_replayed (f : HistoryFile) (lookup : LookupPolicy) :
    (f.replayed lookup).names = f.names := by
  refine List.ext_getElem? fun i => ?_
  rw [Database.names, replayed, List.getElem?_map, List.getElem?_mapIdx, Option.map_map]
  exact Option.map_id'

theorem replayed_more (f : HistoryFile) (lookup : LookupPolicy) (l : ListedResource) :
    (f.more l).replayed lookup =
      (f.replayed lookup).extended l.name {} f.resources.length := by
  simp [replayed, Database.extended, more, List.mapIdx_append, names]

theorem find?_replayed_eq_none_iff {name : String} :
    (f.replayed lookup).find? name = none ↔ name ∉ f.names := by
  rw [Database.find?_eq_none_iff, names_replayed]

end HistoryFile

/-- The store has one database with the resources that were listed, as they were listed. -/
structure Store.IsReplayOf (s : Store) (f : HistoryFile) (lookup : LookupPolicy) : Prop where
  databases : s.databases = #[f.replayed lookup]
  size_resources : s.resources.size = f.resources.length
  resources : ∀ {place : Nat} {l : ListedResource}, f.resources[place]? = some l →
    ∃ r, s.resource? place = some r ∧ r.IsReplayOf l lookup

namespace Store

variable {s : Store} {f : HistoryFile} {l : ListedResource} {lookup : LookupPolicy} {place : Nat}
  {r : Resource}

theorem setResource_started (s : Store) (db : Nat) (d : Database) (name : String)
    (options : ResourceOptions) (r r' : Resource) (now now' : Instant) :
    { (s.started db d name options r now).setResource s.resources.size r' with clock := now' } =
      s.started db d name options r' now' := by
  simp only [started, setResource, Array.setIfInBounds_setIfInBounds]

theorem resource?_endWriter (hr : s.resource? place = some r) (k : Nat) :
    (s.endWriter place).resource? k = if k = place then some r.endWriter.2 else s.resource? k := by
  rw [resource?, endWriter, Array.getElem?_modify]
  by_cases hk : place = k
  · rw [if_pos hk, if_pos hk.symm, ← hk, show s.resources[place]? = some r from hr, Option.map_some]
  · rw [if_neg hk, if_neg (Ne.symm hk), resource?]

theorem isReplayOf_empty (lookup : LookupPolicy) :
    (HistoryFile.emptyStore lookup).IsReplayOf ⟨[]⟩ lookup :=
  ⟨rfl, rfl, fun h => nomatch h⟩

theorem IsReplayOf.database? (h : s.IsReplayOf f lookup) :
    s.database? HistoryFile.database = some (f.replayed lookup) := by
  rw [Store.database?, h.databases]
  rfl

theorem IsReplayOf.openDatabase (h : s.IsReplayOf f lookup) :
    s.openDatabase HistoryFile.database = .ok (f.replayed lookup) :=
  openDatabase_eq_ok_iff.mpr ⟨h.database?, rfl⟩

theorem IsReplayOf.names_eq (h : s.IsReplayOf f lookup) :
    s.names HistoryFile.database = f.names := by
  rw [names, h.database?, Option.elim_some, HistoryFile.names_replayed]

end Store

namespace HistoryFile

variable {s : Store} {f : HistoryFile} {l : ListedResource} {lookup : LookupPolicy} {e : CommandError}

theorem orRefused_bind_of_ok {α β : Type} {x : Except StoreError α} {a : α} (h : x = .ok a)
    (k : α → Except CommandError β) : orRefused x >>= k = k a := by
  rw [h]
  rfl

theorem orRefused_bind_of_error {α β : Type} {x : Except StoreError α} {reason : StoreError}
    (h : x = .error reason) (k : α → Except CommandError β) :
    orRefused x >>= k = .error (.ofStore reason) := by
  rw [h]
  rfl

/-- A resource whose name is in use is refused. -/
theorem addListed_of_mem (h : s.IsReplayOf f lookup) (htaken : l.name ∈ f.names) :
    addListed s l = .error (.ofStore (.resourceExists l.name)) := by
  have hfind : (f.replayed lookup).find? l.name ≠ none := fun hfree =>
    find?_replayed_eq_none_iff.mp hfree htaken
  have hcreate : { s with clock := l.created }.create database l.name {} =
      .error (.resourceExists l.name) := Store.create_of_taken h.openDatabase hfind
  exact orRefused_bind_of_error hcreate _

/-- A resource whose name is free gets a write transaction, with which its revisions are sealed. -/
theorem addListed_of_not_mem (h : s.IsReplayOf f lookup) (hfree : l.name ∉ f.names) :
    ∃ r, r.Replaying ⟨l.name, l.created, []⟩ lookup 0 ∧
      addListed s l = (sealListed l.name ⟨s.resources.size, 0⟩
        (Store.started { s with clock := l.created } database (f.replayed lookup) l.name {} r
          l.created) l.created l.revisions).map fun s' => s'.endWriter s.resources.size := by
  obtain ⟨r, hstart, hreplaying⟩ := Resource.exists_replaying l lookup
  refine ⟨r, hreplaying, ?_⟩
  let s' : Store := { s with clock := l.created }
  have hopen : s'.openDatabase database = .ok (f.replayed lookup) := h.openDatabase
  have hfind : (f.replayed lookup).find? l.name = none := find?_replayed_eq_none_iff.mpr hfree
  let created := s'.created database (f.replayed lookup) l.name {}
  have hcreate : s'.create database l.name {} = .ok created :=
    Store.create_eq_ok_iff.mpr ⟨_, hopen, hfind, rfl⟩
  have hlocate : created.locate database l.name = .ok s.resources.size :=
    Store.locate_created hopen hfind
  have hnew : created.resource? s.resources.size = some (.create l.name lookup l.created) :=
    (Store.resource?_created ..).trans (if_pos rfl)
  have hplace : (created.resource? s.resources.size).elim (.error .trxClosed) .ok =
      (.ok (.create l.name lookup l.created) : Except StoreError Resource) := by
    rw [hnew, Option.elim_some]
  refine (orRefused_bind_of_ok hcreate _).trans <| (orRefused_bind_of_ok hlocate _).trans <|
    (orRefused_bind_of_ok hplace _).trans <| (orRefused_bind_of_ok hstart _).trans ?_
  exact bind_pure_comp ..

/-- What came of the resources before is kept, and one more resource is there. -/
theorem isReplayOf_more {s' : Store} {r : Resource} {now : Instant} (h : s.IsReplayOf f lookup)
    (hr : r.Replaying l lookup 0)
    (hs' : s' = Store.started { s with clock := l.created } database (f.replayed lookup) l.name {} r
      now) :
    (s'.endWriter s.resources.size).IsReplayOf (f.more l) lookup := by
  have hresource (place : Nat) : s'.resource? place =
      if place = s.resources.size then some r else s.resource? place := by
    rw [hs', Store.resource?_started]
    rfl
  have hended := Store.resource?_endWriter ((hresource s.resources.size).trans (if_pos rfl))
  refine ⟨?_, ?_, fun {place u} hu => ?_⟩
  · rw [replayed_more, ← h.size_resources, hs']
    show s.databases.setIfInBounds 0 _ = _
    rw [h.databases]
    rfl
  · show (s'.resources.modify _ _).size = _
    rw [Array.size_modify, hs', more, List.length_append, ← h.size_resources]
    exact Array.size_setIfInBounds.trans (Array.size_push _)
  · rw [hended, hresource]
    split
    · next hplace =>
      rw [hplace, h.size_resources, more, List.getElem?_concat_length] at hu
      obtain rfl := Option.some.inj hu
      exact ⟨_, rfl, hr.endWriter⟩
    · next hplace =>
      rw [h.size_resources] at hplace
      rw [more, List.getElem?_append] at hu
      split at hu
      · exact h.resources hu
      · next hge =>
        have hlt := (List.getElem?_eq_some_iff.mp hu).1
        rw [List.length_singleton] at hlt
        omega

/-- A resource whose name is free and whose times are in order is replayed. -/
theorem addListed_of_inOrder (h : s.IsReplayOf f lookup) (hfree : l.name ∉ f.names)
    (horder : l.InOrder) : ∃ s', addListed s l = .ok s' ∧ s'.IsReplayOf (f.more l) lookup := by
  obtain ⟨r, hr, hadd⟩ := addListed_of_not_mem h hfree
  have hplace := Store.resource?_started { s with clock := l.created } database (f.replayed lookup)
    l.name {} r l.created s.resources.size
  obtain ⟨r', now, hr', hseal⟩ := sealListed_eq_of_inOrder l.name (w := ⟨s.resources.size, 0⟩)
    (hplace.trans (if_pos rfl)) hr horder
  rw [hseal] at hadd
  have hstarted := Store.setResource_started { s with clock := l.created } database
    (f.replayed lookup) l.name {} r r' l.created now
  exact ⟨_, hadd, isReplayOf_more h hr' hstarted⟩

/-- A resource with an obstacle is refused for it. -/
theorem addListed_of_obstacle (h : s.IsReplayOf f lookup) (hobstacle : Obstacle f.names l e) :
    addListed s l = .error e := by
  cases hobstacle with
  | taken htaken => exact addListed_of_mem h htaken
  | @backInTime time hfree hback =>
    obtain ⟨r, hr, hadd⟩ := addListed_of_not_mem h hfree
    have hplace := Store.resource?_started { s with clock := l.created } database
      (f.replayed lookup) l.name {} r l.created s.resources.size
    have hseal := sealListed_eq_of_goesBackAt l.name (w := ⟨s.resources.size, 0⟩)
      (hplace.trans (if_pos rfl)) hr hback
    rw [hadd, hseal]
    rfl

/-! ## The whole file -/

/-- A consistent file is replayed. -/
theorem Consistent.replay (h : f.Consistent) (lookup : LookupPolicy) :
    ∃ s, f.replay lookup = .ok s ∧ s.IsReplayOf f lookup := by
  obtain ⟨resources⟩ := f
  -- The invariant is that the store holds the resources before as they were listed.
  induction resources using List.reverseRecOn with
  | nil => exact ⟨_, rfl, Store.isReplayOf_empty lookup⟩
  | append_singleton before l ih =>
    obtain ⟨h, hfree, horder⟩ := consistent_more_iff.mp h
    obtain ⟨s, hreplay, hs⟩ := ih h
    obtain ⟨s', hadd, hs'⟩ := addListed_of_inOrder hs hfree horder
    refine ⟨s', ?_, hs'⟩
    rw [HistoryFile.replay, List.foldlM_append,
      show before.foldlM addListed (emptyStore lookup) = .ok s from hreplay]
    simp only [List.foldlM_cons, List.foldlM_nil, hadd, bind, Except.bind]
    rfl

/-- A file in which something stands in the way is refused for what comes first. -/
theorem FirstObstacle.replay (h : f.FirstObstacle e) (lookup : LookupPolicy) :
    f.replay lookup = .error e := by
  obtain ⟨before, l, after, hsplit, hconsistent, hobstacle⟩ := h
  obtain ⟨s, hreplay, hs⟩ := hconsistent.replay lookup
  have hadd := addListed_of_obstacle hs hobstacle
  rw [HistoryFile.replay, hsplit, List.foldlM_append,
    show before.foldlM addListed (emptyStore lookup) = .ok s from hreplay]
  simp only [List.foldlM_cons, hadd, bind, Except.bind]

/-- A file is replayed exactly if it is consistent. -/
theorem exists_replay_iff : (∃ s, f.replay lookup = .ok s) ↔ f.Consistent := by
  constructor
  · rintro ⟨s, hs⟩
    refine f.consistent_or_obstacle.resolve_right ?_
    rintro ⟨e, he⟩
    cases hs.symm.trans (he.replay lookup)
  · intro h
    obtain ⟨s, hs, -⟩ := h.replay lookup
    exact ⟨s, hs⟩

theorem replay_eq_error_iff : f.replay lookup = .error e ↔ f.FirstObstacle e := by
  refine ⟨fun he => ?_, fun h => h.replay lookup⟩
  rcases f.consistent_or_obstacle with h | ⟨e', h⟩
  · obtain ⟨s, hs, -⟩ := h.replay lookup
    cases he.symm.trans hs
  · obtain rfl := Except.error.inj (he.symm.trans (h.replay lookup))
    exact h

/-- A store that a file was replayed into holds what was listed. -/
theorem isReplayOf_of_replay (h : f.replay lookup = .ok s) : s.IsReplayOf f lookup := by
  obtain ⟨s', hs', hreplay⟩ := (exists_replay_iff.mp ⟨s, h⟩).replay lookup
  exact Except.ok.inj (hs'.symm.trans h) ▸ hreplay

/-- The name of a listed resource leads to its place in the list. -/
theorem locate_of_replay (h : f.replay lookup = .ok s) {place : Nat}
    (hl : f.resources[place]? = some l) : s.locate database l.name = .ok place := by
  have hnames := (exists_replay_iff.mp ⟨s, h⟩).names
  refine except_bind_eq_ok_iff.mpr ⟨_, (isReplayOf_of_replay h).openDatabase, ?_⟩
  have hname : f.names[place]? = some l.name := by rw [names, List.getElem?_map, hl, Option.map_some]
  have hentry : (f.replayed lookup).entries[place]? = some ⟨place, l.name, {}, place⟩ := by
    rw [replayed, List.getElem?_mapIdx, hname, Option.map_some]
  rw [Database.find?_of_mem ((names_replayed f lookup).symm ▸ hnames) (List.mem_of_getElem? hentry)]
  rfl

/-- No other name leads anywhere. -/
theorem locate_of_not_mem (h : s.IsReplayOf f lookup) {name : String} (hname : name ∉ f.names) :
    s.locate database name = .error (.resourceNotFound name) := by
  have hfind : (f.replayed lookup).find? name = none := find?_replayed_eq_none_iff.mpr hname
  rw [Store.locate, h.openDatabase]
  simp only [bind, Except.bind, hfind]

end HistoryFile

/-- **Replaying is faithful.** Take any history file and any policy. The file is replayed exactly if no
name is used twice in it and the times of each resource are in order, and otherwise it is refused for
what comes first in it: a name that is in use, or a revision that goes back in time. The resources of the
store are those of the file, in their order and under their names. Each has one revision more than are
listed, at the time of its creation and at the listed times, and the tree of a revision is the document
root with the nodes that were listed before it, in order, as children with the keys one, two and so on.
Its one write transaction was opened and closed, and every listed revision was committed. -/
theorem replay_tells_file (f : HistoryFile) (lookup : LookupPolicy) :
    ((∃ s, f.replay lookup = .ok s) ↔ f.Consistent) ∧
      (∀ e, f.replay lookup = .error e ↔ f.FirstObstacle e) ∧
      ∀ s, f.replay lookup = .ok s →
        s.names HistoryFile.database = f.names ∧ s.resources.size = f.resources.length ∧
        ∀ place l, f.resources[place]? = some l →
          s.locate HistoryFile.database l.name = .ok place ∧
          ∃ r, s.resource? place = some r ∧ r.IsReplayOf l lookup := by
  refine ⟨HistoryFile.exists_replay_iff, fun e => HistoryFile.replay_eq_error_iff, fun s hs => ?_⟩
  have h := HistoryFile.isReplayOf_of_replay hs
  exact ⟨h.names_eq, h.size_resources, fun place l hl =>
    ⟨HistoryFile.locate_of_replay hs hl, h.resources hl⟩⟩

end AsOf
