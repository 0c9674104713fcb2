import AsOf.Proofs.Collection.Add

/-!
# Ingestion is all or nothing

A new document is made of a new resource, and whatever goes wrong on the way, the resource is taken
away again: the database may be closed, the name in use, or the script may end before its end, at any
point and with any number of revisions sealed already. Since the name was free, the resource that is
found under it then is the new one, and since its id was never given before, no other entry is taken
off with it.

## Main definitions

* `Resource.Refuses`: a script ends before its end on a new resource
* `Collection.Declines`: why a collection makes no document under a name
* `Collection.LeavesAlone`: what becomes of the store if it makes none

## Main results

* `Collection.reports_make_of_refuses`: a resource that cannot be filled is taken away again
* `addAs_all_or_nothing`: when a document is made, and what is left if it is not
-/

namespace AsOf

open Observed

/-- The script ends before its end on the first write transaction of a new resource. -/
def Resource.Refuses (new : Resource) (now : Instant) (edits : List Edit) (reason : StoreError) :
    Prop :=
  ∃ handle r, new.startWriter = .ok (handle, r) ∧
    (r.runScript handle now (.toRoot :: edits)).1 = .error reason

theorem Resource.Accepts.not_refuses {new : Resource} {now : Instant} {edits : List Edit}
    {reason : StoreError} (h : new.Accepts now edits) : ¬new.Refuses now edits reason := by
  rintro ⟨handle', r', hstart', herror⟩
  obtain ⟨handle, r, hstart, hok⟩ := h
  cases hstart.symm.trans hstart'
  cases hok.symm.trans herror

/-- A new resource accepts a script or refuses it. -/
theorem Resource.accepts_or_refuses (name : String) (lookup : LookupPolicy) (created now : Instant)
    (edits : List Edit) : (create name lookup created).Accepts now edits ∨
      ∃ reason, (create name lookup created).Refuses now edits reason := by
  obtain ⟨tree, -, hstart⟩ := (sound_create name lookup created).exists_startWriter rfl
  cases hscript : (((create name lookup created).opened tree).runScript _ now (.toRoot :: edits)).1 with
  | ok => exact .inl ⟨_, _, hstart, hscript⟩
  | error reason => exact .inr ⟨reason, _, _, hstart, hscript⟩

namespace Collection

variable {s : Store} {c : Collection} {d : Database} {name : String} {edits : List Edit}
  {reason : StoreError}

/-- Why no document is made under a name: the database is closed, the name is in use, or the script
ends before its end. -/
inductive Declines (s : Store) (d : Database) (name : String) (edits : List Edit) : StoreError → Prop
  | closed (h : d.closed = true) : Declines s d name edits (.databaseClosed d.name)
  | taken (hopen : d.closed = false) (h : d.find? name ≠ none) :
      Declines s d name edits (.resourceExists name)
  | script {reason : StoreError} (hopen : d.closed = false) (hfree : d.find? name = none)
      (h : (Resource.create name d.lookup s.clock).Refuses s.clock edits reason) :
      Declines s d name edits reason

/-- All entries of all databases are as before, and so are all resources that were there. What was made
on the way is listed nowhere, and nothing can be written to it. -/
structure LeavesAlone (c : Collection) (s : Store) (d : Database) (s' : Store) : Prop where
  databases : ∃ nextId, d.nextId ≤ nextId ∧
    s'.databases = s.databases.setIfInBounds c.database { d with nextId }
  resources : ∀ place r, s.resource? place = some r → s'.resource? place = some r
  ended : ∀ place r, s.resource? place = none → s'.resource? place = some r → r.running = none

theorem leavesAlone_refl (hd : s.database? c.database = some d) : c.LeavesAlone s d s where
  databases := ⟨d.nextId, Nat.le_refl _, (setIfInBounds_self hd).symm⟩
  resources _ _ hr := hr
  ended _ _ hnone hr := by cases hnone.symm.trans hr

theorem create_of_closed (hd : s.database? c.database = some d) (hclosed : d.closed = true)
    (options : ResourceOptions) :
    s.create c.database name options = .error (.databaseClosed d.name) := by
  simp only [Store.create, Store.openDatabase, hd, Database.ensureOpen, hclosed, if_true, bind,
    Except.bind]

/-- A resource that is taken away again leaves everything else alone, whatever became of it. -/
theorem leavesAlone_removed (hids : ∀ entry ∈ d.entries, entry.id < d.nextId) (name : String)
    (options : ResourceOptions) (r : Resource) (now : Instant) :
    c.LeavesAlone s d ((s.started c.database d name options r now).removed c.database
      (d.extended name options s.resources.size) ⟨d.nextId, name, options, s.resources.size⟩) where
  databases := ⟨d.nextId + 1, Nat.le_succ _, Store.databases_removed_created hids rfl⟩
  resources k v hv := by
    have hne : k ≠ s.resources.size := Nat.ne_of_lt (Array.getElem?_eq_some_iff.mp hv).1
    rw [Store.resource?_removed, Store.resource?_started, if_neg hne, hv, Store.closings,
      List.filter_cons_of_neg (by simpa using Ne.symm hne)]
    rfl
  ended k v hnone hv := by
    rw [Store.resource?_removed, Store.resource?_started] at hv
    split at hv
    · next hk =>
      rw [Store.closings, List.filter_cons_of_pos (by simpa using hk.symm)] at hv
      obtain rfl := Option.some.inj hv
      exact Resource.running_endWriter r
    · rw [hnone] at hv
      cases hv

/-- What making a document does if the new resource refuses the script: the resource is taken away
again. -/
theorem reports_make_of_refuses (hids : ∀ entry ∈ d.entries, entry.id < d.nextId)
    (hopen : s.openDatabase c.database = .ok d) (hfree : d.find? name = none)
    (hrefuses : (Resource.create name d.lookup s.clock).Refuses s.clock edits reason) :
    ∃ s', c.LeavesAlone s d s' ∧
      Reports (make .none c name edits) s (.error reason) s' [.writeTrxOpened] := by
  obtain ⟨handle, r, hstart, hscript⟩ := hrefuses
  rcases hresult : r.runScript handle s.clock (.toRoot :: edits) with ⟨result, r', now⟩
  rw [hresult] at hscript
  subst hscript
  let options := c.settings.resource
  let u := s.started c.database d name options r' now
  have hfill : Reports (fill .none c name edits) (s.created c.database d name options)
      (.error reason) u [.writeTrxOpened] :=
    reports_fill rfl rfl hopen hfree hstart (Resource.runScript_append_of_error hresult _)
  have hremove : u.remove c.database name = .ok (true, u.removed c.database
      (d.extended name options s.resources.size) ⟨d.nextId, name, options, s.resources.size⟩) :=
    Store.remove_created hopen hfree rfl
  refine ⟨_, leavesAlone_removed hids name options r' now, ?_⟩
  have hundo : Reports (removeNamed .none c name) u (.ok true) _ [] :=
    (reports_ofExcept u (.ok ())).bind (reports_update hremove)
  have hfail (v : Store) : Reports (Action.fail reason : Action (Observed Store) StoreError Document) v
      (.error reason) v [] := reports_ofExcept v (.error reason)
  exact (reports_ofExcept s (.ok ())).bind <|
    (reports_update (Store.create_bind_eq_ok hopen hfree)).bind <|
    hfill.attempt.bind (hundo.bind (hfail _))

theorem Declines.not_accepts (h : Declines s d name edits reason) :
    ¬(d.closed = false ∧ d.find? name = none ∧
      (Resource.create name d.lookup s.clock).Accepts s.clock edits) := by
  rintro ⟨hopen, hfree, haccepts⟩
  cases h with
  | closed h => cases hopen.symm.trans h
  | taken _ h => exact h hfree
  | script _ _ h => exact haccepts.not_refuses h

/-- Making a document ends with the document, or with a reason why there is none. -/
theorem ingests_or_declines (hs : s.Listed) (hd : s.database? c.database = some d) (name : String)
    (edits : List Edit) :
    (∃ document s', (d.closed = false ∧ d.find? name = none ∧
        (Resource.create name d.lookup s.clock).Accepts s.clock edits) ∧
      c.Ingests s d name edits document s' ∧
      Reports (make .none c name edits) s (.ok document) s' [.writeTrxOpened]) ∨
    ∃ reason s' ks, Declines s d name edits reason ∧ c.LeavesAlone s d s' ∧ ks ⊆ [.writeTrxOpened] ∧
      Reports (make .none c name edits) s (.error reason) s' ks := by
  have hids : ∀ entry ∈ d.entries, entry.id < d.nextId := fun _ => hs.ids hd
  cases hclosed : d.closed with
  | true =>
    exact .inr ⟨_, s, [], .closed hclosed, leavesAlone_refl hd, List.nil_subset _,
      reports_make_of_refused (create_of_closed hd hclosed _)⟩
  | false =>
    have hopen := Store.openDatabase_eq_ok_iff.mpr ⟨hd, hclosed⟩
    by_cases hfree : d.find? name = none
    · rcases Resource.accepts_or_refuses name d.lookup s.clock s.clock edits with
        haccepts | ⟨reason, hrefuses⟩
      · obtain ⟨document, s', hingests, hmake⟩ := reports_make (c := c) hopen hfree haccepts
        exact .inl ⟨document, s', ⟨rfl, hfree, haccepts⟩, hingests, hmake⟩
      · obtain ⟨s', halone, hmake⟩ := reports_make_of_refuses (c := c) hids hopen hfree hrefuses
        exact .inr ⟨reason, s', _, .script hclosed hfree hrefuses, halone, List.Subset.refl _, hmake⟩
    · exact .inr ⟨_, s, [], .taken hclosed hfree, leavesAlone_refl hd, List.nil_subset _,
        reports_make_of_refused (Store.create_of_taken hopen hfree)⟩

end Collection

/-- **Ingestion is all or nothing.** Take any store that arose from an empty one, any collection over one
of its databases, any name and any script. A document is made exactly if the database is open, no
resource has the name, and the script runs to its end on the new resource. Then one resource is new,
under an id that the database never gave before, with all that `Collection.Ingests` says of it and of the
document. If no document is made, the failure carries the name and the reason, and the store is left
alone. Either way, one thing is counted: a document or a failure. -/
theorem addAs_all_or_nothing (clock : Instant) (events : List StoreEvent) (c : Collection)
    {d : Database} (name : String) (edits : List Edit) (counters : Counters) (j : Journal) :
    let s := Store.run { clock } events
    s.database? c.database = some d →
    let answer := c.addAs .none name edits ⟨s, counters, j⟩
    ((∃ document, answer.1 = .ok document) ↔ d.closed = false ∧ d.find? name = none ∧
        (Resource.create name d.lookup s.clock).Accepts s.clock edits) ∧
      (∀ document, answer.1 = .ok document →
        c.Ingests s d name edits document answer.2.state ∧
        (∀ before, before <+: events → ∀ u, (Store.run { clock } before).database? c.database = some u →
          ∀ entry ∈ u.entries, entry.id < d.nextId) ∧
        answer.2.counters.documentsAdded = counters.documentsAdded + 1 ∧
        answer.2.counters.ingestionFailures = counters.ingestionFailures) ∧
      ∀ e, answer.1 = .error e → ∃ reason, e = .ingestion name reason ∧
        Collection.Declines s d name edits reason ∧ c.LeavesAlone s d answer.2.state ∧
        answer.2.counters.documentsAdded = counters.documentsAdded ∧
        answer.2.counters.ingestionFailures = counters.ingestionFailures + 1 := by
  intro s hd answer
  have hs : s.Listed := Store.listed_run clock events
  rcases Collection.ingests_or_declines (c := c) hs hd name edits with
    ⟨document, s', hmakes, hingests, hmake⟩ | ⟨reason, s', ks, hdeclines, halone, hks, hmake⟩
  · obtain ⟨written, hdoes⟩ := Collection.does_addAs hmake
    have hanswer : answer = (.ok document, ⟨s', _, _⟩) := hdoes counters j
    have hcount (k : Counter) := counters.get_countAll ([.writeTrxOpened] ++ [.documentsAdded]) k
    rw [hanswer]
    refine ⟨⟨fun _ => hmakes, fun _ => ⟨document, rfl⟩⟩, fun other hother => ?_, fun e he => ?_⟩
    · cases hother
      refine ⟨hingests, ?_, hcount .documentsAdded, hcount .ingestionFailures⟩
      rintro before ⟨after, hevents⟩ u hu entry hentry
      obtain ⟨d', hd', hle⟩ := Store.nextId_le_run hu after
      rw [← Store.run_append, hevents] at hd'
      obtain rfl := Option.some.inj (hd'.symm.trans hd)
      exact Nat.lt_of_lt_of_le ((Store.listed_run clock before).ids hu hentry) hle
    · cases he
  · obtain ⟨written, hdoes⟩ := Collection.does_addAs_of_error hmake
    have hanswer : answer = (.error (.ingestion name reason), ⟨s', _, _⟩) := hdoes counters j
    have hcount (k : Counter) (hk : k ≠ .writeTrxOpened) : (counters.countAll
        (ks ++ [.ingestionFailures])).get k = counters.get k + [.ingestionFailures].count k := by
      rw [Counters.get_countAll, List.count_append,
        List.count_eq_zero_of_not_mem fun h => hk (List.mem_singleton.mp (hks h)), Nat.zero_add]
    rw [hanswer]
    refine ⟨⟨?_, fun h => absurd h hdeclines.not_accepts⟩, fun document hdocument => ?_,
      fun e he => ?_⟩
    · rintro ⟨document, hdocument⟩
      cases hdocument
    · cases hdocument
    · cases he
      exact ⟨reason, rfl, hdeclines, halone, hcount .documentsAdded (by decide),
        hcount .ingestionFailures (by decide)⟩

/-- A collection over an empty database makes a document of a script that commits once. -/
theorem addAs_to_empty_database :
    let s := Store.run { clock := .epoch } [.addDatabase "log" .floor]
    let c : Collection := { id := 1, name := "log", database := 0 }
    let edits := [Edit.insert (.text "draft"), .commit]
    s.database? c.database = some { name := "log", lookup := .floor } ∧
      (Resource.create "page" .floor s.clock).Accepts s.clock edits ∧
      ∃ document, (c.addAs .none "page" edits ⟨s, {}, {}⟩).1 = .ok document := by
  intro s c edits
  have hd : s.database? c.database = some { name := "log", lookup := .floor } := rfl
  have haccepts : (Resource.create "page" .floor s.clock).Accepts s.clock edits := ⟨0, _, rfl, rfl⟩
  have hadd := addAs_all_or_nothing .epoch [.addDatabase "log" .floor] c "page" edits {} {} hd
  exact ⟨hd, haccepts, hadd.1.mpr ⟨rfl, rfl, haccepts⟩⟩

end AsOf
