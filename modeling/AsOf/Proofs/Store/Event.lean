import AsOf.Proofs.Resource.Lineage
import AsOf.Store.Database

/-!
# Runs of a store

Whatever is done to a store, it is done by one event after the other: its clock is set, a database is
added, a resource is created or removed, a database is cleared or closed, or something happens to one
resource, which then reads the clock of the store. An event that is refused leaves the store as it is.

Seen from one resource, a run of the store is a run of the resource: what happens to others does not
concern it, and being removed, cleared away or closed is the end of its write transaction.

## Main definitions

* `StoreEvent`, `Store.after`, `Store.run`: an event, the store after it, and the store after a run
* `StoreEvent.IsCommit`, `StoreEvent.Opens`, `StoreEvent.Concerns`, `StoreEvent.IsGlobal`: kinds of events
* `Store.eventsAt`, `Store.eventsAlong`: what an event, and a run, is to one resource
* `Store.Arose`: every resource of the store arose from a new one

## Main results

* `Store.create_eq_ok_iff`, `Store.remove_eq_ok_iff`: when the operations succeed, and with which store
* `Store.resource?_after`, `Store.resource?_run`: what becomes of a resource
* `Store.arose_run`: in every store that arose from an empty one, all resources arose from new ones
* `Resource.Sound.exists_event`: what an operation can do to a resource, an event can do
-/

namespace AsOf

/-- The event as it happens when the clock shows a time. -/
def ResourceEvent.reading (now : Instant) : ResourceEvent → ResourceEvent
  | .edit handle _ e => .edit handle now e
  | event => event

/-- What can happen to a store. -/
inductive StoreEvent where
  | setClock (time : Instant)
  | addDatabase (name : String) (lookup : LookupPolicy)
  | create (db : Nat) (name : String) (options : ResourceOptions)
  | remove (db : Nat) (name : String)
  | clear (db : Nat)
  | close (db : Nat)
  | resource (place : Nat) (event : ResourceEvent)

/-- The event is a commit in some resource, whether it is refused or not. -/
def StoreEvent.IsCommit : StoreEvent → Prop
  | .resource _ event => event.IsCommit
  | _ => False

/-- The event may open a write transaction of the resource at a place. -/
def StoreEvent.Opens (place : Nat) : StoreEvent → Prop
  | .resource p event => p = place ∧ event.Opens
  | _ => False

/-- The event is not one of a single resource. -/
def StoreEvent.IsGlobal : StoreEvent → Prop
  | .resource _ _ => False
  | _ => True

namespace Store

/-- The store after an event. -/
def after (s : Store) : StoreEvent → Store
  | .setClock time => { s with clock := time }
  | .addDatabase name lookup => s.addDatabase { name, lookup }
  | .create db name options =>
    match s.create db name options with
    | .ok s' => s'
    | .error _ => s
  | .remove db name =>
    match s.remove db name with
    | .ok (_, s') => s'
    | .error _ => s
  | .clear db => s.clear db
  | .close db => s.close db
  | .resource place event =>
    match s.resource? place with
    | some r => s.setResource place (r.after (event.reading s.clock))
    | none => s

/-- The store after a run of events. -/
def run (s : Store) (events : List StoreEvent) : Store := events.foldl after s

theorem run_append (s : Store) (events more : List StoreEvent) :
    s.run (events ++ more) = (s.run events).run more :=
  List.foldl_append

/-! ## What an event is to one resource -/

/-- The ends of the write transaction of a resource when entries are taken away. -/
def closings (place : Nat) (entries : List Entry) : List ResourceEvent :=
  (entries.filter (·.resource == place)).map fun _ => .endWriter

/-- What an event is to the resource at a place. -/
def eventsAt (s : Store) (place : Nat) : StoreEvent → List ResourceEvent
  | .resource p event => if p = place then [event.reading s.clock] else []
  | .remove db name =>
    match s.openDatabase db with
    | .ok d => closings place (d.find? name).toList
    | .error _ => []
  | .clear db | .close db => closings place ((s.database? db).elim [] (·.entries))
  | _ => []

/-- What a run is to the resource at a place. -/
def eventsAlong (s : Store) (place : Nat) : List StoreEvent → List ResourceEvent
  | [] => []
  | e :: events => s.eventsAt place e ++ (s.after e).eventsAlong place events

variable {s s' : Store} {place db : Nat} {name : String} {r r' : Resource}

/-- An event of the store as a whole ends the write transaction of a resource, if anything. -/
theorem eq_endWriter_of_mem_eventsAt {e : StoreEvent} (he : e.IsGlobal) {event : ResourceEvent}
    (h : event ∈ s.eventsAt place e) : event = .endWriter := by
  have hclosings {entries : List Entry} (h : event ∈ closings place entries) : event = .endWriter := by
    obtain ⟨-, -, hend⟩ := List.mem_map.mp h
    exact hend.symm
  cases e with
  | setClock | addDatabase | create => cases h
  | remove db name =>
    simp only [eventsAt] at h
    split at h
    · exact hclosings h
    · cases h
  | clear | close => exact hclosings h
  | resource => exact he.elim

/-! ## When operations succeed -/

/-- The store after a resource was created in a database. -/
def created (s : Store) (db : Nat) (d : Database) (name : String) (options : ResourceOptions) :
    Store :=
  ({ s with resources := s.resources.push (.create name d.lookup s.clock) } : Store).setDatabase db
    { d with
      entries := d.entries ++ [⟨d.nextId, name, options, s.resources.size⟩]
      nextId := d.nextId + 1 }

/-- The store after a resource was removed from a database. -/
def removed (s : Store) (db : Nat) (d : Database) (entry : Entry) : Store :=
  (s.setDatabase db { d with entries := d.entries.filter (·.id != entry.id) }).endWriter entry.resource

theorem create_eq_ok_iff {options : ResourceOptions} :
    s.create db name options = .ok s' ↔ ∃ d, s.openDatabase db = .ok d ∧ d.find? name = none ∧
      s' = s.created db d name options := by
  unfold create
  rw [except_bind_eq_ok_iff]
  refine exists_congr fun d => and_congr_right fun _ => ?_
  cases d.find? name with
  | some entry => simp
  | none =>
    simp only [Option.isSome_none, Bool.false_eq_true, if_false, true_and]
    exact ⟨fun h => (Except.ok.inj h).symm, fun h => congrArg _ h.symm⟩

theorem remove_eq_ok_iff {found : Bool} :
    s.remove db name = .ok (found, s') ↔ ∃ d, s.openDatabase db = .ok d ∧
      match d.find? name with
      | none => found = false ∧ s' = s
      | some entry => found = true ∧ s' = s.removed db d entry := by
  unfold remove
  rw [except_bind_eq_ok_iff]
  refine exists_congr fun d => and_congr_right fun _ => ?_
  cases d.find? name with
  | none | some =>
    constructor
    · intro h
      cases h
      exact ⟨rfl, rfl⟩
    · rintro ⟨rfl, rfl⟩
      rfl

/-- A removal is refused only where no database is open. -/
theorem openDatabase_of_remove_eq_error {reason : StoreError} (h : s.remove db name = .error reason) :
    s.openDatabase db = .error reason := by
  unfold remove at h
  cases hopen : s.openDatabase db with
  | error e =>
    rw [hopen] at h
    cases h
    rfl
  | ok d =>
    rw [hopen] at h
    cases hfind : d.find? name with
    | none | some => simp [hfind, bind, Except.bind, pure, Except.pure] at h

/-! ## What becomes of the resources -/

theorem resource?_setResource (hr : s.resource? place = some r) (r' : Resource) (k : Nat) :
    (s.setResource place r').resource? k = if k = place then some r' else s.resource? k := by
  have hlt := (Array.getElem?_eq_some_iff.mp hr).1
  rw [resource?, setResource, Array.getElem?_setIfInBounds]
  by_cases hk : place = k
  · simp [hk ▸ hlt, hk]
  · simp [hk, Ne.symm hk, resource?]

theorem resource?_created (s : Store) (db : Nat) (d : Database) (name : String)
    (options : ResourceOptions) (place : Nat) :
    (s.created db d name options).resource? place =
      if place = s.resources.size then some (.create name d.lookup s.clock)
      else s.resource? place :=
  Array.getElem?_push

theorem resource?_endWriters (s : Store) (place : Nat) (entries : List Entry) :
    (s.endWriters (entries.map (·.resource))).resource? place =
      (s.resource? place).map (·.run (closings place entries)) := by
  induction entries generalizing s with
  | nil => exact Option.map_id'.symm
  | cons entry entries ih =>
    have hend : (s.endWriter entry.resource).resource? place =
        if entry.resource = place then (s.resource? place).map (·.endWriter.2)
        else s.resource? place := Array.getElem?_modify
    show ((s.endWriter entry.resource).endWriters _).resource? place = _
    rw [ih, hend]
    by_cases h : entry.resource = place
    · simp only [closings, List.filter_cons, beq_iff_eq, h, if_true, Option.map_map]
      rfl
    · simp only [closings, List.filter_cons, beq_iff_eq, h, if_false]

theorem resource?_removed (s : Store) (db : Nat) (d : Database) (entry : Entry) (place : Nat) :
    (s.removed db d entry).resource? place =
      (s.resource? place).map (·.run (closings place [entry])) :=
  resource?_endWriters
    (s.setDatabase db { d with entries := d.entries.filter (·.id != entry.id) }) place [entry]

/-- All events but those that create resources act on the resources that are there. -/
theorem resource?_after_eq_map (s : Store) (place : Nat) {e : StoreEvent}
    (he : ∀ db name options, e ≠ .create db name options) :
    (s.after e).resource? place = (s.resource? place).map (·.run (s.eventsAt place e)) := by
  cases e with
  | setClock | addDatabase => exact Option.map_id'.symm
  | create db name options => exact absurd rfl (he db name options)
  | remove db name =>
    simp only [after, eventsAt]
    split
    · next found s' h =>
      obtain ⟨d, hopen, h⟩ := remove_eq_ok_iff.mp h
      rw [hopen]
      split at h
      · next hfind =>
        obtain ⟨-, rfl⟩ := h
        simp only [hfind]
        exact Option.map_id'.symm
      · next entry hfind =>
        obtain ⟨-, rfl⟩ := h
        simp only [hfind]
        exact resource?_removed s db d entry place
    · next reason h =>
      rw [openDatabase_of_remove_eq_error h]
      exact Option.map_id'.symm
  | clear db | close db =>
    simp only [after, eventsAt, clear, close]
    cases s.database? db with
    | none => exact Option.map_id'.symm
    | some d => exact resource?_endWriters s place d.entries
  | resource p event =>
    simp only [after, eventsAt]
    split
    · next u hp =>
      rw [resource?_setResource hp]
      by_cases h : p = place
      · rw [if_pos h.symm, if_pos h, ← h, hp]
        rfl
      · rw [if_neg (Ne.symm h), if_neg h]
        exact Option.map_id'.symm
    · next hp =>
      by_cases h : p = place
      · rw [← h, hp, Option.map_none]
      · rw [if_neg h]
        exact Option.map_id'.symm

/-- What becomes of a resource by an event. -/
theorem resource?_after (hr : s.resource? place = some r) (e : StoreEvent) :
    (s.after e).resource? place = some (r.run (s.eventsAt place e)) := by
  by_cases he : ∃ db name options, e = .create db name options
  · obtain ⟨db, name, options, rfl⟩ := he
    simp only [after]
    split
    · next s' h =>
      obtain ⟨d, -, -, rfl⟩ := create_eq_ok_iff.mp h
      have hne : place ≠ s.resources.size := Nat.ne_of_lt (Array.getElem?_eq_some_iff.mp hr).1
      rw [resource?_created, if_neg hne, hr]
      rfl
    · exact hr
  · rw [resource?_after_eq_map s place fun db name options h => he ⟨db, name, options, h⟩, hr]
    rfl

/-- What becomes of a resource by a run. -/
theorem resource?_run (hr : s.resource? place = some r) (events : List StoreEvent) :
    (s.run events).resource? place = some (r.run (s.eventsAlong place events)) := by
  induction events generalizing s r with
  | nil => exact hr
  | cons e events ih =>
    rw [eventsAlong, Resource.run_append]
    exact ih (resource?_after hr e)

/-- A resource that an event brings about is new. -/
theorem exists_create_of_after (hnone : s.resource? place = none) {e : StoreEvent}
    (hr : (s.after e).resource? place = some r) :
    ∃ name lookup, r = Resource.create name lookup s.clock := by
  by_cases he : ∃ db name options, e = .create db name options
  · obtain ⟨db, name, options, rfl⟩ := he
    simp only [after] at hr
    split at hr
    · next s' h =>
      obtain ⟨d, -, -, rfl⟩ := create_eq_ok_iff.mp h
      rw [resource?_created, hnone] at hr
      split at hr
      · exact ⟨name, d.lookup, (Option.some.inj hr).symm⟩
      · cases hr
    · cases hnone.symm.trans hr
  · rw [resource?_after_eq_map s place fun db name options h => he ⟨db, name, options, h⟩,
      hnone] at hr
    cases hr

/-! ## Where resources come from -/

/-- Every resource of the store arose from a new one. -/
def Arose (s : Store) : Prop :=
  ∀ place r, s.resource? place = some r →
    ∃ name lookup created events, r = (Resource.create name lookup created).run events

theorem Arose.after (hs : s.Arose) (e : StoreEvent) : (s.after e).Arose := by
  intro place r hr
  cases hplace : s.resource? place with
  | some u =>
    obtain ⟨name, lookup, created, events, rfl⟩ := hs place u hplace
    obtain rfl := Option.some.inj ((resource?_after hplace e).symm.trans hr)
    exact ⟨name, lookup, created, events ++ s.eventsAt place e, (Resource.run_append ..).symm⟩
  | none =>
    obtain ⟨name, lookup, rfl⟩ := exists_create_of_after hplace hr
    exact ⟨name, lookup, s.clock, [], rfl⟩

theorem Arose.run (hs : s.Arose) (events : List StoreEvent) : (s.run events).Arose := by
  induction events generalizing s with
  | nil => exact hs
  | cons e events ih => exact ih (hs.after e)

/-- In every store that arose from an empty one, all resources arose from new ones. -/
theorem arose_run (clock : Instant) (events : List StoreEvent) :
    (run { clock } events).Arose := by
  refine Arose.run (fun place r hr => ?_) events
  simp [resource?] at hr

theorem Arose.sound (hs : s.Arose) (hr : s.resource? place = some r) : r.Sound := by
  obtain ⟨name, lookup, created, events, rfl⟩ := hs place r hr
  exact Resource.sound_run name lookup created events

theorem Arose.grown (hs : s.Arose) (hr : s.resource? place = some r) : r.Grown := by
  obtain ⟨name, lookup, created, events, rfl⟩ := hs place r hr
  exact (Resource.sound_grown_run name lookup created events).2

end Store

/-! ## Edits are events -/

/-- What an edit is to the store: an event of the resource, and one of the clock if the edit sets it. -/
def WriterRef.events (w : WriterRef) (e : Edit) : List StoreEvent :=
  .resource w.resource (.edit w.handle .epoch e) ::
    match e with
    | .setClock time => [.setClock time]
    | _ => []

namespace Store

variable {s s' : Store} {w : WriterRef} {e : Edit}

/-- The events of a script, up to the first edit that is refused. -/
def scriptEvents (s : Store) (w : WriterRef) : List Edit → List StoreEvent
  | [] => []
  | e :: rest =>
    match s.edit w e with
    | .ok (_, s') => w.events e ++ s'.scriptEvents w rest
    | .error _ => []

/-- The events of several edits, where those that are refused are passed over. -/
def writeEvents (s : Store) (w : WriterRef) : List Edit → List StoreEvent
  | [] => []
  | e :: rest =>
    match s.edit w e with
    | .ok (_, s') => w.events e ++ s'.writeEvents w rest
    | .error _ => s.writeEvents w rest

/-- An edit that is not refused does to the store what its events do. -/
theorem run_events_of_edit {answer : EditAnswer} (h : s.edit w e = .ok (answer, s')) :
    s.run (w.events e) = s' := by
  unfold edit at h
  split at h
  · cases h
  · next r hr =>
    obtain ⟨⟨a, r'⟩, hedit, h⟩ := except_bind_eq_ok_iff.mp h
    obtain ⟨-, rfl⟩ := Prod.mk.inj (Except.ok.inj h)
    have hset : s.after (.resource w.resource (.edit w.handle .epoch e)) =
        s.setResource w.resource r' := by
      simp only [after, hr, ResourceEvent.reading, Resource.after, hedit, Resource.orKeep]
    cases e with
    | setClock time =>
      show ({ s.after _ with clock := time } : Store) = _
      rw [hset]
    | _ => exact hset

theorem run_scriptEvents (s : Store) (w : WriterRef) (edits : List Edit) :
    s.run (s.scriptEvents w edits) = (s.runScript w edits).2 := by
  induction edits generalizing s with
  | nil => rfl
  | cons e rest ih =>
    rw [scriptEvents, runScript]
    cases h : s.edit w e with
    | error reason => rfl
    | ok p =>
      obtain ⟨answer, s'⟩ := p
      show s.run (w.events e ++ s'.scriptEvents w rest) = (s'.runScript w rest).2
      rw [run_append, run_events_of_edit h, ih]

theorem writeEvents_cons_of_ok {answer : EditAnswer} (h : s.edit w e = .ok (answer, s'))
    (rest : List Edit) : s.writeEvents w (e :: rest) = w.events e ++ s'.writeEvents w rest := by
  simp only [writeEvents, h]

theorem writeEvents_cons_of_error {reason : StoreError} (h : s.edit w e = .error reason)
    (rest : List Edit) : s.writeEvents w (e :: rest) = s.writeEvents w rest := by
  simp only [writeEvents, h]

theorem writeEvents_append (s : Store) (w : WriterRef) (edits more : List Edit) :
    s.writeEvents w (edits ++ more) =
      s.writeEvents w edits ++ (s.run (s.writeEvents w edits)).writeEvents w more := by
  induction edits generalizing s with
  | nil => rfl
  | cons e rest ih =>
    cases h : s.edit w e with
    | error reason =>
      rw [List.cons_append, writeEvents_cons_of_error h, writeEvents_cons_of_error h, ih]
    | ok p =>
      rw [List.cons_append, writeEvents_cons_of_ok h, writeEvents_cons_of_ok h, ih, List.append_assoc,
        run_append, run_events_of_edit h]

theorem exists_edit_of_mem_writeEvents {edits : List Edit} {event : StoreEvent}
    (h : event ∈ s.writeEvents w edits) : ∃ e ∈ edits, event ∈ w.events e := by
  induction edits generalizing s with
  | nil => cases h
  | cons e rest ih =>
    have hrest {u : Store} (h : event ∈ u.writeEvents w rest) : ∃ e' ∈ e :: rest, event ∈ w.events e' := by
      obtain ⟨e', he', hevent⟩ := ih h
      exact ⟨e', List.mem_cons_of_mem e he', hevent⟩
    rw [writeEvents] at h
    split at h
    · exact (List.mem_append.mp h).elim (fun hfirst => ⟨e, List.mem_cons_self, hfirst⟩) hrest
    · exact hrest h

end Store

namespace WriterRef

variable {w : WriterRef} {e : Edit} {event : StoreEvent}

/-- Of all edits, only a commit is one to the store. -/
theorem eq_commit_of_mem_events (h : event ∈ w.events e) (hcommit : event.IsCommit) : e = .commit := by
  rcases List.mem_cons.mp h with rfl | hclock
  · cases e <;> first | rfl | exact hcommit.elim
  · cases e with
    | setClock time =>
      obtain rfl := List.mem_singleton.mp hclock
      exact hcommit.elim
    | _ => cases hclock

end WriterRef

/-! ## Operations are events -/

theorem Edit.IsLocal.not_isCommit {e : Edit} (he : e.IsLocal) (handle : Nat) (now : Instant) :
    ¬(ResourceEvent.edit handle now e).IsCommit := by
  cases e <;> first | exact id | exact fun _ => he

/-- What an operation can do to a resource without sealing anything, an event can do that is no
commit, and that opens a write transaction only if the operation does, whatever the clock shows. -/
theorem Resource.Sound.exists_event {r r' : Resource} (hr : r.Sound) (h : r.Step r')
    (hh : r'.history = r.history) :
    ∃ event : ResourceEvent, ¬event.IsCommit ∧ (event.Opens → r.running = none ∧ r'.running ≠ none) ∧
      ∀ now, r.after (event.reading now) = r' := by
  cases h with
  | stay =>
    -- A transaction that has ended already is not counted.
    let trx : Transaction := { base := r.history.latest, tree := .new, closed := true }
    exact ⟨.endReader trx, id, False.elim, fun _ => rfl⟩
  | countOpen =>
    obtain ⟨tree, hs⟩ := hr.exists_revision?_mostRecent
    refine ⟨.startReader r.mostRecent, id, False.elim, fun now => ?_⟩
    have hstart : r.startReader r.mostRecent = .ok (_, r.countedOpen) :=
      startReader_eq_ok_iff.mpr ⟨_, tree, hs, rfl, rfl⟩
    simp only [ResourceEvent.reading, after, hstart, orKeep]
  | countClose =>
    exact ⟨.endReader { base := r.history.latest, tree := .new }, id, False.elim, fun _ => rfl⟩
  | @opened s tree idle hs =>
    refine ⟨.startWriter, id, fun _ => ⟨idle, Option.some_ne_none _⟩, fun now => ?_⟩
    have hstart : r.startWriter = .ok (_, r.opened tree) :=
      startWriter_eq_ok_iff.mpr ⟨idle, rfl, s, tree, hs, rfl⟩
    simp only [ResourceEvent.reading, after, hstart, orKeep]
  | ended hrun =>
    refine ⟨.endWriter, id, False.elim, fun now => ?_⟩
    simp only [ResourceEvent.reading, after, endWriter, hrun]
    rfl
  | @moved handle t t' live hmoves =>
    obtain ⟨e, he, hedit⟩ := exists_edit_of_moves live hmoves
    refine ⟨.edit handle .epoch e, he.not_isCommit _ _, False.elim, fun now => ?_⟩
    obtain ⟨answer, hedit⟩ := hedit now
    simp only [ResourceEvent.reading, after, hedit, orKeep]
  | @committed handle t live now =>
    exact absurd (congrArg (·.latest.number.val) hh) (Nat.succ_ne_self _)
  | @rewound handle t target info tree live earlier hs =>
    refine ⟨.edit handle .epoch (.revert target), id, False.elim, fun now => ?_⟩
    have hrevert : r.revert handle target = .ok (r.rewound handle t 1 info tree) :=
      revert_eq_ok_iff.mpr ⟨t, info, tree, live, earlier, hs, rfl⟩
    simp only [ResourceEvent.reading, after, edit, hrevert]
    rfl

end AsOf
