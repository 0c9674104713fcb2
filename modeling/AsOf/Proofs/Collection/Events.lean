import AsOf.Collection.Basic
import AsOf.Proofs.Collection.Ingestion
import AsOf.Proofs.Collection.Keep

/-!
# The events of a collection

Making a document is, to the store, a list of events that is known beforehand: a resource is created, its
first write transaction is opened, the script runs up to the first edit that is refused, and if it does not
come to its end, the resource is removed again. A call that is made to fail is no event. So it is known as
well what becomes of the store, with faults and without.

## Main definitions

* `Faults.eventOf`: the event of a call, unless the call is to fail
* `Collection.fillEvents`, `Collection.makeEvents`: the events of making a document
* `Collection.Outcome`: what becomes of the store

## Main results

* `Collection.state_removeNamed`: removing a resource is an event
* `Collection.exists_outcome`, `Collection.exists_outcome_addAs`: making a document does what its events do,
  and there are four outcomes
-/

namespace AsOf

open Observed

/-! ## Events of calls -/

/-- The event of a call, unless the call is to fail. -/
def Faults.eventOf (f : Faults) (call : StoreCall) (e : StoreEvent) : List StoreEvent :=
  if call ∈ f.failing then [] else [e]

theorem Faults.check_eq_ok_iff {f : Faults} {call : StoreCall} :
    f.check call = .ok () ↔ call ∉ f.failing := by
  unfold check
  split
  · next h => exact ⟨nofun, fun hnot => absurd h hnot⟩
  · next h => exact ⟨fun _ => h, fun _ => rfl⟩

theorem Faults.mem_failing_of_check {f : Faults} {call : StoreCall} {reason : StoreError}
    (h : f.check call = .error reason) : call ∈ f.failing := by
  by_contra hnot
  cases h.symm.trans (check_eq_ok_iff.mpr hnot)

theorem Faults.eq_of_mem_eventOf {f : Faults} {call : StoreCall} {e e' : StoreEvent}
    (h : e ∈ f.eventOf call e') : e = e' := by
  unfold eventOf at h
  split at h
  · cases h
  · exact List.mem_singleton.mp h

theorem Faults.eventOf_of_ok {f : Faults} {call : StoreCall} (h : f.check call = .ok ())
    (e : StoreEvent) : f.eventOf call e = [e] :=
  if_neg (check_eq_ok_iff.mp h)

theorem Faults.eventOf_of_error {f : Faults} {call : StoreCall} {reason : StoreError}
    (h : f.check call = .error reason) (e : StoreEvent) : f.eventOf call e = [] :=
  if_pos (mem_failing_of_check h)

namespace Collection

/-- The events of filling a new resource: its first write transaction is opened, and the script runs on
it. -/
def fillEvents (f : Faults) (s : Store) (place : Nat) (edits : List Edit) : List StoreEvent :=
  if .locate ∈ f.failing ∨ .startWriter ∈ f.failing then []
  else .resource place .startWriter ::
    (s.after (.resource place .startWriter)).scriptEvents ⟨place, 0⟩
      ((.toRoot :: edits) ++ [.commit, .toRoot])

/-- The events of making a document: a resource is created and filled, and removed again if it cannot be
filled. -/
def makeEvents (f : Faults) (c : Collection) (s : Store) (name : String) (edits : List Edit) :
    List StoreEvent :=
  match f.check .create, s.create c.database name c.settings.resource with
  | .ok _, .ok created =>
    .create c.database name c.settings.resource ::
      (fillEvents f created s.resources.size edits ++
        match (fill f c name edits ⟨created, {}, {}⟩).1 with
        | .ok _ => []
        | .error _ => f.eventOf .remove (.remove c.database name))
  | _, _ => []

variable {f : Faults} {c : Collection} {s : Store} {d : Database} {name : String} {edits : List Edit}

theorem removeNamed_of_failing (hfails : .remove ∈ f.failing) (c : Collection) (name : String)
    (o : Observed Store) : removeNamed f c name o = (.error (Faults.failure .remove), o) := by
  refine Action.bind_run_error ?_
  rw [Action.ofExcept, show f.check .remove = .error (Faults.failure .remove) from if_pos hfails]

theorem removeNamed_of_not_failing (hfails : .remove ∉ f.failing) (c : Collection) (name : String)
    (o : Observed Store) : removeNamed f c name o = update (·.remove c.database name) o := by
  refine Action.bind_run_ok (a := ()) ?_
  rw [Action.ofExcept, Faults.check_eq_ok_iff.mpr hfails]

/-- Removing the resource with a name is an event, unless it is to fail. -/
theorem state_removeNamed (f : Faults) (c : Collection) (name : String) (o : Observed Store) :
    (removeNamed f c name o).2.state = o.state.run (f.eventOf .remove (.remove c.database name)) := by
  by_cases hfails : .remove ∈ f.failing
  · rw [removeNamed_of_failing hfails, Faults.eventOf, if_pos hfails]
    rfl
  · rw [removeNamed_of_not_failing hfails, Faults.eventOf, if_neg hfails, update]
    show _ = o.state.after (.remove c.database name)
    rw [Store.after]
    cases o.state.remove c.database name <;> rfl

/-! ## Filling -/

/-- The store behind the events of filling is the one that the script leaves. -/
theorem run_fillEvents (hlocate : f.check .locate = .ok ()) (hwriter : f.check .startWriter = .ok ())
    {handle : Nat} {opened r : Resource} {now : Instant} {result : Except StoreError Unit}
    (options : ResourceOptions)
    (hstart : (Resource.create name d.lookup s.clock).startWriter = .ok (handle, opened))
    (hscript : opened.runScript handle s.clock ((.toRoot :: edits) ++ [.commit, .toRoot]) =
      (result, r, now)) :
    (s.created c.database d name options).run
        (fillEvents f (s.created c.database d name options) s.resources.size edits) =
      s.started c.database d name options r now := by
  have hnew : (s.created c.database d name options).resource? s.resources.size =
      some (.create name d.lookup s.clock) := (Store.resource?_created ..).trans (if_pos rfl)
  have hafter : (s.created c.database d name options).after (.resource s.resources.size .startWriter) =
      (s.created c.database d name options).setResource s.resources.size opened := by
    simp only [Store.after, hnew, ResourceEvent.reading, Resource.after, hstart, Resource.orKeep]
  obtain ⟨-, rfl, -⟩ := Resource.startWriter_eq_ok_iff.mp hstart
  have hspared : ¬(.locate ∈ f.failing ∨ .startWriter ∈ f.failing) := by
    rintro (h | h)
    · exact Faults.check_eq_ok_iff.mp hlocate h
    · exact Faults.check_eq_ok_iff.mp hwriter h
  rw [fillEvents, if_neg hspared]
  show (Store.after _ _).run _ = _
  rw [Store.run_scriptEvents, hafter]
  exact congrArg Prod.snd (Store.runScript_started c.database d name options hscript)

theorem reports_takeWriter_of_failing {r : Resource} {reason : StoreError} (idle : r.running = none)
    (hwriter : f.check .startWriter = .error reason) : Reports (takeWriter f) r (.error reason) r [] := by
  refine Resource.reports_takeWriter_of_newWriter idle ((reports_current r).bind ?_)
  rw [hwriter]
  exact (reports_ofExcept r (.error reason)).bind_error

/-- A new resource is filled, and a document is made of it, or it is not; either way its events tell what
becomes of the store. -/
theorem exists_fill (f : Faults) (hopen : s.openDatabase c.database = .ok d)
    (hfree : d.find? name = none) (edits : List Edit) :
    let created := s.created c.database d name c.settings.resource
    let filled := created.run (fillEvents f created s.resources.size edits)
    ∃ result ks, Reports (fill f c name edits) created result filled ks ∧
      ∀ document, result = .ok document → c.Ingests s d name edits document filled := by
  intro created filled
  have hfilled : filled = created.run (fillEvents f created s.resources.size edits) := rfl
  have hlocated : created.locate c.database name = .ok s.resources.size :=
    Store.locate_created hopen hfree
  cases hlocate : f.check .locate with
  | error reason =>
    rw [hfilled, fillEvents, if_pos (.inl (Faults.mem_failing_of_check hlocate))]
    have hstop : Reports (locate f c name) created (.error reason) created [] := by
      rw [locate, hlocate]
      exact (reports_ofExcept created (.error reason)).bind_error
    exact ⟨_, _, hstop.bind_error, fun _ h => by cases h⟩
  | ok =>
    have hfound := reports_locate hlocate hlocated
    cases hwriter : f.check .startWriter with
    | error reason =>
      rw [hfilled, fillEvents, if_pos (.inr (Faults.mem_failing_of_check hwriter))]
      have hnew : created.resource? s.resources.size = some (.create name d.lookup s.clock) :=
        (Store.resource?_created ..).trans (if_pos rfl)
      have htake := (reports_takeWriter_of_failing rfl hwriter).onResource hnew
      rw [Store.setResource_self hnew] at htake
      exact ⟨_, _, hfound.bind htake.bind_error, fun _ h => by cases h⟩
    | ok =>
      rcases Resource.accepts_or_refuses name d.lookup s.clock s.clock edits with
        haccepts | ⟨reason, handle, opened, hstart, hrefuses⟩
      · obtain ⟨handle, opened, r, now, hstart, hsealed, hr⟩ := haccepts.exists_filled
        rw [hfilled, run_fillEvents hlocate hwriter _ hstart hsealed]
        refine ⟨_, _, reports_fill hlocate hwriter hopen hfree hstart hsealed, fun document h => ?_⟩
        cases h
        exact ingests_started hopen hfree hr
      · rcases hscript : opened.runScript handle s.clock (.toRoot :: edits) with ⟨result, r, now⟩
        obtain rfl : result = .error reason := (congrArg Prod.fst hscript).symm.trans hrefuses
        have happend := Resource.runScript_append_of_error hscript [.commit, .toRoot]
        rw [hfilled, run_fillEvents hlocate hwriter _ hstart happend]
        exact ⟨_, _, reports_fill hlocate hwriter hopen hfree hstart happend, fun _ h => by cases h⟩

/-- Filling a resource changes no database. -/
theorem keeps_databases_fill (f : Faults) (c : Collection) (name : String) (edits : List Edit)
    (databases : Array Database) :
    Keeps (fun u => u.databases = databases) (fill f c name edits) := by
  have honResource {α : Type} {x : Action (Observed Resource) StoreError α} (place : Nat) :
      Keeps (fun u => u.databases = databases) (Observed.onResource place x) := by
    intro o ho
    unfold Observed.onResource
    split <;> exact ho
  have hscript (w : WriterRef) (edits : List Edit) :
      Keeps (fun u => u.databases = databases) (script w edits) :=
    fun o ho => (Store.databases_runScript o.state w edits).trans ho
  refine (keeps_locate f c name).bind fun place => (honResource place).bind fun handle => ?_
  exact (hscript _ _).bind fun _ => keeps_pure _

/-! ## Making -/

/-- What becomes of the store when a document is to be made: nothing where no resource can be created, the
document, or a new resource that is removed again, unless removing it is made to fail. -/
inductive Outcome (f : Faults) (c : Collection) (s : Store) (name : String) (edits : List Edit) :
    Except StoreError Document → Store → Prop
  | refused {reason : StoreError}
      (hnone : .create ∉ f.failing → ∀ u, s.create c.database name c.settings.resource ≠ .ok u) :
      Outcome f c s name edits (.error reason) s
  | made {d : Database} {document : Document} {s' : Store} (hcalls : .create ∉ f.failing)
      (hopen : s.openDatabase c.database = .ok d) (hfree : d.find? name = none)
      (h : c.Ingests s d name edits document s') : Outcome f c s name edits (.ok document) s'
  | undone {d : Database} {reason : StoreError} {u : Store} (hcalls : .create ∉ f.failing)
      (hopen : s.openDatabase c.database = .ok d) (hfree : d.find? name = none)
      (hu : u.databases = (s.created c.database d name c.settings.resource).databases) :
      Outcome f c s name edits (.error reason) (u.removed c.database
        (d.extended name c.settings.resource s.resources.size)
        ⟨d.nextId, name, c.settings.resource, s.resources.size⟩)
  | stranded {d : Database} {reason : StoreError} {u : Store} (hcalls : .create ∉ f.failing)
      (hopen : s.openDatabase c.database = .ok d) (hfree : d.find? name = none)
      (hfails : .remove ∈ f.failing)
      (hu : u.databases = (s.created c.database d name c.settings.resource).databases) :
      Outcome f c s name edits (.error reason) u

/-- A new resource that could not be filled is removed, unless that is made to fail. -/
theorem exists_outcome_of_unfilled (f : Faults) (edits : List Edit) (reason : StoreError) {u : Store}
    (hcalls : .create ∉ f.failing) (hopen : s.openDatabase c.database = .ok d) (hfree : d.find? name = none)
    (hu : u.databases = (s.created c.database d name c.settings.resource).databases) :
    ∃ result ks, Reports (do let _ ← removeNamed f c name; Action.fail reason) u result
        (u.run (f.eventOf .remove (.remove c.database name))) ks ∧
      Outcome f c s name edits result (u.run (f.eventOf .remove (.remove c.database name))) := by
  cases hcheck : f.check .remove with
  | error e =>
    rw [Faults.eventOf_of_error hcheck]
    have hstop : Reports (removeNamed f c name) u (.error e) u [] := by
      rw [removeNamed, hcheck]
      exact (reports_ofExcept u (.error e)).bind_error
    exact ⟨_, _, hstop.bind_error, .stranded hcalls hopen hfree (Faults.mem_failing_of_check hcheck) hu⟩
  | ok =>
    have hremove := Store.remove_created hopen hfree hu
    have hrun : u.run [.remove c.database name] = u.removed c.database
        (d.extended name c.settings.resource s.resources.size)
        ⟨d.nextId, name, c.settings.resource, s.resources.size⟩ := by
      show u.after (.remove c.database name) = _
      simp only [Store.after, hremove]
    rw [Faults.eventOf_of_ok hcheck, hrun]
    have hundo : Reports (removeNamed f c name) u (.ok true) _ [] :=
      (reports_check u hcheck).bind (reports_update hremove)
    exact ⟨_, _, hundo.bind (reports_ofExcept _ (.error reason)), .undone hcalls hopen hfree hu⟩

/-- Making a document does to the store what its events do, and this is one of the four outcomes. -/
theorem exists_outcome (f : Faults) (c : Collection) (s : Store) (name : String) (edits : List Edit) :
    ∃ result ks, Reports (make f c name edits) s result (s.run (makeEvents f c s name edits)) ks ∧
      Outcome f c s name edits result (s.run (makeEvents f c s name edits)) := by
  cases hcheck : f.check .create with
  | error reason =>
    rw [makeEvents, hcheck]
    refine ⟨.error reason, [], ?_, .refused fun hcalls => absurd (Faults.mem_failing_of_check hcheck) hcalls⟩
    rw [make, hcheck]
    exact (reports_ofExcept s (.error reason)).bind_error
  | ok =>
    cases hcreate : s.create c.database name c.settings.resource with
    | error reason =>
      rw [makeEvents, hcheck, hcreate]
      refine ⟨.error reason, [], (reports_check s hcheck).bind (reports_update_error ?_).bind_error,
        .refused fun _ u h => by cases hcreate.symm.trans h⟩
      rw [hcreate]
      rfl
    | ok created =>
      have hcalls : .create ∉ f.failing := Faults.check_eq_ok_iff.mp hcheck
      obtain ⟨d, hopen, hfree, rfl⟩ := Store.create_eq_ok_iff.mp hcreate
      have hafter : s.after (.create c.database name c.settings.resource) =
          s.created c.database d name c.settings.resource := by
        simp only [Store.after, hcreate]
      have hupdate : Reports (update fun u => return ((), ← u.create c.database name c.settings.resource))
          s (.ok ()) (s.created c.database d name c.settings.resource) ([] : List Counter) :=
        reports_update (Store.create_bind_eq_ok hopen hfree)
      obtain ⟨result, ks, hfill, hingests⟩ := exists_fill f hopen hfree edits
      have hbegin {events : List StoreEvent} :
          s.run (.create c.database name c.settings.resource :: events) =
            (s.created c.database d name c.settings.resource).run events := by
        rw [← hafter]
        rfl
      rw [makeEvents, hcheck, hcreate]
      simp only [hfill.yields.answers {} {}, hbegin]
      cases result with
      | ok document =>
        rw [List.append_nil]
        have hmake : Reports (make f c name edits) s _ _ _ :=
          (reports_check s hcheck).bind <| hupdate.bind <| hfill.attempt.bind (reports_pure _ document)
        exact ⟨_, _, hmake, .made hcalls hopen hfree (hingests document rfl)⟩
      | error reason =>
        rw [Store.run_append]
        have hdatabases := keeps_databases_fill f c name edits _
          ⟨s.created c.database d name c.settings.resource, {}, {}⟩ rfl
        obtain ⟨_, _, hrun⟩ := hfill.yields {} {}
        rw [hrun] at hdatabases
        obtain ⟨answer, ls, hundo, houtcome⟩ :=
          exists_outcome_of_unfilled f edits reason hcalls hopen hfree hdatabases
        have hmake : Reports (make f c name edits) s _ _ _ :=
          (reports_check s hcheck).bind <| hupdate.bind <| hfill.attempt.bind hundo
        exact ⟨answer, _, hmake, houtcome⟩

/-- Adding a document is making it; what is counted and written besides is of no account to the store. -/
theorem exists_addAs (f : Faults) (c : Collection) (name : String) (edits : List Edit)
    (o : Observed Store) : ∃ j,
      let made := make f c name edits ⟨o.state, o.counters, j⟩
      (addAs f c name edits o).1 = made.1.mapError (.ingestion name) ∧
        (addAs f c name edits o).2.state = made.2.state := by
  let scope : Scope := ⟨"INGEST", [("collection", c.name), ("resource", name)]⟩
  refine ⟨o.journal.write scope.began, ?_⟩
  simp only [addAs, within, record, Action.modify, Action.bind_run, Action.attempt]
  rcases make f c name edits _ with ⟨_ | document, u⟩ <;> exact ⟨rfl, rfl⟩

/-- Adding a document does to the store what the events of making it do, with one of the four outcomes. -/
theorem exists_outcome_addAs (f : Faults) (c : Collection) (name : String) (edits : List Edit)
    (o : Observed Store) :
    (addAs f c name edits o).2.state = o.state.run (makeEvents f c o.state name edits) ∧
      ∃ result, (addAs f c name edits o).1 = result.mapError (.ingestion name) ∧
        Outcome f c o.state name edits result (o.state.run (makeEvents f c o.state name edits)) := by
  obtain ⟨j, hanswer, hstate⟩ := exists_addAs f c name edits o
  obtain ⟨result, ks, hmake, houtcome⟩ := exists_outcome f c o.state name edits
  obtain ⟨_, _, hrun⟩ := hmake.yields o.counters j
  rw [hrun] at hanswer hstate
  exact ⟨hstate, result, hanswer, houtcome⟩

end Collection

end AsOf
