import AsOf.Proofs.Session.Follow

/-!
# The events of a session

What a command does to the store can be told from the session in which it is asked. If it changes more than
transactions, the store behind it is the one behind its events, exactly. If it does not, it has no events,
and what it leaves differs in transactions only. So what was sealed, what the databases list and what the
clock shows follow from the events of the commands that were asked, and an answer tells which events there
were.

## Main definitions

* `Store.SealsAlike`: two stores differ in transactions only
* `Session.shutdown?`: the event of a command that takes resources down
* `Session.ShutsDown`: what becomes of such a command
* `Session.Adds`: commands that ask for a new document

## Main results

* `Session.sealsAlike_step_of_not_changes`, `Session.store_step_of_changes`: what commands do to the store
* `Session.sealsAlike_step`: the store behind the events of a command
* `Session.exists_writeAll`: what edits are answered
* `Session.step_of_shutdown`: a command that takes resources down
* `Session.outcome_of_adds`: what becomes of the store when a document is added
-/

namespace AsOf

open AsOf.Action

/-! ## Stores that differ in transactions -/

/-- The second store differs from the first one in transactions only: the clock, the databases and what is
sealed are the same. -/
structure Store.SealsAlike (s s' : Store) : Prop where
  clock : s'.clock = s.clock
  databases : s'.databases = s.databases
  size : s'.resources.size = s.resources.size
  resource : ∀ {place : Nat} {r : Resource}, s.resource? place = some r → ∃ r',
    s'.resource? place = some r' ∧ r'.name = r.name ∧ r'.lookup = r.lookup ∧ r'.history = r.history

namespace Store

theorem SealsAlike.refl (s : Store) : s.SealsAlike s :=
  ⟨rfl, rfl, rfl, fun {_ r} hr => ⟨r, hr, rfl, rfl, rfl⟩⟩

/-- Where nothing is sealed, stores differ in transactions only. -/
theorem keptBySteps_sealsAlike (s : Store) : KeptBySteps (fun _ => True) s.SealsAlike where
  step {u place r r'} hs hr hstep hhistory _ := by
    refine ⟨hs.clock, hs.databases, Array.size_setIfInBounds.trans hs.size, fun {k v} hv => ?_⟩
    obtain ⟨v', hv', hname, hlookup, hsealed⟩ := hs.resource hv
    rw [resource?_setResource hr]
    split
    · next hk =>
      obtain rfl := Option.some.inj (hr.symm.trans (hk ▸ hv'))
      exact ⟨r', rfl, hstep.name_eq.trans hname, hstep.lookup_eq.trans hlookup, hhistory.trans hsealed⟩
    · exact ⟨v', hv', hname, hlookup, hsealed⟩
  located _ _ := trivial

end Store

namespace Session

variable {α : Type} {s : Session} {c : Command}

/-- Commands that change nothing but transactions. -/
theorem sealsAlike_step_of_not_changes (h : ¬c.Changes) :
    s.store.SealsAlike (step c s).2.store := by
  have hbegin : Holds (fun _ => True) s.store.SealsAlike (fun _ => False) (fun _ => True) s s :=
    ⟨.refl _, fun hkept => hkept.elim, fun _ _ => trivial⟩
  exact (preserves_step_of_not_changes (Store.keptBySteps_sealsAlike s.store) c h (fun _ _ => id)
    (fun _ _ => trivial) s hbegin).store

/-! ## Edits -/

/-- Several edits are answered one by one, whether they are refused or not. They do to the store what their
events do, and each is answered by the store behind the events of those before it. -/
theorem exists_writeAll (w : WriterRef) (edits : List Edit) (s : Session) : ∃ answers,
    writeAll w edits s = (.ok answers, { s with store := s.store.run (s.store.writeEvents w edits) }) ∧
      answers.length = edits.length ∧
      ∀ before e rest, edits = before ++ e :: rest → ∃ base cursor, answers[before.length]? =
        some (((s.store.run (s.store.writeEvents w before)).edit w e).map Prod.fst, base, cursor) := by
  induction edits generalizing s with
  | nil => exact ⟨[], rfl, rfl, fun before e rest h => by cases before <;> cases h⟩
  | cons e rest ih =>
    obtain ⟨answer, u, hone, hanswer, hevents⟩ : ∃ answer u,
        writeOne w e s = (.ok answer, { s with store := u }) ∧ answer = (s.store.edit w e).map Prod.fst ∧
          ∀ more, s.store.run (s.store.writeEvents w (e :: more)) = u.run (u.writeEvents w more) := by
      cases hedit : s.store.edit w e with
      | ok p =>
        obtain ⟨answer, u⟩ := p
        refine ⟨.ok answer, u, by simp only [writeOne, hedit], rfl, fun more => ?_⟩
        rw [Store.writeEvents_cons_of_ok hedit, Store.run_append, Store.run_events_of_edit hedit]
      | error reason =>
        refine ⟨.error reason, s.store, by simp only [writeOne, hedit], rfl, fun more => ?_⟩
        rw [Store.writeEvents_cons_of_error hedit]
    obtain ⟨answers, hall, hlength, htold⟩ := ih { s with store := u }
    let t := ((u.resource? w.resource).bind (·.writer? w.handle)).getD default
    refine ⟨(answer, t.base.number, t.cursor) :: answers, ?_, congrArg (· + 1) hlength, ?_⟩
    · rw [writeAll, bind_run_ok hone]
      show (writeAll w rest >>= fun answers => _) _ = _
      rw [bind_run_ok hall, hevents]
      rfl
    · intro before e' rest' h
      cases before with
      | nil =>
        obtain ⟨rfl, -⟩ := List.cons_eq_cons.mp h
        exact ⟨_, _, by rw [hanswer]; rfl⟩
      | cons e'' before =>
        obtain ⟨rfl, hrest⟩ := List.cons_eq_cons.mp h
        obtain ⟨base, cursor, hat⟩ := htold before e' rest' hrest
        rw [hevents]
        exact ⟨base, cursor, hat⟩

/-! ## Commands that change the store -/

/-- What becomes of the store by an action that a session observes. -/
theorem store_observing_bind {x : Action (Observed Store) CollectionError α} {g : α → Step Answer}
    (registry : Nat) (hg : ∀ a u, (g a u).2.store = u.store) :
    ((observing registry x >>= g) s).2.store =
      (x ⟨s.store, s.countersOf registry, s.journal⟩).2.state := by
  rw [bind_run, observing]
  rcases x ⟨s.store, s.countersOf registry, s.journal⟩ with ⟨reason | a, o⟩
  · rfl
  · exact hg a _

end Session

namespace Collection

variable (f : Faults) (c : Collection) (o : Observed Store)

/-- Removing a document by its id is removing the resource with the name. -/
theorem state_remove (id : Int) : (c.remove f id o).2.state =
    o.state.run (CollectionCommand.events f c o.state (.remove id)) := by
  have hcurrent : (Observed.current o : Except CollectionError Store × _) = (.ok o.state, o) := rfl
  rw [remove, bind_run_ok hcurrent, CollectionCommand.events]
  cases c.nameOf? o.state id with
  | none => rfl
  | some name =>
    show _ = o.state.run (f.eventOf .remove (.remove c.database name))
    rw [← state_removeNamed f c name o]
    show ((liftStore (removeNamed f c name) >>= fun removed => _) o).2.state = _
    rw [bind_run, liftStore, mapError]
    rcases removeNamed f c name o with ⟨reason | removed, u⟩
    · rfl
    · cases removed <;> rfl

/-- What a request for all resources does: nothing if it is made to fail, and else it changes the store. -/
theorem run_whole (call : StoreCall) (change : Store → Store) (event : Event)
    (fields : List (String × String)) :
    let x : Action (Observed Store) CollectionError Unit := do
      liftStore (ofExcept (f.check call))
      modify fun o => { o with state := change o.state }
      Observed.report event fields
    call ∈ f.failing ∧ x o = (.error (.store (Faults.failure call)), o) ∨
      call ∉ f.failing ∧ ∃ j, x o = (.ok (), ⟨change o.state, o.counters, j⟩) := by
  intro x
  by_cases hfails : call ∈ f.failing
  · have hcheck : liftStore (ofExcept (f.check call)) o = (.error (.store (Faults.failure call)), o) := by
      rw [liftStore, mapError, show f.check call = .error (Faults.failure call) from if_pos hfails]
      rfl
    exact .inl ⟨hfails, bind_run_error hcheck⟩
  · have hcheck : liftStore (ofExcept (f.check call)) o = (.ok (), o) := by
      rw [liftStore, mapError, Faults.check_eq_ok_iff.mpr hfails]
      rfl
    exact .inr ⟨hfails, _, bind_run_ok hcheck⟩

theorem state_clear : (c.clear f o).2.state = o.state.run (f.eventOf .clear (.clear c.database)) := by
  rcases run_whole f o .clear (·.clear c.database) .collectionDeleted [("collection", c.name)] with
    ⟨hfails, hrun⟩ | ⟨hfails, j, hrun⟩
  · rw [clear, hrun, Faults.eventOf, if_pos hfails]
    rfl
  · rw [clear, hrun, Faults.eventOf, if_neg hfails]
    rfl

theorem state_close : (c.close f o).2.state = o.state.run (f.eventOf .close (.close c.database)) := by
  rcases run_whole f o .close (·.close c.database) .collectionClosed [("collection", c.name)] with
    ⟨hfails, hrun⟩ | ⟨hfails, j, hrun⟩
  · rw [close, hrun, Faults.eventOf, if_pos hfails]
    rfl
  · rw [close, hrun, Faults.eventOf, if_neg hfails]
    rfl

end Collection

namespace Session

variable {s : Session} {c : Command}

/-- The store behind a command that changes more than transactions is the one behind its events. -/
theorem store_step_of_changes (h : c.Changes) : (step c s).2.store = s.store.run (s.eventsOf c) := by
  have hacts := acts_step c s
  generalize (step c s).2 = s' at hacts ⊢
  cases hacts with
  | manages hmanages =>
    generalize s.eventsOf c = events at hmanages ⊢
    cases hmanages with
    | rest hstore | event _ hstore | located _ hstore => exact hstore
  | @collection n command c hc =>
    rw [eventsOf_collection hc]
    cases command with
    | add edits =>
      exact (store_observing_bind _ fun _ _ => rfl).trans (c.exists_outcome_addAs s.faults _ edits _).1
    | addAs name edits =>
      exact (store_observing_bind _ fun _ _ => rfl).trans (c.exists_outcome_addAs s.faults name edits _).1
    | remove id => exact (store_observing_bind _ fun _ _ => rfl).trans (c.state_remove s.faults _ id)
    | clear => exact (store_observing_bind _ fun _ _ => rfl).trans (c.state_clear s.faults _)
    | close => exact (store_observing_bind _ fun _ _ => rfl).trans (c.state_close s.faults _)
    | _ => exact h.elim
  | resource => exact h.elim
  | @document slot command d hd =>
    cases command with
    | write edits =>
      cases hw : d.writerRef? with
      | none =>
        rw [stepDocument, hw, eventsOf, hd]
        show s.store = s.store.run (d.writerRef?.elim [] _)
        rw [hw]
        rfl
      | some w =>
        rw [eventsOf_write hd hw, stepDocument, hw]
        obtain ⟨answers, hall, -⟩ := exists_writeAll w edits s
        show ((writeAll w edits >>= fun answers => pure (Answer.written answers)) s).2.store = _
        rw [bind_run_ok hall]
        rfl
    | _ => exact h.elim

/-- The store behind the events of a command is the one behind the command, up to transactions. -/
theorem sealsAlike_step (s : Session) (c : Command) :
    (s.store.run (s.eventsOf c)).SealsAlike (step c s).2.store := by
  by_cases h : c.Changes
  · rw [store_step_of_changes h]
    exact .refl _
  · rw [eventsOf_of_not_changes h]
    exact sealsAlike_step_of_not_changes h

/-! ## Shutdowns -/

/-- The event by which a command takes resources down: it has a database closed or cleared, or a resource
removed, through the database or through a collection. -/
def shutdown? (s : Session) : Command → Option StoreEvent
  | .database db .close => some (.close db)
  | .database db .clear => some (.clear db)
  | .database db (.remove name) => some (.remove db name)
  | .collection n .close => (s.collections[n]?).map fun c => .close c.database
  | .collection n .clear => (s.collections[n]?).map fun c => .clear c.database
  | .collection n (.remove id) => do
    let c ← s.collections[n]?
    let name ← c.nameOf? s.store id
    return .remove c.database name
  | _ => none

/-- What becomes of a command that takes resources down: it is refused, and nothing happens, or answered, and
its event happens. A removal is answered with whether there was anything to remove. -/
inductive ShutsDown (s : Store) (e : StoreEvent) : Except CollectionError Answer → Store → Prop
  | refused {reason : CollectionError} : ShutsDown s e (.error reason) s
  | done {a : Answer} (found : ∀ db name, e = .remove db name →
      ∃ removed u, s.remove db name = .ok (removed, u) ∧ a = .flag removed) :
      ShutsDown s e (.ok a) (s.after e)

/-- A call of the database is refused, or it is its event. -/
theorem shutsDown_change_bind {α : Type} {f : Faults} {call : StoreCall} {e : StoreEvent}
    {h : Store → Except StoreError (α × Store)} {k : α → Answer}
    (hok : ∀ {a u}, h s.store = .ok (a, u) → s.store.after e = u)
    (hfound : ∀ {a u}, h s.store = .ok (a, u) → ∀ db name, e = .remove db name →
      ∃ removed v, s.store.remove db name = .ok (removed, v) ∧ k a = .flag removed) :
    let ran := (change (fun s => do f.check call; h s) >>= fun a => pure (k a)) s
    ShutsDown s.store e ran.1 ran.2.store := by
  intro ran
  by_cases hfails : call ∈ f.failing
  · have hran : ran = (.error (.store (Faults.failure call)), s) :=
      bind_run_error (change_of_failing hfails)
    rw [hran]
    exact .refused
  · have hcall := change_of_not_failing (s := s) (h := h) hfails
    cases hrun : h s.store with
    | error reason =>
      have hran : ran = (.error (.store reason), s) :=
        bind_run_error (hcall.trans (change_run_error hrun))
      rw [hran]
      exact .refused
    | ok p =>
      have hran : ran = (.ok (k p.1), { s with store := p.2 }) :=
        bind_run_ok (hcall.trans (change_run_ok hrun))
      rw [hran]
      exact hok hrun ▸ .done (hfound hrun)

theorem shutsDown_stepDatabase {db : Nat} {f : Faults} {command : DatabaseCommand} {e : StoreEvent}
    (he : s.shutdown? (.database db command) = some e) :
    ShutsDown s.store e (stepDatabase db f command s).1 (stepDatabase db f command s).2.store := by
  cases command with
  | clear | close =>
    obtain rfl := Option.some.inj he
    refine shutsDown_change_bind (k := fun _ => .done) (fun {_ _} h => ?_) fun {_ _} _ _ _ h => by cases h
    cases h
    rfl
  | remove name =>
    obtain rfl := Option.some.inj he
    refine shutsDown_change_bind (k := .flag) (fun {_ _} h => ?_) fun {removed u} h _ _ hremove => ?_
    · simp only [Store.after, h]
    · cases hremove
      exact ⟨removed, u, h, rfl⟩
  | _ => cases he

section Collections

variable {f : Faults} (c : Collection) (o : Observed Store)

theorem shutsDown_clear (f : Faults) : ShutsDown o.state (.clear c.database)
    ((c.clear f o).1.map fun _ => .done) (c.clear f o).2.state := by
  rcases Collection.run_whole f o .clear (·.clear c.database) .collectionDeleted [("collection", c.name)]
    with ⟨-, hrun⟩ | ⟨-, j, hrun⟩
  · rw [Collection.clear, hrun]
    exact .refused
  · rw [Collection.clear, hrun]
    exact .done fun _ _ h => by cases h

theorem shutsDown_close (f : Faults) : ShutsDown o.state (.close c.database)
    ((c.close f o).1.map fun _ => .done) (c.close f o).2.state := by
  rcases Collection.run_whole f o .close (·.close c.database) .collectionClosed [("collection", c.name)]
    with ⟨-, hrun⟩ | ⟨-, j, hrun⟩
  · rw [Collection.close, hrun]
    exact .refused
  · rw [Collection.close, hrun]
    exact .done fun _ _ h => by cases h

theorem shutsDown_remove (f : Faults) {id : Int} {name : String}
    (hname : c.nameOf? o.state id = some name) :
    ShutsDown o.state (.remove c.database name) ((c.remove f id o).1.map .flag)
      (c.remove f id o).2.state := by
  have hcurrent : (Observed.current o : Except CollectionError Store × _) = (.ok o.state, o) := rfl
  rw [Collection.remove, bind_run_ok hcurrent, hname]
  dsimp only
  have hlift : Collection.liftStore (Collection.removeNamed f c name) o =
    mapError .store (Collection.removeNamed f c name) o := rfl
  by_cases hfails : .remove ∈ f.failing
  · rw [mapError, Collection.removeNamed_of_failing hfails] at hlift
    rw [bind_run_error hlift]
    exact .refused
  · rw [mapError, Collection.removeNamed_of_not_failing hfails, Observed.update] at hlift
    cases hremove : o.state.remove c.database name with
    | error reason =>
      rw [hremove] at hlift
      rw [bind_run_error hlift]
      exact .refused
    | ok p =>
      obtain ⟨removed, u⟩ := p
      rw [hremove] at hlift
      have hafter : o.state.after (.remove c.database name) = u := by simp only [Store.after, hremove]
      have hdone : ShutsDown o.state (.remove c.database name) (.ok (.flag removed)) u := by
        refine hafter ▸ .done fun db' name' h => ?_
        cases h
        exact ⟨removed, u, hremove, rfl⟩
      rw [bind_run_ok hlift]
      cases removed <;> exact hdone

end Collections

/-- What a session observes of an action is what becomes of the action. -/
theorem ShutsDown.observing {α : Type} {e : StoreEvent} {registry : Nat}
    {x : Action (Observed Store) CollectionError α} {k : α → Answer}
    (h : let ran := x ⟨s.store, s.countersOf registry, s.journal⟩
      ShutsDown s.store e (ran.1.map k) ran.2.state) :
    let ran := (Session.observing registry x >>= fun a => pure (k a)) s
    ShutsDown s.store e ran.1 ran.2.store := by
  simp only [bind_run, Session.observing]
  rcases hrun : x ⟨s.store, s.countersOf registry, s.journal⟩ with ⟨reason | a, o⟩ <;>
    exact (hrun ▸ h :)

/-- A command that takes resources down is refused, or does so and nothing else to the store. -/
theorem step_of_shutdown {e : StoreEvent} (he : s.shutdown? c = some e) :
    ShutsDown s.store e (step c s).1 (step c s).2.store := by
  cases c with
  | session | resource | document => cases he
  | database db command => exact shutsDown_stepDatabase he
  | collection n command =>
    cases hn : s.collections[n]? with
    | none =>
      rw [step, bind_run_error (collection_run_none hn)]
      exact .refused
    | some c =>
      have hstep : step (.collection n command) s = stepCollection c s.faults command s :=
        bind_run_ok (collection_run hn)
      rw [hstep]
      cases command with
      | clear =>
        simp only [shutdown?, hn, Option.map_some, Option.some.injEq] at he
        exact he ▸ (shutsDown_clear c ⟨s.store, s.countersOf c.registry, s.journal⟩ s.faults).observing
      | close =>
        simp only [shutdown?, hn, Option.map_some, Option.some.injEq] at he
        exact he ▸ (shutsDown_close c ⟨s.store, s.countersOf c.registry, s.journal⟩ s.faults).observing
      | remove id =>
        simp only [shutdown?, hn, Option.bind_eq_bind, Option.bind_some] at he
        obtain ⟨name, hname, he⟩ := Option.bind_eq_some_iff.mp he
        obtain rfl := Option.some.inj he
        have hdown := shutsDown_remove c ⟨s.store, s.countersOf c.registry, s.journal⟩ s.faults hname
        exact hdown.observing
      | _ => cases he

/-! ## New documents -/

/-- The command asks a collection for a new document under a name, made by a script. -/
inductive Adds (s : Session) : Command → Collection → String → List Edit → Prop
  | add {n : Nat} {c : Collection} {edits : List Edit} (hc : s.collections[n]? = some c) :
      Adds s (.collection n (.add edits)) c (c.nextName s.store) edits
  | addAs {n : Nat} {c : Collection} {name : String} {edits : List Edit}
      (hc : s.collections[n]? = some c) : Adds s (.collection n (.addAs name edits)) c name edits

/-- A new document goes into the next slot, and if there is none, the answer says why. -/
theorem outcome_of_adds {maker : Collection} {name : String} {edits : List Edit}
    (h : s.Adds c maker name edits) : ∃ result,
      Collection.Outcome s.faults maker s.store name edits result (step c s).2.store ∧
      (∀ document, result = .ok document →
        (∃ view, (step c s).1 = .ok (.document s.documents.size view)) ∧
          (step c s).2.documents = s.documents.push (some document)) ∧
      ∀ reason, result = .error reason → (step c s).1 = .error (.ingestion name reason) := by
  have hstep : step c s = (observing maker.registry (maker.addAs s.faults name edits) >>= fun d =>
      giveOrNone (some d)) s := by
    cases h with
    | add hc | addAs hc => exact bind_run_ok (collection_run hc)
  rw [hstep, bind_run, observing]
  obtain ⟨hstore, result, hanswer, houtcome⟩ :=
    maker.exists_outcome_addAs s.faults name edits ⟨s.store, s.countersOf maker.registry, s.journal⟩
  rcases hrun : maker.addAs s.faults name edits ⟨s.store, s.countersOf maker.registry, s.journal⟩ with
    ⟨answer, o⟩
  rw [hrun] at hstore hanswer
  obtain rfl : answer = result.mapError (.ingestion name) := hanswer
  have hmade : Collection.Outcome s.faults maker s.store name edits result o.state := by
    rw [show o.state = _ from hstore]
    exact houtcome
  refine ⟨result, ?_, ?_, ?_⟩
  · cases result <;> exact hmade
  · rintro document rfl
    exact ⟨⟨_, rfl⟩, rfl⟩
  · rintro reason rfl
    rfl

end Session

end AsOf
