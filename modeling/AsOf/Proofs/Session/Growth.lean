import AsOf.Proofs.Lookup.Reader
import AsOf.Proofs.Session.Events

/-!
# Sealed histories of a session

Whatever is asked of a session, a sealed history grows at its end only, and by commits only: every edit that
is answered with a revision sealed it, and so did every new document. What was sealed is out of reach of all
writers: who reads it, reads the same forever, through a read transaction that was opened before, through
one that is opened later, and as of every time before that of the latest revision.

## Main definitions

* `Store.Seals`, `Store.Growth`: what an event does to the sealed entries of a resource
* `Store.CommitTold`: what a commit is answered, and what it seals
* `Session.Grows`: what a command does to sealed histories

## Main results

* `Store.Arose.growth_after`: an event seals at most one revision, and only if it is a commit
* `Store.Arose.commitTold`: a commit is answered with the revision that it seals, or refused
* `Session.grows_step`: what every command does to sealed histories
* `Resource.Sound.snapshotAsOf_readOnly_of_isPrefix`: snapshots of the past do not change
* `sealed_history_grows`: what becomes of sealed histories and their readers
-/

namespace AsOf

open Observed AsOf.Action

/-- A write transaction that is not closed is sealed: the history gets one entry more, under the next
number, at the time of the clock or at that of the latest revision if the clock is behind, with the tree of
the transaction, which grew from that of the revision it was based on. -/
structure Store.Seals (s : Store) (handle : Nat) (t : Transaction) (r r' : Resource) : Prop where
  live : r.liveWriter handle = .ok t
  grew : ∃ tree, r.history.revision? t.base.number = some (t.base, tree) ∧ tree.GrowsTo t.tree
  entries : r'.history.entries = r.history.entries ++
    [(⟨r.mostRecent.next, s.clock.latest r.history.latest.time⟩, t.tree)]

/-- What an event does to the sealed entries of the resource at a place. A commit of a write transaction
that is not closed seals it, and every other event adds nothing. -/
inductive Store.Growth (s : Store) (place : Nat) (e : StoreEvent) (r r' : Resource) : Prop
  | sealed {handle : Nat} {now : Instant} {t : Transaction}
      (commit : e = .resource place (.edit handle now .commit)) (h : s.Seals handle t r r')
  | kept
      (other : ∀ handle now t, e = .resource place (.edit handle now .commit) →
        r.liveWriter handle ≠ .ok t)
      (entries : r'.history.entries = r.history.entries)

/-- What a commit is answered, and the store behind it: the number of the revision that it sealed, or a
refusal if the write transaction is closed, and then nothing has changed. -/
inductive Store.CommitTold (s s' : Store) (w : WriterRef) : Except StoreError EditAnswer → Prop
  | sealed {r r' : Resource} {t : Transaction} (before : s.resource? w.resource = some r)
      (behind : s'.resource? w.resource = some r') (h : s.Seals w.handle t r r') :
      CommitTold s s' w (.ok (.revision r.mostRecent.next))
  | refused (closed : ∀ r t, s.resource? w.resource = some r → r.liveWriter w.handle ≠ .ok t)
      (same : s' = s) : CommitTold s s' w (.error .trxClosed)

namespace Store

variable {s : Store} {place : Nat} {r : Resource}

/-- What an event does to the sealed entries of a resource. -/
theorem Arose.growth_after (hs : s.Arose) (hr : s.resource? place = some r) (e : StoreEvent) :
    ∃ r', (s.after e).resource? place = some r' ∧ s.Growth place e r r' := by
  refine ⟨_, resource?_after hr e, ?_⟩
  have hsound := hs.sound hr
  cases e with
  | resource p event =>
    by_cases hp : p = place
    · subst hp
      have hevent : s.eventsAt p (.resource p event) = [event.reading s.clock] := if_pos rfl
      rw [hevent]
      have hentries := hsound.entries_after (event.reading s.clock)
      cases hseal : r.sealing? (event.reading s.clock) with
      | some x =>
        obtain ⟨handle, now, t, hcommit, live, rfl⟩ := Resource.sealing?_eq_some_iff.mp hseal
        obtain ⟨tree, hbase, hgrew⟩ := (hs.grown hr).base (Resource.liveWriter_eq_ok_iff.mp live).1
        rw [hseal] at hentries
        cases event with
        | edit k time edit =>
          cases hcommit
          exact .sealed rfl ⟨live, ⟨tree, hbase, hgrew⟩, hentries⟩
        | _ => cases hcommit
      | none =>
        rw [hseal, Option.map_none, Option.toList_none, List.append_nil] at hentries
        refine .kept (fun handle now t he live => ?_) hentries
        cases he
        cases hseal.symm.trans (Resource.sealing?_eq_some_iff.mpr ⟨handle, _, t, rfl, live, rfl⟩)
    · have hevent : s.eventsAt place (.resource p event) = [] := if_neg hp
      rw [hevent]
      refine .kept (fun handle now t he live => ?_) rfl
      cases he
      exact hp rfl
  | setClock | addDatabase | create | remove | clear | close =>
    refine .kept (fun handle now t he live => by cases he) (congrArg _ (Resource.history_run ?_))
    intro event h
    rw [eq_endWriter_of_mem_eventsAt (by trivial) h]
    exact id

/-- A commit is answered with the revision that it seals, or refused. -/
theorem Arose.commitTold (hs : s.Arose) (w : WriterRef) :
    s.CommitTold (s.run (s.writeEvents w [.commit])) w ((s.edit w .commit).map Prod.fst) := by
  cases hr : s.resource? w.resource with
  | none =>
    have hedit : s.edit w .commit = .error .trxClosed := by simp only [edit, hr]
    rw [writeEvents_cons_of_error hedit, hedit]
    exact .refused (fun r t h => by cases hr.symm.trans h) rfl
  | some r =>
    cases live : r.liveWriter w.handle with
    | error reason =>
      obtain rfl := Resource.eq_trxClosed_of_liveWriter live
      have hedit : s.edit w .commit = .error .trxClosed :=
        edit_eq_of_error hr (by simp only [Resource.edit, Resource.commit, live]; rfl)
      rw [writeEvents_cons_of_error hedit, hedit]
      refine .refused (fun u t h hlive => ?_) rfl
      obtain rfl := Option.some.inj (hr.symm.trans h)
      cases live.symm.trans hlive
    | ok t =>
      have hcommit : r.edit w.handle s.clock .commit =
          .ok (.revision r.mostRecent.next, r.committed w.handle t s.clock) :=
        except_bind_eq_ok_iff.mpr ⟨_, Resource.commit_eq_ok_iff.mpr ⟨t, live, rfl, rfl⟩, rfl⟩
      have hedit := edit_eq_of_ok hr hcommit
      have hevents : s.writeEvents w [.commit] = [.resource w.resource (.edit w.handle .epoch .commit)] :=
        writeEvents_cons_of_ok hedit []
      rw [hevents, hedit]
      obtain ⟨r', hr', hgrowth⟩ := hs.growth_after hr (.resource w.resource (.edit w.handle .epoch .commit))
      cases hgrowth with
      | sealed hcommit h =>
        cases hcommit
        exact .sealed hr hr' h
      | kept other => exact absurd live (other _ _ t rfl)

/-- A history keeps its entries along a run. -/
theorem Arose.entries_prefix_run (hs : s.Arose) (hr : s.resource? place = some r)
    (events : List StoreEvent) :
    ∃ r', (s.run events).resource? place = some r' ∧ r'.Sound ∧
      r.history.entries <+: r'.history.entries :=
  ⟨_, resource?_run hr events, (hs.run events).sound (resource?_run hr events),
    (hs.sound hr).entries_prefix_run _⟩

end Store

namespace Resource

variable {r r' : Resource}

/-- A read-only snapshot as of a time before that of the latest revision does not change when the
history grows. -/
theorem Sound.snapshotAsOf_readOnly_of_isPrefix (hr : r.Sound) (hr' : r'.Sound)
    (hp : r.history.entries <+: r'.history.entries) {time : Instant}
    (hlt : time < r.history.latest.time) (c c' : Counters) (j j' : Journal) :
    (snapshotAsOf .none time .readOnly ⟨r', c', j'⟩).1 =
      (snapshotAsOf .none time .readOnly ⟨r, c, j⟩).1 := by
  obtain ⟨found, _, _, _, _, hreading, hdoes⟩ := hr.does_snapshotAsOf_readOnly time
  obtain ⟨found', _, _, _, _, hreading', hdoes'⟩ := hr'.does_snapshotAsOf_readOnly time
  rw [hdoes c j, hdoes' c' j', hreading.found_eq hr hr' hreading'
    (fun floor => floor.of_isPrefix hr.history hr'.history hp hlt) fun hstarts => hstarts.of_isPrefix hp]

/-- A sealed revision is read alike when the history grows. -/
theorem startReader_of_isPrefix (hp : r.history.entries <+: r'.history.entries)
    {number : RevisionNumber} {trx : Transaction} {u : Resource}
    (h : r.startReader number = .ok (trx, u)) : ∃ u', r'.startReader number = .ok (trx, u') := by
  obtain ⟨s, tree, hs, rfl, -⟩ := startReader_eq_ok_iff.mp h
  exact ⟨_, startReader_eq_ok_iff.mpr ⟨s, tree, History.revision?_of_isPrefix hp hs, rfl, rfl⟩⟩

end Resource

/-- A transaction with its cursor elsewhere is moved to every node alike. -/
theorem Transaction.moveTo_of_eq {t t' : Transaction} (h : t' = { t with cursor := t'.cursor })
    (key : Nat) : t'.moveTo key = t.moveTo key := by
  rw [h]
  rfl

/-! ## Commands -/

/-- What concerns the store as a whole is no commit. -/
theorem Faults.not_isCommit_of_mem_eventOf {f : Faults} {call : StoreCall} {e e' : StoreEvent}
    (h : e ∈ f.eventOf call e') (he' : e'.IsGlobal) : ¬e.IsCommit := by
  obtain rfl := eq_of_mem_eventOf h
  cases e with
  | resource => exact he'.elim
  | _ => exact id

theorem DatabaseCommand.not_isCommit_of_mem_events {f : Faults} {db : Nat} (command : DatabaseCommand)
    {e : StoreEvent} (h : e ∈ command.events f db) : ¬e.IsCommit := by
  cases command with
  | create | remove | clear | close => exact Faults.not_isCommit_of_mem_eventOf h trivial
  | _ => cases h

/-- Only new documents commit. -/
theorem CollectionCommand.not_isCommit_of_mem_events {f : Faults} {c : Collection} {s : Store} {n : Nat}
    (command : CollectionCommand) (hnot : ¬(Command.collection n command).Commits) {e : StoreEvent}
    (h : e ∈ command.events f c s) : ¬e.IsCommit := by
  cases command with
  | add | addAs => exact absurd trivial hnot
  | remove id =>
    obtain ⟨name, -, h⟩ := exists_of_mem_elim h
    exact Faults.not_isCommit_of_mem_eventOf h trivial
  | clear | close => exact Faults.not_isCommit_of_mem_eventOf h trivial
  | _ => cases h

namespace Session

variable {s : Session} {c : Command}

/-- What a command does to sealed histories. Up to transactions, it does to the store what its events do, and
each of them seals what it seals and nothing else. Commits are among them only if the command asks for
edits that commit, or for a new document. Each edit that is to commit is answered with the revision that it
sealed, or refused, and a new document is there with what its script sealed. -/
structure Grows (s : Session) (c : Command) : Prop where
  store : (s.store.run (s.eventsOf c)).SealsAlike (step c s).2.store
  commits : ∀ e ∈ s.eventsOf c, e.IsCommit → c.Commits
  growth : ∀ {before e}, before ++ [e] <+: s.eventsOf c →
    ∀ {place r}, (s.store.run before).resource? place = some r →
      ∃ r', (s.store.run (before ++ [e])).resource? place = some r' ∧
        (s.store.run before).Growth place e r r'
  written : ∀ {slot d w edits}, c = .document slot (.write edits) → s.documents[slot]? = some (some d) →
    d.writerRef? = some w → s.eventsOf c = s.store.writeEvents w edits ∧
      ∃ answers, (step c s).1 = .ok (.written answers) ∧ answers.length = edits.length ∧
        ∀ before rest, edits = before ++ .commit :: rest → ∃ answer base cursor,
          answers[before.length]? = some (answer, base, cursor) ∧
          (s.store.run (s.store.writeEvents w before)).CommitTold
            (s.store.run (s.store.writeEvents w (before ++ [.commit]))) w answer
  added : ∀ {maker name edits}, s.Adds c maker name edits → ∀ answer, (step c s).1 = .ok answer →
    ∃ d document, s.store.openDatabase maker.database = .ok d ∧ d.find? name = none ∧
      (step c s).2.documents = s.documents.push (some document) ∧
      maker.Ingests s.store d name edits document (step c s).2.store

/-- There are commits among the events of a command only if it commits. -/
theorem commits_of_mem_eventsOf {e : StoreEvent} (h : e ∈ s.eventsOf c) (he : e.IsCommit) :
    c.Commits := by
  cases c with
  | session command =>
    cases command with
    | setClock | addDatabase =>
      obtain rfl := List.mem_singleton.mp h
      exact he.elim
    | _ => cases h
  | database db command => exact absurd he (command.not_isCommit_of_mem_events h)
  | collection n command =>
    obtain ⟨c, -, h⟩ := exists_of_mem_elim h
    by_contra hnot
    exact command.not_isCommit_of_mem_events (fun hc => hnot hc) h he
  | resource => cases h
  | document slot command =>
    cases command with
    | write edits =>
      obtain ⟨w, -, h⟩ := exists_of_mem_elim h
      obtain ⟨e', he', hevent⟩ := Store.exists_edit_of_mem_writeEvents h
      obtain rfl := WriterRef.eq_commit_of_mem_events hevent he
      exact he'
    | _ => cases h

/-- What every command does to sealed histories. -/
theorem grows_step (hs : s.store.Arose) (c : Command) : s.Grows c where
  store := sealsAlike_step s c
  commits _ h he := commits_of_mem_eventsOf h he
  growth {before e} _ {place r} hr := by
    obtain ⟨r', hr', hgrowth⟩ := (hs.run before).growth_after hr e
    refine ⟨r', ?_, hgrowth⟩
    rw [Store.run_append]
    exact hr'
  written {slot d w edits} hc hd hw := by
    subst hc
    refine ⟨eventsOf_write hd hw, ?_⟩
    obtain ⟨answers, hall, hlength, htold⟩ := exists_writeAll w edits s
    refine ⟨answers, ?_, hlength, fun before rest h => ?_⟩
    · rw [step, bind_run_ok (document_run (by rw [hd]; rfl)), stepDocument, hw]
      exact congrArg Prod.fst (bind_run_ok hall)
    · obtain ⟨base, cursor, hat⟩ := htold before .commit rest h
      refine ⟨_, base, cursor, hat, ?_⟩
      rw [Store.writeEvents_append, Store.run_append]
      exact (hs.run _).commitTold w
  added {maker name edits} hadds answer hanswer := by
    obtain ⟨result, houtcome, hdocument, hfailed⟩ := outcome_of_adds hadds
    cases result with
    | error reason => cases (hfailed reason rfl).symm.trans hanswer
    | ok document =>
      obtain ⟨-, hgiven⟩ := hdocument document rfl
      generalize (step c s).2 = s' at houtcome hgiven ⊢
      cases houtcome with
      | made _ hopen hfree h => exact ⟨_, document, hopen, hfree, hgiven, h⟩

end Session

/-- **Sealed histories only grow at their end, and readers do not notice.** Take any session. Whatever it is
asked next, `Session.Grows` says what that does to what is sealed: it tells the events of the command, what
each of them seals, and that commits and new documents are answered according to what was sealed. Now take
whatever is asked of it later. Every history keeps its entries, also after the resource was removed or its
database was closed. So every revision is read as before, and so is the state as of every time before that
of the latest revision. A document that shows a read transaction goes on showing it, up to its cursor, until
it is given up or closed, and answers to being moved to each node as before. -/
theorem sealed_history_grows (clock : Instant) (lastId : Nat) (threshold : Severity)
    (earlier later : List Command) :
    let s := ((Session.begin clock lastId threshold).play earlier).2
    let s' := (s.play later).2
    (∀ c, s.Grows c) ∧
      (∀ place r, s.store.resource? place = some r →
        ∃ r', s'.store.resource? place = some r' ∧ r.history.entries <+: r'.history.entries ∧
          (∀ number trx u, r.startReader number = .ok (trx, u) →
            ∃ u', r'.startReader number = .ok (trx, u')) ∧
          ∀ time < r.history.latest.time, ∀ c c' j j',
            (snapshotAsOf .none time .readOnly ⟨r', c', j'⟩).1 =
              (snapshotAsOf .none time .readOnly ⟨r, c, j⟩).1) ∧
      ∀ slot d trx, s.documents[slot]? = some (some d) → d.lease = .reader trx →
        (∀ c ∈ later, ¬c.Ends slot) →
        ∃ d' trx', s'.documents[slot]? = some (some d') ∧ d' = { d with lease := .reader trx' } ∧
          trx' = { trx with cursor := trx'.cursor } ∧ ∀ key, trx'.moveTo key = trx.moveTo key := by
  intro s s'
  have hs : s.store.Arose := Session.arose_play clock lastId threshold earlier
  obtain ⟨⟨events, -, hstore⟩, hdocuments⟩ := Session.follows_play hs later
  refine ⟨Session.grows_step hs, fun place r hr => ?_, ?_⟩
  · obtain ⟨r', hr', hsound, hp⟩ := hs.entries_prefix_run hr events
    refine ⟨r', hstore ▸ hr', hp, fun number trx u h => Resource.startReader_of_isPrefix hp h, ?_⟩
    intro time hlt c c' j j'
    exact (hs.sound hr).snapshotAsOf_readOnly_of_isPrefix hsound hp hlt c c' j j'
  · intro slot d trx hd hlease hends
    obtain ⟨d', hd', heq, hcontinues⟩ := hdocuments hends hd
    rw [hlease] at hcontinues
    cases hlease' : d'.lease with
    | writer handle =>
      rw [hlease'] at hcontinues
      cases hcontinues
    | reader trx' =>
      rw [hlease'] at hcontinues heq
      cases hcontinues with
      | reader h => exact ⟨d', trx', hd', heq, h, Transaction.moveTo_of_eq h⟩

end AsOf
