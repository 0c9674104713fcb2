import AsOf.Proofs.Resource.Writers
import AsOf.Proofs.Session.Growth
import AsOf.Proofs.Session.Account

/-!
# One write transaction at a time

However many collections, documents and callers share a resource, one write transaction of it is not closed
at most, and it is the one that everybody gets who asks for a document to change. It ends when it is closed,
its resource is removed or its database is shut down, and not when a document on it is closed or given up.
Whoever holds it then is refused.

## Main definitions

* `CursorMove.Uses`: the requests that work with a transaction
* `Session.Shares`: how the callers of a session share the write transaction of a resource

## Main results

* `Session.step_write_of_closed`, `Session.step_cursor_of_closed`: a write transaction that was closed
  refuses what is done to it through a document
* `Session.step_startWriter_of_running`, `Session.step_startWriter_of_idle`: opening one through a resource
* `Session.readersOnly_step_of_ends`: a document that ends leaves it alone
* `one_writer_at_a_time`: what holds in every session, and from then on
-/

namespace AsOf

open AsOf.Action

/-- The request works with the transaction, instead of asking for its revision. -/
def CursorMove.Uses : CursorMove → Prop
  | .toRoot | .moveTo _ | .readNode => True
  | .readRevision => False

/-! ## Documents that are given up -/

namespace Store

variable {s : Store} {place : Nat} {r : Resource}

/-- The end of a document is of no account to a resource but for its counts of read transactions. -/
theorem readersOnly_endReader (hr : s.resource? place = some r) (d : Document) :
    ∃ r', (d.endReader s).2.resource? place = some r' ∧ r.ReadersOnly r' := by
  unfold Document.endReader
  split
  · exact ⟨r, hr, .refl r⟩
  · next trx _ =>
    split
    · exact ⟨r, hr, .refl r⟩
    · next u hu =>
      have hended : u.ReadersOnly (u.endReader trx).2 := by
        unfold Resource.endReader
        split
        · exact .refl u
        · exact (Resource.ReadersOnly.refl u).countedClose
      rw [resource?_setResource hu]
      split
      · next hplace =>
        subst hplace
        obtain rfl := Option.some.inj (hr.symm.trans hu)
        exact ⟨_, rfl, hended⟩
      · exact ⟨r, hr, .refl r⟩

theorem readersOnly_releaseAll (hr : s.resource? place = some r) (ds : List Document) :
    ∃ r', (ds.foldl (fun s d => d.release s) s).resource? place = some r' ∧ r.ReadersOnly r' := by
  induction ds generalizing s r with
  | nil => exact ⟨r, hr, .refl r⟩
  | cons d ds ih =>
    obtain ⟨u, hu, hended⟩ := readersOnly_endReader hr d
    obtain ⟨r', hr', hrest⟩ := ih hu
    exact ⟨r', hr', hended.trans hrest⟩

end Store

/-! ## What is refused once it was closed -/

theorem Transaction.moveCursor_of_closed {t : Transaction} (hclosed : t.closed = true) {m : CursorMove}
    (hm : m.Uses) : Session.moveCursor t m = (.error .trxClosed, t) := by
  have hrefused : t.ensureOpen = .error .trxClosed := if_pos hclosed
  cases m with
  | toRoot | moveTo | readNode =>
    simp only [Session.moveCursor, Transaction.moveTo, Transaction.node, hrefused, bind, Except.bind,
      Except.map]
  | readRevision => cases hm

theorem Transaction.moveAll_of_closed {t : Transaction} (hclosed : t.closed = true)
    {moves : List CursorMove} (hmoves : ∀ m ∈ moves, m.Uses) :
    Session.moveAll t moves = (moves.map fun _ => (.error .trxClosed, t.cursor), t) := by
  induction moves with
  | nil => rfl
  | cons m rest ih =>
    have hfirst := moveCursor_of_closed hclosed (hmoves m List.mem_cons_self)
    have hrest := ih fun m' h => hmoves m' (List.mem_cons_of_mem m h)
    simp only [Session.moveAll, hfirst, hrest, List.map_cons]

namespace Session

variable {α : Type} {s : Session} {place handle slot n : Nat} {r : Resource} {t : Transaction} {d : Document}

/-- Where the resource of a write transaction that was closed is found, every use of it is refused and
changes nothing. -/
theorem writeOne_of_closed {edit : Edit} (hr : s.store.resource? place = some r)
    (ht : r.writer? handle = some t) (hclosed : t.closed = true) (huses : edit.Uses) :
    writeOne ⟨place, handle⟩ edit s = (.ok (.error .trxClosed), s) := by
  have hrefused : s.store.edit ⟨place, handle⟩ edit = .error .trxClosed :=
    Store.edit_eq_of_error hr (Resource.edit_of_closed ht hclosed huses _)
  simp only [writeOne, hrefused]

theorem writeAll_of_closed {edits : List Edit} (hr : s.store.resource? place = some r)
    (ht : r.writer? handle = some t) (hclosed : t.closed = true) (huses : ∀ e ∈ edits, e.Uses) :
    writeAll ⟨place, handle⟩ edits s =
      (.ok (edits.map fun _ => (.error .trxClosed, t.base.number, t.cursor)), s) := by
  induction edits with
  | nil => rfl
  | cons e rest ih =>
    have hfirst := writeOne_of_closed hr ht hclosed (huses e List.mem_cons_self)
    have hrest := ih fun e' h => huses e' (List.mem_cons_of_mem e h)
    rw [writeAll, bind_run_ok hfirst]
    simp only [bind_run, Action.get, hrest, hr, Option.bind_some, ht, Option.getD_some, List.map_cons]
    rfl

/-- Edits through a document whose write transaction was closed. -/
theorem step_write_of_closed {edits : List Edit} (hd : s.documents[slot]? = some (some d))
    (hlease : d.lease = .writer handle) (hr : s.store.resource? d.place = some r)
    (ht : r.writer? handle = some t) (hclosed : t.closed = true) (huses : ∀ e ∈ edits, e.Uses) :
    step (.document slot (.write edits)) s =
      (.ok (.written (edits.map fun _ => (.error .trxClosed, t.base.number, t.cursor))), s) := by
  have hwriter : d.writerRef? = some ⟨d.place, handle⟩ := by rw [Document.writerRef?, hlease]
  have hall := writeAll_of_closed hr ht hclosed huses
  rw [step, bind_run_ok (document_run (Option.join_eq_some_iff.mpr hd)), stepDocument, hwriter]
  exact bind_run_ok hall

/-- Moves and looks through a document whose write transaction was closed. -/
theorem step_cursor_of_closed {moves : List CursorMove} (hd : s.documents[slot]? = some (some d))
    (hlease : d.lease = .writer handle) (hr : s.store.resource? d.place = some r)
    (ht : r.writer? handle = some t) (hclosed : t.closed = true) (hmoves : ∀ m ∈ moves, m.Uses) :
    step (.document slot (.cursor moves)) s =
      (.ok (.moved (moves.map fun _ => (.error .trxClosed, t.cursor))), s) := by
  have htrx : d.transaction s.store = t := by
    simp only [Document.transaction, hlease, hr, Option.bind_some, ht, Option.getD_some]
  have hput : d.put s.store t = (d, s.store) := by
    have hset : r.setWriter handle t = r := by
      rw [Resource.setWriter, setIfInBounds_self ht]
    simp only [Document.put, hlease, hr, hset, Store.setResource_self hr]
  have hslot : s.documents.setIfInBounds slot (some d) = s.documents := setIfInBounds_self hd
  have hmoved := Transaction.moveAll_of_closed hclosed hmoves
  rw [step, bind_run_ok (document_run (Option.join_eq_some_iff.mpr hd))]
  simp only [stepDocument, bind_run, Action.get, setStore, setDocument, Action.modify, htrx, hmoved,
    hput, hslot]
  rfl

/-! ## Opening -/

/-- The counts of a registry are what they were if nothing was counted. -/
theorem modify_countersOf (s : Session) (registry : Nat) :
    (s.registries.modify registry fun g => { g with counters := s.countersOf registry }) =
      s.registries := by
  refine Array.ext_getElem? fun i => ?_
  rw [Array.getElem?_modify]
  split
  · next h =>
    subst h
    rw [countersOf]
    cases s.registries[registry]? <;> rfl
  · rfl

/-- What is done to a resource, and neither counts nor reports, changes the store at its place only. -/
theorem onResource_of_quiet {a : Except StoreError α} {r' : Resource} (hr : s.store.resource? place = some r)
    {x : Action (Observed Resource) StoreError α} (hx : Observed.Does x r a r' [] []) (registry : Nat) :
    onResource place registry x s =
      (a.mapError .store, { s with store := s.store.setResource place r' }) := by
  have hrun : x ⟨r, s.countersOf registry, s.journal⟩ = (a, ⟨r', s.countersOf registry, s.journal⟩) :=
    hx _ _
  rw [onResource, observing]
  simp only [Collection.liftStore, Action.mapError, Observed.onResource, hr, hrun]
  cases a with
  | error e | ok a =>
    simp only [modify_countersOf]
    rfl

section Starting

variable (hn : s.resources[n]? = some place) (hr : s.store.resource? place = some r)
  (hcheck : s.faults.check .startWriter = .ok ())
include hn hr hcheck

/-- What comes of opening a write transaction is given out in a document. -/
theorem step_startWriter {a : Except StoreError Nat} {r' : Resource}
    (hx : Observed.Does (Observed.update Resource.startWriter) r a r' [] []) :
    step (.resource n .startWriter) s =
      (Action.ofExcept (a.mapError CollectionError.store) >>= fun handle => giveLease place (.writer handle))
        { s with store := s.store.setResource place r' } := by
  have hstart : Observed.Does (Action.ofExcept (s.faults.check .startWriter) >>= fun _ =>
      Observed.update Resource.startWriter : Action (Observed Resource) StoreError Nat) r a r' [] [] := by
    rw [hcheck]
    exact (Observed.does_ofExcept r (.ok ())).bind hx
  rw [step, bind_run_ok (place_run hn)]
  have hanswer := onResource_of_quiet hr hstart 0
  show (onResource place 0 _ >>= _) s = _
  rw [bind_run, bind_run, hanswer]
  rfl

/-- While a write transaction is running, no other is opened, and nothing changes. -/
theorem step_startWriter_of_running (hrun : r.running = some handle) :
    step (.resource n .startWriter) s = (.error (.store (.writeTrxRunning r.name)), s) := by
  have hrefused := Observed.does_update_error (Resource.startWriter_of_running hrun)
  rw [step_startWriter hn hr hcheck hrefused, Store.setResource_self hr]
  rfl

/-- Where none is running, one is opened on the most recent revision, and it is given out in a document. -/
theorem step_startWriter_of_idle (hsound : r.Sound) (idle : r.running = none) :
    ∃ tree view, r.history.revision? r.mostRecent = some (r.history.latest, tree) ∧
      (step (.resource n .startWriter) s).1 = .ok (.document s.documents.size view) ∧
      (step (.resource n .startWriter) s).2.store.resource? place = some (r.opened tree) := by
  obtain ⟨tree, hs, hopened⟩ := hsound.exists_startWriter idle
  let t : Session := { s with store := s.store.setResource place (r.opened tree) }
  have ht : t.store.resource? place = some (r.opened tree) := by
    rw [Store.resource?_setResource hr, if_pos rfl]
  let d : Document := ⟨(s.collections[0]?).elim 0 (·.id), r.name, place, .writer r.writers.size⟩
  have hstep : step (.resource n .startWriter) s = giveLease place (.writer r.writers.size) t :=
    step_startWriter hn hr hcheck (Observed.does_update hopened)
  have hgiven : giveLease place (.writer r.writers.size) t =
      (.ok (.document s.documents.size (t.view d)), { t with documents := s.documents.push (some d) }) := by
    simp only [giveLease, bind_run, Action.get, resourceAt_run ht]
    rfl
  rw [hstep, hgiven]
  exact ⟨tree, t.view d, hs, rfl, ht⟩

end Starting

/-! ## Ending -/

/-- A command that closes a document, or gives it up, is of no account to a resource but for its counts of
read transactions. -/
theorem readersOnly_step_of_ends (hr : s.store.resource? place = some r) {c : Command} (hc : c.Ends slot) :
    ∃ r', (step c s).2.store.resource? place = some r' ∧ r.ReadersOnly r' := by
  cases c with
  | session | collection | database | resource => cases hc
  | document k command =>
    cases hd : s.documents[k]?.join with
    | none =>
      rw [step, bind_run_error (document_run_none hd)]
      exact ⟨r, hr, .refl r⟩
    | some d =>
      rw [step, bind_run_ok (document_run hd)]
      cases command with
      | endReader | release => exact Store.readersOnly_endReader hr d
      | _ => cases hc

/-! ## Sharing -/

/-- How the callers of a session share the write transaction of the resource at a place. One is not closed
at most, and it is the one in the slot. Who asks for it gets it, and it is opened only if none is running:
nobody is refused but who wants to open another one. Each read transaction that is counted as opened and not
as closed is a document. Documents that are closed or given up leave the resource as it is, up to the counts
of read transactions. What is done through a document to a write transaction that was closed is refused, and
changes nothing. -/
structure Shares (s : Session) (place : Nat) (r : Resource) : Prop where
  writer : r.OneWriter
  leases : r.Leases
  serves : ∀ {handle}, r.running = some handle → r.Serves handle
  starts_iff : ∀ {n}, s.resources[n]? = some place → s.faults.check .startWriter = .ok () →
    ((step (.resource n .startWriter) s).1.isOk = true ↔ r.running = none)
  refused : ∀ {n}, s.resources[n]? = some place → s.faults.check .startWriter = .ok () →
    r.running.isSome → step (.resource n .startWriter) s = (.error (.store (.writeTrxRunning r.name)), s)
  readers : r.tally.readOpened = r.tally.readClosed + s.readers place
  ended : ∀ {c slot}, Command.Ends slot c →
    ∃ r', (step c s).2.store.resource? place = some r' ∧ r.ReadersOnly r'
  dropped : ∀ batch : Batch Document,
    ∃ r', (releaseBatch batch s).2.store.resource? place = some r' ∧ r.ReadersOnly r'
  written : ∀ {slot d handle t}, s.documents[slot]? = some (some d) → d.place = place →
    d.lease = .writer handle → r.writer? handle = some t → t.closed = true → ∀ {edits : List Edit},
    (∀ e ∈ edits, e.Uses) → step (.document slot (.write edits)) s =
      (.ok (.written (edits.map fun _ => (.error .trxClosed, t.base.number, t.cursor))), s)
  moved : ∀ {slot d handle t}, s.documents[slot]? = some (some d) → d.place = place →
    d.lease = .writer handle → r.writer? handle = some t → t.closed = true → ∀ {moves : List CursorMove},
    (∀ m ∈ moves, m.Uses) → step (.document slot (.cursor moves)) s =
      (.ok (.moved (moves.map fun _ => (.error .trxClosed, t.cursor))), s)

/-- Where all resources arose from new ones, and the account of read transactions is right, they are
shared. -/
theorem shares_of_arose (hs : s.store.Arose) (hbalanced : BalancedWith [] s)
    (hr : s.store.resource? place = some r) : s.Shares place r := by
  have hsound : r.Sound := hs.sound hr
  have hwriter : r.OneWriter := by
    obtain ⟨name, lookup, created, events, rfl⟩ := hs place r hr
    exact Resource.oneWriter_run name lookup created events
  constructor
  case writer => exact hwriter
  case leases => exact hsound.leases
  case serves => exact hsound.serves
  case starts_iff =>
    intro n hn hcheck
    cases hrun : r.running with
    | some handle =>
      rw [step_startWriter_of_running hn hr hcheck hrun]
      exact ⟨nofun, nofun⟩
    | none =>
      obtain ⟨tree, view, -, hanswer, -⟩ := step_startWriter_of_idle hn hr hcheck hsound hrun
      rw [hanswer]
      exact ⟨fun _ => rfl, fun _ => rfl⟩
  case refused =>
    intro n hn hcheck hbusy
    obtain ⟨handle, hrun⟩ := Option.isSome_iff_exists.mp hbusy
    exact step_startWriter_of_running hn hr hcheck hrun
  case readers => exact hbalanced.balanced.counted hr
  case ended =>
    intro c slot hends
    exact readersOnly_step_of_ends hr hends
  case dropped =>
    intro batch
    exact Store.readersOnly_releaseAll hr batch.items
  case written =>
    rintro slot d handle t hd rfl hlease ht hclosed edits huses
    exact step_write_of_closed hd hlease hr ht hclosed huses
  case moved =>
    rintro slot d handle t hd rfl hlease ht hclosed moves huses
    exact step_cursor_of_closed hd hlease hr ht hclosed huses

end Session

/-- **One write transaction at a time.** Take any session, and any resource in it. Its callers share one
write transaction at most, as they do behind whatever is asked of the session later. In between, the resource
goes on with the write transaction in its slot until one is closed, and those that are closed stay as they
are. -/
theorem one_writer_at_a_time (clock : Instant) (lastId : Nat) (threshold : Severity)
    (earlier later : List Command) (place : Nat) (r : Resource) :
    let s := ((Session.begin clock lastId threshold).play earlier).2
    let s' := (s.play later).2
    s.store.resource? place = some r →
    s.Shares place r ∧ ∃ r', s'.store.resource? place = some r' ∧ s'.Shares place r' ∧
      (∀ handle, r.running = some handle → r'.tally.writeClosed = r.tally.writeClosed →
        r'.running = some handle) ∧
      ∀ handle t, r.writer? handle = some t → t.closed = true → r'.writer? handle = some t := by
  intro s s' hr
  have harose : s.store.Arose := Session.arose_play clock lastId threshold earlier
  have hbalanced : Session.BalancedWith [] s := Session.balanced_play clock lastId threshold earlier
  obtain ⟨events, -, hstore⟩ := (Session.follows_play harose later).store
  have hr' := Store.resource?_run hr events
  rw [← hstore] at hr'
  have harose' : s'.store.Arose := hstore ▸ harose.run events
  have hbalanced' := Session.preserves_balanced_play later hbalanced
  refine ⟨Session.shares_of_arose harose hbalanced hr, _, hr', ?_, ?_, ?_⟩
  · exact Session.shares_of_arose harose' hbalanced' hr'
  · intro handle hrun hclosed
    exact Resource.running_run hrun (s.store.eventsAlong place events) hclosed
  · intro handle t ht hclosed
    exact Resource.closed_run ht hclosed (s.store.eventsAlong place events)

/-- Two callers ask for a document to change, one of them gives it up, the other one commits, and the write
transaction is closed. -/
theorem one_writer_at_a_time_page :
    let earlier : List Command :=
      [.session (.addDatabase "log" .floor), .database 0 (.create "page" {}), .database 0 (.locate "page"),
        .resource 0 (.take 0 .updatable (.revision .first)),
        .resource 0 (.take 0 .updatable (.revision .first))]
    let later : List Command :=
      [.document 0 .release, .document 1 (.write [.commit]), .resource 0 .endWriter]
    let s := ((Session.begin .epoch 0 .info).play earlier).2
    let s' := (s.play later).2
    ∃ r r', s.store.resource? 0 = some r ∧ r.running = some 0 ∧ s.Shares 0 r ∧
      s'.store.resource? 0 = some r' ∧ r'.running = none ∧ s'.Shares 0 r' := by
  intro earlier later
  have hall := one_writer_at_a_time .epoch 0 .info earlier later 0
  have hopen : (((Session.begin .epoch 0 .info).play earlier).2.store.resource? 0).map (·.running) =
    some (some 0) := by decide +kernel
  have hended : ((((Session.begin .epoch 0 .info).play earlier).2.play later).2.store.resource? 0).map
    (·.running) = some none := by decide +kernel
  generalize ((Session.begin .epoch 0 .info).play earlier).2 = s at hall hopen hended ⊢
  obtain ⟨r, hr, hrun⟩ := Option.map_eq_some_iff.mp hopen
  obtain ⟨hshares, r', hr', hshares', -⟩ := hall r hr
  rw [hr'] at hended
  exact ⟨r, r', hr, hrun, hshares, hr', Option.some.inj hended, hshares'⟩

end AsOf
