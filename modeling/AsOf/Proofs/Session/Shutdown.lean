import AsOf.Proofs.Resource.Writers
import AsOf.Proofs.Session.Events
import AsOf.Proofs.Session.Writers
import AsOf.Proofs.Store.Keep
import AsOf.Proofs.Store.Listing

/-!
# Shutdowns

A resource that was taken down is handed out by no database any more, and nothing is written to it unless
somebody who holds it since before opens a write transaction.

## Main definitions

* `Store.TakesDown`: the event takes a resource down
* `Store.Withdrawn`: no open database lists the resource

## Main results

* `Store.Listed.withdrawn_after`, `Store.exists_idle_after`: what taking a resource down does
* `Store.Withdrawn.run`, `Store.Withdrawn.locate_ne`: no database hands it out any more
* `Store.kept_withdrawn`: it rests while nobody opens a write transaction
* `Session.store_step_of_shutdown`: what such a command does
* `closed_for_good`: what becomes of a resource behind a shutdown
-/

namespace AsOf

open AsOf.Action

/-! ## Resources that were taken down

When a database is closed or cleared, or a resource is removed from it, the write transaction of the
resource ends, and no database hands the resource out any more. That a resource is listed by no open
database lasts forever, since an entry is made only for a new resource. So a write transaction is opened
again only by somebody who holds the resource since before, and until then nothing is written. -/

namespace Store

variable {s : Store} {place db : Nat} {name : String} {r : Resource} {e : StoreEvent}

/-! ### Taking a resource down -/

/-- The event takes the resource at a place down: its database is closed or cleared, or it is removed
from it. -/
inductive TakesDown (s : Store) (place : Nat) : StoreEvent → Prop
  | closed {db : Nat} {d : Database} {entry : Entry} (hd : s.database? db = some d)
      (hentry : entry ∈ d.entries) (hplace : entry.resource = place) : TakesDown s place (.close db)
  | cleared {db : Nat} {d : Database} {entry : Entry} (hd : s.database? db = some d)
      (hentry : entry ∈ d.entries) (hplace : entry.resource = place) : TakesDown s place (.clear db)
  | removed {db : Nat} {d : Database} {entry : Entry} {name : String}
      (hopen : s.openDatabase db = .ok d) (hfind : d.find? name = some entry)
      (hplace : entry.resource = place) : TakesDown s place (.remove db name)

/-- The resource at a place is there, and no open database lists it. -/
structure Withdrawn (s : Store) (place : Nat) : Prop where
  placed : place < s.resources.size
  unlisted : ∀ {db d entry}, s.database? db = some d → d.closed = false → entry ∈ d.entries →
    entry.resource ≠ place

/-- The ends that a list of entries brings to one of their resources leave it without a write
transaction. -/
theorem running_run_closings {entries : List Entry} {entry : Entry} (hentry : entry ∈ entries)
    (hplace : entry.resource = place) : (r.run (closings place entries)).running = none := by
  have hmem : ResourceEvent.endWriter ∈ closings place entries :=
    List.mem_map.mpr ⟨entry, List.mem_filter.mpr ⟨hentry, beq_iff_eq.mpr hplace⟩, rfl⟩
  rcases List.eq_nil_or_concat (closings place entries) with hnil | ⟨init, last, hlast⟩
  · rw [hnil] at hmem
    cases hmem
  · rw [List.concat_eq_append] at hlast
    have hend : last ∈ closings place entries := hlast ▸ List.mem_append_right init List.mem_cons_self
    obtain ⟨-, -, rfl⟩ := List.mem_map.mp hend
    rw [hlast, Resource.run_append]
    exact Resource.running_endWriter _

/-- A resource that is taken down has no write transaction. -/
theorem exists_idle_after (hr : s.resource? place = some r) (h : s.TakesDown place e) :
    ∃ r', (s.after e).resource? place = some r' ∧ r'.running = none := by
  refine ⟨_, resource?_after hr e, ?_⟩
  cases h with
  | closed hd hentry hplace | cleared hd hentry hplace =>
    simp only [eventsAt, hd, Option.elim_some]
    exact running_run_closings hentry hplace
  | removed hopen hfind hplace =>
    simp only [eventsAt, hopen, hfind, Option.toList_some]
    exact running_run_closings List.mem_cons_self hplace

/-- A resource that an event takes down is there. -/
theorem Listed.exists_resource (hs : s.Listed) (h : s.TakesDown place e) :
    ∃ r, s.resource? place = some r := by
  have hlt : place < s.resources.size := by
    cases h with
    | closed hd hentry hplace | cleared hd hentry hplace => exact hplace ▸ hs.placed hd hentry
    | removed hopen hfind hplace =>
      have hd := (openDatabase_eq_ok_iff.mp hopen).1
      exact hplace ▸ hs.placed hd (List.mem_of_find?_eq_some hfind)
  exact ⟨_, Array.getElem?_eq_getElem hlt⟩

theorem after_remove {d : Database} {entry : Entry} (hopen : s.openDatabase db = .ok d)
    (hfind : d.find? name = some entry) : s.after (.remove db name) = s.removed db d entry := by
  have hremove : s.remove db name = .ok (true, s.removed db d entry) := by
    refine remove_eq_ok_iff.mpr ⟨d, hopen, ?_⟩
    rw [hfind]
    exact ⟨rfl, rfl⟩
  simp only [after, hremove]

/-- A resource that is taken down is listed by no open database: its entry was the only one. -/
theorem Listed.withdrawn_after (hs : s.Listed) (h : s.TakesDown place e) :
    (s.after e).Withdrawn place := by
  have hplaced : place < (s.after e).resources.size := by
    obtain ⟨r, hr⟩ := hs.exists_resource h
    exact Nat.lt_of_lt_of_le (Array.getElem?_eq_some_iff.mp hr).1 (size_resources_le_after s e)
  cases h with
  | @closed db d entry hd hentry hplace =>
    refine ⟨hplaced, fun {k d' entry'} hd' hopen hentry' heq => ?_⟩
    rw [Store.after, database?_close hd] at hd'
    split at hd'
    · obtain rfl := Option.some.inj hd'
      cases hopen
    · next hk => exact hk (hs.unique hd' hentry' hd hentry (heq.trans hplace.symm)).1
  | @cleared db d entry hd hentry hplace =>
    refine ⟨hplaced, fun {k d' entry'} hd' hopen hentry' heq => ?_⟩
    rw [Store.after, database?_clear hd] at hd'
    split at hd'
    · obtain rfl := Option.some.inj hd'
      cases hentry'
    · next hk => exact hk (hs.unique hd' hentry' hd hentry (heq.trans hplace.symm)).1
  | @removed db d entry name hopen hfind hplace =>
    obtain ⟨hd, -⟩ := openDatabase_eq_ok_iff.mp hopen
    have hentry : entry ∈ d.entries := List.mem_of_find?_eq_some hfind
    refine ⟨hplaced, fun {k d' entry'} hd' _ hentry' heq => ?_⟩
    rw [after_remove hopen hfind, database?_removed hd] at hd'
    split at hd'
    · obtain rfl := Option.some.inj hd'
      obtain ⟨hold, hid⟩ := List.mem_filter.mp hentry'
      obtain ⟨-, rfl⟩ := hs.unique hd hold hd hentry (heq.trans hplace.symm)
      exact bne_iff_ne.mp hid rfl
    · next hk => exact hk (hs.unique hd' hentry' hd hentry (heq.trans hplace.symm)).1

/-! ### No way back -/

theorem Withdrawn.after (hs : s.Withdrawn place) (e : StoreEvent) : (s.after e).Withdrawn place := by
  refine ⟨Nat.lt_of_lt_of_le hs.placed (size_resources_le_after s e), ?_⟩
  intro db d' entry hd' hopen hentry
  rcases database?_after hd' with ⟨name, lookup, rfl⟩ | ⟨d, hd, hturns⟩
  · cases hentry
  · rcases hturns.mem_entries hentry with hold | ⟨name, options, -, -, -, rfl⟩
    · exact hs.unlisted hd (hturns.closed_eq_false hopen) hold
    · exact Nat.ne_of_gt hs.placed

theorem Withdrawn.run (hs : s.Withdrawn place) (events : List StoreEvent) :
    (s.run events).Withdrawn place := by
  induction events generalizing s with
  | nil => exact hs
  | cons e events ih => exact ih (hs.after e)

/-- No database hands the resource out. -/
theorem Withdrawn.locate_ne (hs : s.Withdrawn place) {p : Nat} (h : s.locate db name = .ok p) :
    p ≠ place := by
  obtain ⟨d, hopen, h⟩ := except_bind_eq_ok_iff.mp h
  obtain ⟨hd, hclosed⟩ := openDatabase_eq_ok_iff.mp hopen
  split at h
  · next entry hfind =>
    cases h
    exact hs.unlisted hd hclosed (List.mem_of_find?_eq_some hfind)
  · cases h

/-! ### At rest -/

/-- What opens no write transaction of a resource, opens none seen from the resource either. -/
theorem not_opens_of_mem_eventsAt (he : ¬e.Opens place) {event : ResourceEvent}
    (h : event ∈ s.eventsAt place e) : ¬event.Opens := by
  cases e with
  | resource p event' =>
    simp only [eventsAt] at h
    split at h
    · next hp =>
      obtain rfl := List.mem_singleton.mp h
      intro hopens
      refine he ⟨hp, ?_⟩
      cases event' <;> exact hopens
    · cases h
  | _ =>
    rw [eq_endWriter_of_mem_eventsAt (by trivial) h]
    exact id

theorem not_opens_of_mem_eventsAlong {events : List StoreEvent} (he : ∀ e ∈ events, ¬e.Opens place)
    {event : ResourceEvent} (h : event ∈ s.eventsAlong place events) : ¬event.Opens := by
  induction events generalizing s with
  | nil => cases h
  | cons e events ih =>
    rcases List.mem_append.mp h with h | h
    · exact not_opens_of_mem_eventsAt (he e List.mem_cons_self) h
    · exact ih (fun e' h' => he e' (List.mem_cons_of_mem e h')) h

/-- A resource without a write transaction rests along a run that opens none. -/
theorem Arose.readersOnly_run (hs : s.Arose) (hr : s.resource? place = some r) (idle : r.running = none)
    {events : List StoreEvent} (he : ∀ e ∈ events, ¬e.Opens place) :
    ∃ r', (s.run events).resource? place = some r' ∧ r.ReadersOnly r' :=
  ⟨_, resource?_run hr events, (hs.sound hr).readersOnly_run idle fun _ => not_opens_of_mem_eventsAlong he⟩

/-- The stores that a store may become in which a resource was withdrawn, as long as no write transaction
of that resource is opened. -/
theorem kept_withdrawn (hs : s.Arose) (hw : s.Withdrawn place) :
    Kept True (· ≠ place) fun u =>
      ∃ events : List StoreEvent, (∀ e ∈ events, ¬e.Opens place) ∧ u = s.run events where
  arose := by
    rintro u ⟨events, -, rfl⟩
    exact hs.run events
  after := by
    rintro u e ⟨events, hevents, rfl⟩ he
    refine ⟨events ++ [e], fun e' h => ?_, (run_append s events [e]).symm⟩
    rcases List.mem_append.mp h with h | h
    · exact hevents e' h
    · obtain rfl := List.mem_singleton.mp h
      exact fun hopens => he.opens place hopens rfl
  located := by
    rintro u db p name ⟨events, -, rfl⟩ h
    exact (hw.run events).locate_ne h

end Store

/-! ## Nothing is written behind a shutdown

Once a database was closed or cleared, or a resource was removed, the write transactions of its resources
are closed for good: whoever still shares one, through a document or without, is refused. No database and
no collection reaches the resources any more. Only a resource that was given out before the shutdown goes
on: it opens a new write transaction when it is asked to. As long as nobody asks it, nothing but the counts
of read transactions changes. -/

namespace Session

variable {s : Session} {e : StoreEvent} {a : Answer}

/-- A command that takes resources down and is answered does nothing else to the store. -/
theorem store_step_of_shutdown {c : Command} (he : s.shutdown? c = some e)
    (hanswer : (step c s).1 = .ok a) : (step c s).2.store = s.store.after e := by
  have hdown := step_of_shutdown he
  rw [hanswer] at hdown
  generalize (step c s).2.store = u at hdown ⊢
  cases hdown with
  | done => rfl

/-- Behind a session in which a resource was withdrawn, and as long as no write transaction is opened
through the resource as it was given out before, the store goes through events that open none. -/
theorem exists_run_of_withdrawn {place : Nat} (hs : s.store.Arose) (hw : s.store.Withdrawn place)
    (later : List Command)
    (hlater : ∀ c ∈ later, ∀ n, c.OpensThrough n → s.resources[n]? ≠ some place) :
    ∃ events : List StoreEvent, (∀ e ∈ events, ¬e.Opens place) ∧
      (s.play later).2.store = s.store.run events := by
  let rests (u : Store) : Prop := ∃ events : List StoreEvent,
    (∀ e ∈ events, ¬e.Opens place) ∧ u = s.store.run events
  have hbegin : Holds (· ≠ place) rests (fun _ => False) (fun n => s.resources[n]? ≠ some place) s s := by
    refine ⟨⟨[], List.forall_mem_nil _, rfl⟩, fun h => h.elim, fun {n p} hfree hn => ?_⟩
    rintro rfl
    exact hfree hn
  have hholds := preserves_play (Store.kept_withdrawn hs hw) later (fun _ => trivial)
    (fun _ _ _ _ => id) hlater hbegin
  exact hholds.store

end Session

/-- **Nothing is written behind a shutdown.** Take any session, and a command that closes or clears a
database or removes a resource, through the database or through a collection. Whatever is asked of the
session later, every write transaction that a resource ever had which was taken down stays as it was, closed,
and refuses every use; and no database hands the resource out again. Only through the resource itself, if it
was given out before, a new write transaction can be opened. As long as that is not done, none is opened and
no revision is sealed: nothing but the counts of read transactions changes. -/
theorem closed_for_good (clock : Instant) (lastId : Nat) (threshold : Severity)
    (earlier later : List Command) (c : Command) (e : StoreEvent) (place : Nat) :
    let s := ((Session.begin clock lastId threshold).play earlier).2
    let s₁ := (Session.step c s).2
    let s₂ := (s₁.play later).2
    s.shutdown? c = some e → s.store.TakesDown place e → (Session.step c s).1.isOk = true →
    ∃ r r', s₁.store.resource? place = some r ∧ s₂.store.resource? place = some r' ∧
      r.running = none ∧
      (∀ handle t, r.writer? handle = some t → t.closed = true ∧ r'.writer? handle = some t ∧
        ∀ edit : Edit, edit.Uses →
          Session.writeOne ⟨place, handle⟩ edit s₂ = (.ok (.error .trxClosed), s₂)) ∧
      (∀ db name, s₂.store.locate db name ≠ .ok place) ∧
      ((∀ c' ∈ later, ∀ n, c'.OpensThrough n → s₁.resources[n]? ≠ some place) → r.ReadersOnly r') := by
  intro s s₁ s₂ he htakes hanswer
  obtain ⟨before, hstore⟩ := Session.exists_run_play clock lastId threshold earlier
  have harose : s.store.Arose := hstore ▸ Store.arose_run clock before
  have hlisted : s.store.Listed := hstore ▸ Store.listed_run clock before
  have hstore₁ : s₁.store = s.store.after e := by
    obtain ⟨a, ha⟩ := exists_of_isOk hanswer
    exact Session.store_step_of_shutdown he ha
  have harose₁ : s₁.store.Arose := hstore₁ ▸ harose.after e
  have hwithdrawn : s₁.store.Withdrawn place := hstore₁ ▸ hlisted.withdrawn_after htakes
  obtain ⟨r₀, hr₀⟩ := hlisted.exists_resource htakes
  obtain ⟨r, hr, idle⟩ := Store.exists_idle_after hr₀ htakes
  rw [← hstore₁] at hr
  have hsound := harose₁.sound hr
  obtain ⟨events, -, hstore₂⟩ := (Session.follows_play harose₁ later).store
  have hr' := Store.resource?_run hr events
  rw [← hstore₂] at hr'
  refine ⟨r, _, hr, hr', idle, fun handle t ht => ?_, fun db name h => ?_, fun hlater => ?_⟩
  · have hclosed : t.closed = true := by
      cases hopen : t.closed with
      | true => rfl
      | false => cases idle.symm.trans (hsound.running_eq ht hopen)
    have ht' := Resource.closed_run ht hclosed (s₁.store.eventsAlong place events)
    exact ⟨hclosed, ht', fun edit huses => Session.writeOne_of_closed hr' ht' hclosed huses⟩
  · rw [hstore₂] at h
    exact (hwithdrawn.run events).locate_ne h rfl
  · obtain ⟨quiet, hquiet, hrests⟩ := Session.exists_run_of_withdrawn harose₁ hwithdrawn later hlater
    obtain ⟨r'', hr'', hreaders⟩ := harose₁.readersOnly_run hr idle hquiet
    rw [← hrests] at hr''
    obtain rfl := Option.some.inj (hr''.symm.trans hr')
    exact hreaders

/-- The collection of a document is closed. Then somebody commits through the document, and somebody reads
the resource, which was given out before. -/
theorem closed_for_good_page :
    let earlier : List Command :=
      [.session (.addDatabase "log" .floor), .session (.openCollection 0 0 "log"),
        .collection 0 (.addAs "page" []), .database 0 (.locate "page")]
    let later : List Command :=
      [.document 0 (.write [.commit]), .resource 0 (.startReader (.revision .first))]
    let s := ((Session.begin .epoch 0 .info).play earlier).2
    let s₁ := (Session.step (.collection 0 .close) s).2
    s.shutdown? (.collection 0 .close) = some (.close 0) ∧ s.store.TakesDown 0 (.close 0) ∧
      (Session.step (.collection 0 .close) s).1.isOk = true ∧
      ∃ r r', s₁.store.resource? 0 = some r ∧ (s₁.play later).2.store.resource? 0 = some r' ∧
        r.ReadersOnly r' := by
  intro earlier later s s₁
  let entry : Entry := { id := 0, name := "page", options := {}, resource := 0 }
  have hd : s.store.database? 0 =
      some { name := "log", lookup := .floor, entries := [entry], nextId := 1 } := by decide +kernel
  have htakes : s.store.TakesDown 0 (.close 0) := .closed hd List.mem_cons_self rfl
  have hanswer : (Session.step (.collection 0 .close) s).1.isOk = true := by decide +kernel
  have hlater (c' : Command) (hc' : c' ∈ later) (n : Nat) (h : c'.OpensThrough n) : False := by
    simp only [later, List.mem_cons, List.not_mem_nil, or_false] at hc'
    rcases hc' with rfl | rfl
    · exact h
    · exact h.2
  obtain ⟨r, r', hr, hr', -, -, -, hrests⟩ :=
    closed_for_good .epoch 0 .info earlier later (.collection 0 .close) (.close 0) 0 rfl htakes hanswer
  exact ⟨rfl, htakes, hanswer, r, r', hr, hr', hrests fun c' hc' n h => (hlater c' hc' n h).elim⟩

/-- Through a resource that was given out before its database was closed, a write transaction is opened and
a revision is sealed. -/
theorem writer_opens_behind_close :
    let earlier : List Command :=
      [.session (.addDatabase "log" .floor), .database 0 (.create "page" {}), .database 0 (.locate "page")]
    let later : List Command := [.resource 0 .startWriter, .document 0 (.write [.commit])]
    let s := ((Session.begin .epoch 0 .info).play earlier).2
    let s₁ := (Session.step (.database 0 .close) s).2
    let seen (r : Resource) := (r.running, r.tally.writeOpened, r.mostRecent.val)
    s.shutdown? (.database 0 .close) = some (.close 0) ∧ s.store.TakesDown 0 (.close 0) ∧
      (Session.step (.database 0 .close) s).1.isOk = true ∧
      (s₁.store.resource? 0).map seen = some (none, 0, 1) ∧
      ((s₁.play later).2.store.resource? 0).map seen = some (some 0, 1, 2) := by
  intro earlier later s s₁ seen
  let entry : Entry := { id := 0, name := "page", options := {}, resource := 0 }
  have hd : s.store.database? 0 =
      some { name := "log", lookup := .floor, entries := [entry], nextId := 1 } := by decide +kernel
  exact ⟨rfl, .closed hd List.mem_cons_self rfl, by decide +kernel, by decide +kernel, by decide +kernel⟩

end AsOf
