import AsOf.Document.Basic
import AsOf.Proofs.Collection.Enumeration
import AsOf.Proofs.Session.Aside

/-!
# All documents of a collection

The documents that a collection finds are a batch, and are handed out on request.

## Main definitions

* `Batch.handed`: what a run of requests takes off a batch
* `Batch.reply`, `Batch.spent`: the answer to one request, and to a request once nothing is left
* `Session.shown`: what a caller sees of an answer

## Main results

* `Batch.getElem?_pulls`: the answer to each request
* `Session.exists_pullDocuments`, `Session.shown_pulls`: what is handed out of a batch, and to be seen of it
* `collection_enumerates`: all documents of a collection, in every session
-/

namespace AsOf

open AsOf.Action Observed

/-! ## What batches hand out

Until it is closed, a batch hands out its items one after the other, and nothing once they are all out. A
batch that was closed hands out nothing. So the answer to a request depends on its position and on whether
there was a close before it, and on nothing else. -/

namespace Batch

variable {α : Type}

/-- The items that a run of requests takes off a batch: one for each request up to the first close. -/
def handed (b : Batch α) (pulls : List Pull) : List α :=
  b.items.take (pulls.takeWhile (· = .next)).length

@[simp]
theorem handed_nil (b : Batch α) : b.handed [] = [] := rfl

@[simp]
theorem handed_close (b : Batch α) (rest : List Pull) : b.handed (.close :: rest) = [] := rfl

theorem handed_empty (pulls : List Pull) : (⟨[]⟩ : Batch α).handed pulls = [] := List.take_nil

@[simp]
theorem handed_next (item : α) (items : List α) (rest : List Pull) :
    (⟨item :: items⟩ : Batch α).handed (.next :: rest) = item :: (⟨items⟩ : Batch α).handed rest := rfl

/-- The answer to a request once nothing is left. -/
def spent : Pull → Option (Option α) × Nat
  | .next => (some none, 0)
  | .close => (none, 0)

theorem pulls_empty (pulls : List Pull) : (⟨[]⟩ : Batch α).pulls pulls = pulls.map spent := by
  induction pulls with
  | nil => rfl
  | cons pull rest ih => cases pull <;> exact congrArg (_ :: ·) ih

/-- The answer to the request at a position, and how many items remain behind it. -/
def reply (b : Batch α) (earlier : List Pull) : Pull → Option (Option α) × Nat
  | .close => (none, 0)
  | .next =>
    if .close ∈ earlier then (some none, 0)
    else (some b.items[earlier.length]?, b.items.length - (earlier.length + 1))

theorem reply_close (b : Batch α) (earlier : List Pull) (pull : Pull) :
    b.reply (.close :: earlier) pull = (⟨[]⟩ : Batch α).reply earlier pull := by
  cases pull with
  | close => rfl
  | next => simp [reply]

theorem reply_next (b : Batch α) (earlier : List Pull) (pull : Pull) :
    b.reply (.next :: earlier) pull = b.next.2.reply earlier pull := by
  obtain ⟨items⟩ := b
  cases pull with
  | close => rfl
  | next => cases items <;> simp [reply, Batch.next]

/-- The answer to each request depends on its position, and on whether the batch was closed before. -/
theorem getElem?_pulls (b : Batch α) (pulls : List Pull) (k : Nat) :
    (b.pulls pulls)[k]? = pulls[k]?.map (b.reply (pulls.take k)) := by
  induction pulls generalizing b k with
  | nil => rfl
  | cons pull rest ih =>
    cases k with
    | zero => cases pull <;> obtain ⟨_ | _⟩ := b <;> rfl
    | succ k =>
      -- What the first request leaves answers the later ones, which count one position less.
      cases pull with
      | close =>
        rw [List.take_succ_cons, funext (b.reply_close _)]
        exact ih b.close k
      | next =>
        rw [List.take_succ_cons, funext (b.reply_next _)]
        exact ih b.next.2 k

end Batch

/-! ## All documents of a collection in a session

The documents that a collection finds are handed out on request, each into a slot of its own, and those that
are left over are given up. What a caller sees of them is what the batch answers, and where the documents are
put. -/

/-- A document to change is given up without a trace. -/
theorem Document.release_of_updatable {d : Document} (h : d.lease.access = .updatable) (s : Store) :
    d.release s = s := by
  cases hlease : d.lease with
  | reader t =>
    rw [hlease] at h
    cases h
  | writer handle => simp only [Document.release, Document.endReader, hlease]

theorem Resource.GivesLatest.access_eq {r r' : Resource} {access : Access} {lease : Lease}
    (h : r.GivesLatest access lease r') : lease.access = access := by
  cases h <;> rfl

theorem Collection.Enumerates.access_eq {c : Collection} {access : Access} {s s' : Store}
    {entries : List Entry} {documents : List Document} (h : c.Enumerates access s entries documents s') :
    ∀ document ∈ documents, document.lease.access = access := by
  intro document hdocument
  obtain ⟨k, hk, rfl⟩ := List.getElem_of_mem hdocument
  have hk' : k < entries.length := h.documents.length_eq ▸ hk
  obtain ⟨r, r', -, -, hgives⟩ := (h.documents.get hk' hk).lease
  exact hgives.access_eq

namespace Session

/-- What a caller sees of an answer: the document goes into a slot, and is viewed there. -/
def shown (s : Session) (k : Nat) (answer : Option (Option Document) × Nat) :
    Option (Option (Nat × DocumentView)) × Nat :=
  (answer.1.map (·.map fun d => (s.documents.size + k, s.view d)), answer.2)

/-- Out of an empty batch nothing comes, and nothing happens. -/
theorem pullDocuments_empty (pulls : List Pull) (s : Session) :
    pullDocuments ⟨[]⟩ pulls s = (.ok (pulls.map Batch.spent), s) := by
  induction pulls with
  | nil => rfl
  | cons pull rest ih =>
    cases pull with
    | close =>
      have hrest : pullDocuments (Batch.close ⟨[]⟩) rest s = _ := ih
      exact bind_run_ok hrest
    | next => exact bind_run_ok ih

theorem getElem?_spent (s : Session) (pulls : List Pull) (k j : Nat) :
    (pulls.map Batch.spent)[k]? = ((⟨[]⟩ : Batch Document).pulls pulls)[k]?.map (s.shown j) := by
  rw [Batch.pulls_empty, List.getElem?_map, List.getElem?_map, Option.map_map]
  refine congrArg (Option.map · pulls[k]?) (funext fun pull => ?_)
  cases pull <;> rfl

theorem releaseAll_of_updatable {ds : List Document} (h : ∀ d ∈ ds, d.lease.access = .updatable)
    (s : Store) : ds.foldl (fun s d => d.release s) s = s := by
  induction ds with
  | nil => rfl
  | cons d ds ih =>
    obtain ⟨hd, hds⟩ := List.forall_mem_cons.mp h
    rw [List.foldl_cons, Document.release_of_updatable hd]
    exact ih hds

theorem shown_give (d : Document) (s : Session) (k : Nat) : (give d s).2.shown k = s.shown (k + 1) := by
  have hsize : (give d s).2.documents.size + k = s.documents.size + (k + 1) :=
    (congrArg (· + k) (Array.size_push _)).trans (by omega)
  funext answer
  simp only [shown, hsize]
  rfl

/-- What is handed out of a batch is what it answers, and goes into the next slots. What is left is given
up. -/
theorem exists_pullDocuments (batch : Batch Document) (pulls : List Pull) (s : Session) :
    ∃ answers s', pullDocuments batch pulls s = (.ok answers, s') ∧
      (∀ k, answers[k]? = (batch.pulls pulls)[k]?.map (s.shown k)) ∧
      s'.documents = s.documents ++ ((batch.handed pulls).map some).toArray ∧
      ((∀ d ∈ batch.items, d.lease.access = .updatable) → s'.store = s.store) := by
  induction pulls generalizing batch s with
  | nil => exact ⟨[], _, rfl, fun _ => rfl, by simp, fun h => releaseAll_of_updatable h _⟩
  | cons pull rest ih =>
    cases pull with
    | close =>
      refine ⟨(none, 0) :: rest.map Batch.spent, _, bind_run_ok (pullDocuments_empty rest _), fun k => ?_, ?_,
        fun h => releaseAll_of_updatable h _⟩
      · cases k with
        | zero => rfl
        | succ k => exact s.getElem?_spent rest k (k + 1)
      · simp
    | next =>
      obtain ⟨items⟩ := batch
      cases items with
      | nil =>
        refine ⟨_, s, pullDocuments_empty (.next :: rest) s, fun k => s.getElem?_spent _ k k, ?_, fun _ => rfl⟩
        simp [Batch.handed_empty]
      | cons d items =>
        obtain ⟨answers, s', hrun, hanswers, hdocuments, hstore⟩ := ih ⟨items⟩ (give d s).2
        refine ⟨(some (some (s.documents.size, s.view d)), items.length) :: answers, s', bind_run_ok hrun,
          fun k => ?_, ?_, fun h => hstore (List.forall_mem_cons.mp h).2⟩
        · cases k with
          | zero => rfl
          | succ k =>
            have hshown := hanswers k
            exact shown_give d s k ▸ hshown
        · have hpush : (give d s).2.documents = s.documents.push (some d) := rfl
          rw [hdocuments, hpush, Batch.handed_next]
          simp

/-- What a caller sees of the answer to each request. -/
theorem shown_pulls (s : Session) (documents : List Document) (pulls : List Pull) (k : Nat) :
    ((⟨documents⟩ : Batch Document).pulls pulls)[k]?.map (s.shown k) =
      pulls[k]?.map fun
        | Pull.close => (none, 0)
        | Pull.next =>
          if Pull.close ∈ pulls.take k then (some none, 0)
          else (some (documents[k]?.map fun document => (s.documents.size + k, s.view document)),
            documents.length - (k + 1)) := by
  rw [Batch.getElem?_pulls, Option.map_map]
  refine Option.map_congr fun pull hpull => ?_
  cases pull with
  | close => rfl
  | next =>
    have hlength : (pulls.take k).length = k := by
      obtain ⟨hk, -⟩ := List.getElem?_eq_some_iff.mp hpull
      exact List.length_take_of_le (Nat.le_of_lt hk)
    simp only [Function.comp, Batch.reply, hlength]
    split <;> rfl

/-- The documents of a collection that are found are handed out on request. -/
theorem step_all {n : Nat} {c : Collection} {access : Access} {s : Session} {documents : List Document}
    {store : Store} (pulls : List Pull) (hc : s.collections[n]? = some c) (hfaults : s.faults = .none)
    (hfound : Yields (c.all .none access) s.store (.ok documents) store) :
    ∃ s₁ answers s', s₁.store = store ∧ s₁.documents = s.documents ∧
      pullDocuments ⟨documents⟩ pulls s₁ = (.ok answers, s') ∧
      step (.collection n (.all access pulls)) s = (.ok (.documents documents.length answers), s') := by
  obtain ⟨counters, journal, hrun⟩ := hfound (s.countersOf c.registry) s.journal
  let s₁ : Session := { s with
    store
    registries := s.registries.modify c.registry fun r => { r with counters }
    journal }
  have hobserving : observing c.registry (c.all .none access) s = (.ok documents, s₁) := by
    rw [observing, hrun]
  obtain ⟨answers, s', hpulled, -⟩ := exists_pullDocuments ⟨documents⟩ pulls s₁
  refine ⟨s₁, answers, s', rfl, rfl, hpulled, ?_⟩
  rw [step, bind_run_ok (collection_run hc)]
  show stepCollection c s.faults (.all access pulls) s = _
  rw [hfaults]
  exact (bind_run_ok hobserving).trans (bind_run_ok hpulled)

end Session

/-- **All documents of a collection.** Take any session, and a collection in it whose database is open. Its
documents are found: there is one for each resource that the database lists, in the order in which these were
created. To be read, it is a read transaction of its own on the latest revision and the tree that was sealed
with it. To be changed, it is the running write transaction, left as it is, or a new one. No other resource
has changed. On request the documents are handed out one after the other, until the batch is closed or none
is left, and from then on there is none. They go into slots of their own. Once their caller has ended each of
them, after whatever use of them, every resource has as many open read transactions as before. -/
theorem collection_enumerates (clock : Instant) (lastId : Nat) (threshold : Severity)
    (earlier : List Command) (n : Nat) (c : Collection) (d : Database) (access : Access)
    (pulls : List Pull) :
    let s := ((Session.begin clock lastId threshold).play earlier).2
    let answer := Session.step (.collection n (.all access pulls)) s
    s.collections[n]? = some c → s.faults = .none →
    s.store.database? c.database = some d → d.closed = false →
    ∃ events documents store answers,
      s.store = Store.run { clock } events ∧
      d.entries.Sublist (Store.creations { clock } c.database events) ∧
      Yields (c.all .none access) s.store (.ok documents) store ∧
      c.Enumerates access s.store d.entries documents store ∧
      answer.1 = .ok (.documents documents.length answers) ∧
      (∀ k, answers[k]? = pulls[k]?.map fun
        | Pull.close => (none, 0)
        | Pull.next =>
          if Pull.close ∈ pulls.take k then (some none, 0)
          else (some (documents[k]?.map fun document => (s.documents.size + k,
              Session.view { s with store } document)),
            documents.length - (k + 1))) ∧
      answer.2.documents = s.documents ++ (((⟨documents⟩ : Batch Document).handed pulls).map some).toArray ∧
      (access = .updatable → answer.2.store = store) ∧
      ∀ later : List Command, (∀ command ∈ later, command.Uses s.documents.size) →
        (∀ slot, s.documents.size ≤ slot → slot < answer.2.documents.size →
          ∃ command ∈ later, command.Ends slot) →
        ∀ place r, s.store.resource? place = some r →
          ∃ r', (answer.2.play later).2.store.resource? place = some r' ∧
            r'.tally.liveRead = r.tally.liveRead := by
  intro s answer hc hfaults hd hopen
  obtain ⟨events, hstore⟩ := Session.exists_run_play clock lastId threshold earlier
  have hstore : s.store = Store.run { clock } events := hstore
  have harose : s.store.Arose := Session.arose_play clock lastId threshold earlier
  have hbalanced : Session.BalancedWith [] s := Session.balanced_play clock lastId threshold earlier
  have hregistered : s.store.Registered c.database (Store.creations { clock } c.database events) :=
    hstore ▸ Store.registered_run clock c.database events
  obtain ⟨documents, store, henumerates, hfound⟩ :=
    Collection.exists_yields_all access harose hregistered hd hopen
  obtain ⟨s₁, answers, s', rfl, hdocuments₁, hpulled, hstep⟩ := Session.step_all pulls hc hfaults hfound
  obtain ⟨answers', s'', hpulled', hanswers, hdocuments, hunchanged⟩ :=
    Session.exists_pullDocuments ⟨documents⟩ pulls s₁
  cases hpulled.symm.trans hpulled'
  have hanswer : answer = (.ok (.documents documents.length answers), s') := hstep
  have hgiven : answer.2.documents =
      s.documents ++ (((⟨documents⟩ : Batch Document).handed pulls).map some).toArray := by
    rw [hanswer, ← hdocuments₁]
    exact hdocuments
  refine ⟨events, documents, s₁.store, answers, hstore, hregistered.listed hd, hfound, henumerates,
    congrArg Prod.fst hanswer, fun k => ?_, hgiven, ?_, ?_⟩
  · have hk := (hanswers k).trans (s₁.shown_pulls documents pulls k)
    rw [hdocuments₁] at hk
    exact hk
  · rintro rfl
    rw [hanswer]
    exact hunchanged henumerates.access_eq
  · intro later huses hends place r hr
    exact Session.exists_liveRead_eq harose hbalanced _ hgiven huses hends hr

/-- A collection of two documents, which are still in the hands of those who made them. One of its documents
is handed out to be read, and the batch is closed. The reader moves its cursor and closes it. -/
theorem collection_enumerates_pages :
    let earlier : List Command :=
      [.session (.addDatabase "log" .floor), .session (.openCollection 0 0 "log"),
        .collection 0 (.addAs "page" []), .collection 0 (.addAs "errata" [])]
    let later : List Command := [.document 2 (.cursor [.toRoot]), .document 2 .endReader]
    let entries : List Entry := [⟨0, "page", {}, 0⟩, ⟨1, "errata", {}, 1⟩]
    let c : Collection := { id := 1, name := "log", database := 0 }
    let s := ((Session.begin .epoch 0 .info).play earlier).2
    let answer := Session.step (.collection 0 (.all .readOnly [.next, .close, .next])) s
    ∃ documents store r r', c.Enumerates .readOnly s.store entries documents store ∧
      answer.2.documents = s.documents ++ #[documents[0]?] ∧
      s.store.resource? 0 = some r ∧ (answer.2.play later).2.store.resource? 0 = some r' ∧
      r'.tally.liveRead = r.tally.liveRead := by
  intro earlier later entries c
  let d : Database := { name := "log", lookup := .floor, entries, nextId := 2 }
  have hc : ((Session.begin .epoch 0 .info).play earlier).2.collections[0]? = some c := by decide +kernel
  have hd : ((Session.begin .epoch 0 .info).play earlier).2.store.database? 0 = some d := by decide +kernel
  have hsize : ((Session.begin .epoch 0 .info).play earlier).2.documents.size = 2 := by decide +kernel
  have hresource : (((Session.begin .epoch 0 .info).play earlier).2.store.resource? 0).isSome = true := by
    decide +kernel
  obtain ⟨-, documents, store, -, -, -, -, henumerates, -, -, hdocuments, -, hreaders⟩ :=
    collection_enumerates .epoch 0 .info earlier 0 c d .readOnly [.next, .close, .next] hc rfl hd rfl
  generalize ((Session.begin .epoch 0 .info).play earlier).2 = s at *
  intro _ answer
  obtain ⟨r, hr⟩ := Option.isSome_iff_exists.mp hresource
  obtain ⟨document, other, rfl⟩ := List.length_eq_two.mp henumerates.documents.length_eq.symm
  have hend (slot : Nat) (hfirst : s.documents.size ≤ slot) (hlt : slot < answer.2.documents.size) :
      ∃ command ∈ later, command.Ends slot := by
    refine ⟨.document 2 .endReader, by simp [later], ?_⟩
    have hsize' : answer.2.documents.size = s.documents.size + 1 := by
      rw [hdocuments, Array.size_append]
      rfl
    show 2 = slot
    omega
  have huses : ∀ command ∈ later, command.Uses s.documents.size := by
    rw [hsize]
    simp [later, Command.Uses]
  obtain ⟨r', hr', hsame⟩ := hreaders later huses hend 0 r hr
  exact ⟨_, store, r, r', henumerates, hdocuments, hr, hr', hsame⟩

end AsOf
