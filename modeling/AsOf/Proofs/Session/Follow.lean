import AsOf.Proofs.Collection.Events
import AsOf.Proofs.Session.Cursor
import AsOf.Session.Run

/-!
# What a session does to its store and its documents

Whatever is asked of a session, its store runs through events. Those of a command can be told from the
session in which it is asked, but for what lookups do to transactions: `Session.eventsOf`. Commits are among
them only if an edit is asked for that commits, or a new document. Write transactions are opened only of
resources that a database hands out, or through a resource that was given out before. The documents that
were given out stay what they are: unless a document is given up or its read transaction is closed, it keeps
its transaction, and only the cursor of a read transaction moves.

## Main definitions

* `Session.eventsOf`: the events of a command in a session
* `Command.Changes`: commands that change more of the store than transactions
* `Command.Commits`, `Command.Ends`: commands that commit, and those that end a document
* `Command.OpensThrough`: commands that may open a write transaction through a resource
* `Document.Continues`: a document is another one with its cursor moved
* `Session.Acts`: what a command comes down to
* `Session.Holds`: what holds of the store, and of the documents since some session
* `Session.begin`, `Session.Follows`: a session as it begins, and one that came from another one

## Main results

* `Session.preserves_step_of_not_changes`: what is kept where nothing is sealed, lookups keep
* `Session.preserves_step`: what events keep, every command keeps, and every document continues
* `Session.follows_play`: sessions follow those that they came from
-/

namespace AsOf

open AsOf.Action

/-- The command commits what it writes: edits of which some is a commit, or a new document. -/
def Command.Commits : Command → Prop
  | .document _ (.write edits) => .commit ∈ edits
  | .collection _ (.add _) | .collection _ (.addAs _ _) => True
  | _ => False

/-- The command asks a resource for a write transaction, or for a document that may be changed. -/
def ResourceCommand.Opens : ResourceCommand → Prop
  | .startWriter | .take _ .updatable _ | .asOf _ _ .updatable | .atRevision _ _ .updatable => True
  | _ => False

/-- The command may open a write transaction through the resource with a number. -/
def Command.OpensThrough (n : Nat) : Command → Prop
  | .resource m c => m = n ∧ c.Opens
  | _ => False

/-- The command gives the document in a slot up, or closes its read transaction. -/
def Command.Ends (slot : Nat) : Command → Prop
  | .document n .endReader | .document n .release => n = slot
  | _ => False

/-- The command changes more of the store than transactions: its clock, its databases or what is sealed. -/
def Command.Changes : Command → Prop
  | .session (.setClock _) | .session (.addDatabase _ _) => True
  | .database _ (.create _ _) | .database _ (.remove _) | .database _ .clear | .database _ .close => True
  | .collection _ (.add _) | .collection _ (.addAs _ _) | .collection _ (.remove _) => True
  | .collection _ .clear | .collection _ .close => True
  | .document _ (.write _) => True
  | _ => False

/-! ## The events of a command -/

/-- The events of a request that concerns a database. -/
def DatabaseCommand.events (f : Faults) (db : Nat) : DatabaseCommand → List StoreEvent
  | .create name options => f.eventOf .create (.create db name options)
  | .remove name => f.eventOf .remove (.remove db name)
  | .clear => f.eventOf .clear (.clear db)
  | .close => f.eventOf .close (.close db)
  | .locate _ | .nameOf _ | .entry _ | .info => []

/-- The events of a request that concerns a collection. -/
def CollectionCommand.events (f : Faults) (c : Collection) (s : Store) :
    CollectionCommand → List StoreEvent
  | .add edits => c.makeEvents f s (c.nextName s) edits
  | .addAs name edits => c.makeEvents f s name edits
  | .remove id => (c.nameOf? s id).elim [] fun name => f.eventOf .remove (.remove c.database name)
  | .clear => f.eventOf .clear (.clear c.database)
  | .close => f.eventOf .close (.close c.database)
  | _ => []

/-- The events of a command in a session. What lookups do to transactions is not among them. -/
def Session.eventsOf (s : Session) : Command → List StoreEvent
  | .session (.setClock time) => [.setClock time]
  | .session (.addDatabase name lookup) => [.addDatabase name lookup]
  | .database db command => command.events s.faults db
  | .collection n command => (s.collections[n]?).elim [] (command.events s.faults · s.store)
  | .document slot (.write edits) =>
    (s.documents[slot]?.join.bind Document.writerRef?).elim [] (s.store.writeEvents · edits)
  | _ => []

theorem exists_of_mem_elim {α β : Type} {o : Option α} {f : α → List β} {b : β}
    (h : b ∈ o.elim [] f) : ∃ a, o = some a ∧ b ∈ f a := by
  cases o with
  | none => cases h
  | some a => exact ⟨a, rfl, h⟩

theorem Session.eventsOf_collection {s : Session} {n : Nat} {c : Collection}
    (hc : s.collections[n]? = some c) (command : CollectionCommand) :
    s.eventsOf (.collection n command) = command.events s.faults c s.store := by
  rw [eventsOf, hc]
  rfl

theorem Session.eventsOf_write {s : Session} {slot : Nat} {d : Document} {w : WriterRef} {edits : List Edit}
    (hd : s.documents[slot]? = some (some d)) (hw : d.writerRef? = some w) :
    s.eventsOf (.document slot (.write edits)) = s.store.writeEvents w edits := by
  have hfound : s.documents[slot]?.join.bind Document.writerRef? = some w := by
    rw [hd]
    exact hw
  rw [eventsOf, hfound]
  rfl

/-- Commands that change nothing but transactions have no events. -/
theorem Session.eventsOf_of_not_changes {s : Session} {c : Command} (h : ¬c.Changes) :
    s.eventsOf c = [] := by
  cases c with
  | session command => cases command <;> first | rfl | exact absurd trivial h
  | database db command => cases command <;> first | rfl | exact absurd trivial h
  | collection n command =>
    show (s.collections[n]?).elim [] _ = []
    cases s.collections[n]? with
    | none => rfl
    | some c => cases command <;> first | rfl | exact absurd trivial h
  | resource => rfl
  | document slot command => cases command <;> first | rfl | exact absurd trivial h

/-! ## Documents that continue -/

/-- The lease is another one, up to the cursor of a read transaction. -/
inductive Lease.Continues : Lease → Lease → Prop
  | reader {t t' : Transaction} (h : t' = { t with cursor := t'.cursor }) :
      Continues (.reader t) (.reader t')
  | writer (handle : Nat) : Continues (.writer handle) (.writer handle)

/-- The document is another one, up to the cursor of its read transaction. -/
structure Document.Continues (d d' : Document) : Prop where
  eq : d' = { d with lease := d'.lease }
  lease : d.lease.Continues d'.lease

theorem Lease.Continues.refl (l : Lease) : l.Continues l := by
  cases l with
  | reader t => exact .reader rfl
  | writer handle => exact .writer handle

theorem Lease.Continues.trans {l l' l'' : Lease} (h : l.Continues l') (h' : l'.Continues l'') :
    l.Continues l'' := by
  cases h with
  | reader h =>
    cases h' with
    | reader h' => exact .reader (by rw [h', h])
  | writer handle => exact h'

namespace Document

variable {d d' d'' : Document}

theorem Continues.refl (d : Document) : d.Continues d := ⟨rfl, .refl _⟩

theorem Continues.trans (h : d.Continues d') (h' : d'.Continues d'') : d.Continues d'' where
  eq := by rw [h'.eq, h.eq]
  lease := h.lease.trans h'.lease

/-- A document continues when its transaction moves its cursor. -/
theorem continues_put {s : Store} {t : Transaction} (h : (d.transaction s).Visits t) :
    d.Continues (d.put s t).1 := by
  unfold Document.put
  split
  · next u hlease =>
    have hu : d.transaction s = u := by simp only [Document.transaction, hlease]
    refine ⟨rfl, ?_⟩
    rw [hlease]
    exact .reader (hu ▸ h.eq)
  · split <;> exact .refl d

end Document

namespace Session

variable {α β : Type}

/-- The store has a property, and the documents that are kept since some session continue. Through the
resources that are free to use, write transactions may be opened. -/
structure Holds (opens : Nat → Prop) (Q : Store → Prop) (kept free : Nat → Prop) (since s : Session) :
    Prop where
  store : Q s.store
  documents : ∀ {slot : Nat} {d : Document}, kept slot → since.documents[slot]? = some (some d) →
    ∃ d', s.documents[slot]? = some (some d') ∧ d.Continues d'
  resources : ∀ {n place : Nat}, free n → s.resources[n]? = some place → opens place

/-! ## What was given out -/

section Given

variable {s : Session} {n p slot : Nat} {r : Resource} {d : Document} {c : Collection}

theorem collection_run (hc : s.collections[n]? = some c) : collection n s = (.ok c, s) := by
  show orClosed s.collections[n]? s = _
  rw [hc]
  rfl

theorem collection_run_none (hc : s.collections[n]? = none) :
    collection n s = (.error (.store .trxClosed), s) := by
  show orClosed s.collections[n]? s = _
  rw [hc]
  rfl

theorem place_run (hp : s.resources[n]? = some p) : place n s = (.ok p, s) := by
  show orClosed s.resources[n]? s = _
  rw [hp]
  rfl

theorem place_run_none (hp : s.resources[n]? = none) : place n s = (.error (.store .trxClosed), s) := by
  show orClosed s.resources[n]? s = _
  rw [hp]
  rfl

theorem resourceAt_run (hr : s.store.resource? p = some r) : resourceAt p s = (.ok r, s) := by
  show orClosed (s.store.resource? p) s = _
  rw [hr]
  rfl

theorem resourceAt_run_none (hr : s.store.resource? p = none) :
    resourceAt p s = (.error (.store .trxClosed), s) := by
  show orClosed (s.store.resource? p) s = _
  rw [hr]
  rfl

theorem document_run (hd : s.documents[slot]?.join = some d) : document slot s = (.ok d, s) := by
  show orClosed s.documents[slot]?.join s = _
  rw [hd]
  rfl

theorem document_run_none (hd : s.documents[slot]?.join = none) :
    document slot s = (.error (.store .trxClosed), s) := by
  show orClosed s.documents[slot]?.join s = _
  rw [hd]
  rfl

end Given

/-! ## Managing databases -/

/-- What a command does that concerns the session or a database, and its events: one that concerns the store
as a whole, or none, and then it may give a resource out. -/
inductive Manages (s : Session) : List StoreEvent → Session → Prop
  | rest {s' : Session} (hstore : s'.store = s.store) (hdocuments : s'.documents = s.documents)
      (hresources : s'.resources = s.resources) : Manages s [] s'
  | event {s' : Session} {e : StoreEvent} (he : e.IsGlobal) (hstore : s'.store = s.store.after e)
      (hdocuments : s'.documents = s.documents) (hresources : s'.resources = s.resources) :
      Manages s [e] s'
  | located {s' : Session} {db place : Nat} {name : String} (hplace : s.store.locate db name = .ok place)
      (hstore : s'.store = s.store) (hdocuments : s'.documents = s.documents)
      (hresources : s'.resources = s.resources.push place) : Manages s [] s'

section Managing

variable {s : Session}

theorem Manages.refl (s : Session) : s.Manages [] s := .rest rfl rfl rfl

theorem change_run_ok {h : Store → Except StoreError (α × Store)} {a : α} {u : Store}
    (hrun : h s.store = .ok (a, u)) : change h s = (.ok a, { s with store := u }) := by
  rw [change, hrun]

theorem change_run_error {h : Store → Except StoreError (α × Store)} {e : StoreError}
    (hrun : h s.store = .error e) : change h s = (.error (.store e), s) := by
  rw [change, hrun]

section Calls

variable {f : Faults} {call : StoreCall} {h : Store → Except StoreError (α × Store)}

theorem change_of_failing (hfails : call ∈ f.failing) :
    change (fun s => do f.check call; h s) s = (.error (.store (Faults.failure call)), s) := by
  refine change_run_error ?_
  rw [show f.check call = .error (Faults.failure call) from if_pos hfails]
  rfl

theorem change_of_not_failing (hfails : call ∉ f.failing) :
    change (fun s => do f.check call; h s) s = change h s := by
  rw [change, change, show f.check call = .ok () from if_neg hfails]
  rfl

/-- A call that changes the store is its event, if it succeeds; if it is refused, so is the event. -/
theorem manages_change_bind {e : StoreEvent} {g : α → Step Answer} (hg : ∀ a u, (g a u).2 = u)
    (he : e.IsGlobal) (hok : ∀ {a u}, h s.store = .ok (a, u) → s.store.after e = u)
    (herror : ∀ {reason}, h s.store = .error reason → s.store.after e = s.store) :
    s.Manages (f.eventOf call e) ((change (fun s => do f.check call; h s) >>= g) s).2 := by
  by_cases hfails : call ∈ f.failing
  · rw [Faults.eventOf, if_pos hfails, bind_run_error (change_of_failing hfails)]
    exact .refl s
  · have hcall := change_of_not_failing (s := s) (h := h) hfails
    rw [Faults.eventOf, if_neg hfails]
    cases hrun : h s.store with
    | error reason =>
      rw [bind_run_error (hcall.trans (change_run_error hrun))]
      exact .event he (herror hrun).symm rfl rfl
    | ok p =>
      rw [bind_run_ok (hcall.trans (change_run_ok hrun)), hg]
      exact .event he (hok hrun).symm rfl rfl

end Calls

theorem manages_stepDatabase (db : Nat) (f : Faults) (command : DatabaseCommand) (s : Session) :
    s.Manages (command.events f db) (stepDatabase db f command s).2 := by
  cases command with
  | create name options =>
    refine manages_change_bind (fun _ _ => rfl) trivial (fun {a u} h => ?_) fun {reason} h => ?_
    · obtain ⟨u', hu, h⟩ := except_bind_eq_ok_iff.mp h
      cases h
      simp only [Store.after, hu]
    · cases hcreate : s.store.create db name options with
      | error e => simp only [Store.after, hcreate]
      | ok u =>
        rw [hcreate] at h
        cases h
  | remove name =>
    refine manages_change_bind (fun _ _ => rfl) trivial (fun {a u} h => ?_) fun {reason} h => ?_
    · simp only [Store.after, h]
    · simp only [Store.after, h]
  | clear | close =>
    refine manages_change_bind (fun _ _ => rfl) trivial (fun {a u} h => ?_) fun {_} h => by cases h
    cases h
    rfl
  | locate name =>
    simp only [stepDatabase, bind_run, change]
    cases hcheck : f.check .locate with
    | error e => exact .refl s
    | ok =>
      cases hplace : s.store.locate db name with
      | error e => exact .refl s
      | ok place => exact .located hplace rfl rfl rfl
  | nameOf | entry => exact .refl s
  | info =>
    simp only [stepDatabase, bind_run, Action.get]
    cases s.store.database? db <;> exact .refl s

theorem manages_stepSession (command : SessionCommand) (s : Session) :
    s.Manages (s.eventsOf (.session command)) (stepSession command s).2 := by
  cases command with
  | setClock time => exact .event (e := .setClock time) trivial rfl rfl rfl
  | addDatabase name lookup => exact .event (e := .addDatabase name lookup) trivial rfl rfl rfl
  | addRegistry | openCollection | setFaults | countDatabases | counters => exact .rest rfl rfl rfl
  | sameDatabase a b =>
    cases ha : s.collections[a]? with
    | none =>
      rw [stepSession, bind_run_error (collection_run_none ha)]
      exact .refl s
    | some c =>
      rw [stepSession, bind_run_ok (collection_run ha)]
      cases hb : s.collections[b]? with
      | none =>
        rw [bind_run_error (collection_run_none hb)]
        exact .refl s
      | some c' =>
        rw [bind_run_ok (collection_run hb)]
        exact .refl s

end Managing

/-- What a command comes down to. It concerns the session or a database, or something that was given out;
what was not is refused, and nothing is done. -/
inductive Acts (s : Session) : Command → Session → Prop
  | manages {c : Command} {s' : Session} (h : s.Manages (s.eventsOf c) s') : Acts s c s'
  | collection {n : Nat} {command : CollectionCommand} {c : Collection}
      (hc : s.collections[n]? = some c) :
      Acts s (.collection n command) (stepCollection c s.faults command s).2
  | resource {n : Nat} {command : ResourceCommand} {place : Nat} (hp : s.resources[n]? = some place) :
      Acts s (.resource n command) (stepResource place s.faults command s).2
  | document {slot : Nat} {command : DocumentCommand} {d : Document}
      (hd : s.documents[slot]? = some (some d)) :
      Acts s (.document slot command) (stepDocument slot d command s).2

theorem acts_step (c : Command) (s : Session) : s.Acts c (step c s).2 := by
  have refused {c : Command} (h : s.eventsOf c = []) : s.Acts c s := .manages (h ▸ .refl s)
  cases c with
  | session command => exact .manages (manages_stepSession command s)
  | database db command => exact .manages (manages_stepDatabase db s.faults command s)
  | collection n command =>
    cases hc : s.collections[n]? with
    | none =>
      rw [step, bind_run_error (collection_run_none hc)]
      exact refused (by rw [eventsOf, hc]; rfl)
    | some c =>
      rw [step, bind_run_ok (collection_run hc)]
      exact .collection hc
  | resource n command =>
    cases hp : s.resources[n]? with
    | none =>
      rw [step, bind_run_error (place_run_none hp)]
      exact refused rfl
    | some place =>
      rw [step, bind_run_ok (place_run hp)]
      exact .resource hp
  | document slot command =>
    cases hd : s.documents[slot]?.join with
    | none =>
      rw [step, bind_run_error (document_run_none hd)]
      refine refused ?_
      cases command with
      | write edits =>
        rw [eventsOf, hd]
        rfl
      | _ => rfl
    | some d =>
      rw [step, bind_run_ok (document_run hd)]
      exact .document (Option.join_eq_some_iff.mp hd)

/-! ## Parts of sessions -/

section Parts

variable {commits : Prop} {opens : Nat → Prop} {Q : Store → Prop} {kept free : Nat → Prop}
  {since : Session}

theorem preserves_get_bind {P : Session → Prop} {f : Session → Step α}
    (h : ∀ s, P s → P (f s s).2) : Preserves P (get >>= f) := h

theorem holds_bind {P : Session → Prop} {x : Step α} {f : α → Step β} {s : Session} (hx : P (x s).2)
    (hf : ∀ a, Preserves P (f a)) : P ((x >>= f) s).2 := by
  rw [bind_run]
  split
  · next a s' h =>
    rw [h] at hx
    exact hf a s' hx
  · next h => rwa [h] at hx

theorem preserves_fail {P : Session → Prop} (e : CollectionError) :
    Preserves P (fail e : Step α) := fun _ h => h

theorem preserves_ofExcept {P : Session → Prop} (x : Except CollectionError α) :
    Preserves P (ofExcept x : Step α) := fun _ h => h

theorem preserves_orClosed {P : Session → Prop} (x : Option α) : Preserves P (orClosed x) := by
  cases x with
  | none => exact preserves_fail _
  | some a => exact preserves_pure P a

theorem preserves_resourceAt {P : Session → Prop} (place : Nat) : Preserves P (resourceAt place) :=
  preserves_get_bind fun s hs => preserves_orClosed _ s hs

theorem preserves_document {P : Session → Prop} (slot : Nat) : Preserves P (document slot) :=
  preserves_get_bind fun s hs => preserves_orClosed _ s hs

theorem preserves_observing {x : Action (Observed Store) CollectionError α} (registry : Nat)
    (hx : Observed.Keeps Q x) : Preserves (Holds opens Q kept free since) (observing registry x) :=
  fun s hs => ⟨hx ⟨s.store, s.countersOf registry, s.journal⟩ hs.store, hs.documents, hs.resources⟩

/-- A document that is given out changes no other. -/
theorem preserves_give (d : Document) : Preserves (Holds opens Q kept free since) (give d) := by
  refine fun s hs => ⟨hs.store, fun hkept hd => ?_, hs.resources⟩
  obtain ⟨d', hd', hcontinues⟩ := hs.documents hkept hd
  refine ⟨d', ?_, hcontinues⟩
  have hlt := (Array.getElem?_eq_some_iff.mp hd').1
  exact (Array.getElem?_push_lt hlt).trans ((Array.getElem?_eq_getElem hlt).symm.trans hd')

theorem preserves_giveOrNone (d : Option Document) :
    Preserves (Holds opens Q kept free since) (giveOrNone d) := by
  cases d with
  | none => exact preserves_pure _ _
  | some d => exact (preserves_give d).bind fun _ => preserves_pure _ _

/-- A slot gets another document, or none. If its document is kept, the new one continues it. -/
theorem Holds.set {s s' : Session} {slot : Nat} {d : Document} {d' : Option Document}
    (hs : Holds opens Q kept free since s) (hstore : Q s'.store) (hd : s.documents[slot]? = some (some d))
    (hset : s'.documents = s.documents.setIfInBounds slot d') (hresources : s'.resources = s.resources)
    (hd' : kept slot → ∃ e, d' = some e ∧ d.Continues e) : Holds opens Q kept free since s' := by
  refine ⟨hstore, fun {k u} hkept hu => ?_, fun hfree hn => hs.resources hfree (hresources ▸ hn)⟩
  obtain ⟨u', hu', hcontinues⟩ := hs.documents hkept hu
  rw [hset]
  have hlt := (Array.getElem?_eq_some_iff.mp hd).1
  by_cases hk : slot = k
  · subst hk
    obtain rfl := Option.some.inj (Option.some.inj (hu'.symm.trans hd))
    obtain ⟨e, rfl, he⟩ := hd' hkept
    refine ⟨e, ?_, hcontinues.trans he⟩
    exact Array.getElem?_setIfInBounds_self_of_lt hlt
  · refine ⟨u', ?_, hcontinues⟩
    exact (Array.getElem?_setIfInBounds_ne hk).trans hu'

/-! ## Commands that seal nothing -/

section Steps

variable (hQ : Store.KeptBySteps opens Q) (f : Faults)
include hQ

theorem preserves_releaseBatch (batch : Batch Document) :
    Preserves (Holds opens Q kept free since) (releaseBatch batch) :=
  fun _ hs => ⟨(hQ.lookups .readOnly).releaseAll hs.store, hs.documents, hs.resources⟩

theorem preserves_pullDocuments (batch : Batch Document) (pulls : List Pull) :
    Preserves (Holds opens Q kept free since) (pullDocuments batch pulls) := by
  induction pulls generalizing batch with
  | nil => exact (preserves_releaseBatch hQ batch).bind fun _ => preserves_pure _ _
  | cons pull rest ih =>
    cases pull with
    | close =>
      refine (preserves_releaseBatch hQ batch).bind fun _ => (ih batch.close).bind fun _ => ?_
      exact preserves_pure _ _
    | next =>
      unfold pullDocuments
      split
      · exact (ih _).bind fun _ => preserves_pure _ _
      · next d batch _ =>
        exact (preserves_give d).bind fun _ => (ih batch).bind fun _ => preserves_pure _ _

/-- Requests that find documents, or ask what there is. -/
theorem preserves_stepCollection_of_not_changes (n : Nat) (c : Collection) (command : CollectionCommand)
    (h : ¬(Command.collection n command).Changes) :
    Preserves (Holds opens Q kept free since) (stepCollection c f command) := by
  cases command with
  | info | describe => exact preserves_get_bind fun s hs => hs
  | atRevision revision access =>
    refine (preserves_ofExcept _).bind fun revision => ?_
    refine (preserves_observing _ (c.keeps_atRevision (hQ.lookups access) f revision)).bind fun d => ?_
    exact preserves_giveOrNone _
  | namedRevision name revision access =>
    refine (preserves_ofExcept _).bind fun revision => ?_
    refine (preserves_observing _ (c.keeps_namedRevision (hQ.lookups access) f name revision)).bind fun d => ?_
    exact preserves_giveOrNone _
  | asOf time access =>
    refine (preserves_observing _ (c.keeps_namedAsOf (hQ.lookups access) f c.name time)).bind fun d => ?_
    exact preserves_giveOrNone d
  | namedAsOf name time access =>
    refine (preserves_observing _ (c.keeps_namedAsOf (hQ.lookups access) f name time)).bind fun d => ?_
    exact preserves_giveOrNone d
  | all access pulls =>
    refine (preserves_observing _ (c.keeps_all (hQ.lookups access) f)).bind fun documents => ?_
    exact (preserves_pullDocuments hQ _ pulls).bind fun _ => preserves_pure _ _
  | add | addAs | remove | clear | close => exact absurd trivial h

omit f in
theorem preserves_onResource {x : Action (Observed Resource) StoreError α} (access : Access)
    {place : Nat} (registry : Nat) (hopens : access = .updatable → opens place)
    (hx : ∀ {P : Resource → Prop},
      (∀ {r r' : Resource}, P r → r.LookupStep access r' → P r') → Observed.Keeps P x) :
    Preserves (Holds opens Q kept free since) (onResource place registry x) :=
  preserves_observing registry (((hQ.lookups access).onResource hopens hx).mapError _)

omit hQ f in
theorem preserves_giveLease (place : Nat) (lease : Lease) :
    Preserves (Holds opens Q kept free since) (giveLease place lease) := by
  refine preserves_get_bind fun s hs => ?_
  exact ((preserves_resourceAt place).bind fun r => (preserves_give _).bind fun _ =>
    preserves_pure _ _) s hs

theorem preserves_stepResource (place : Nat) (command : ResourceCommand)
    (hopens : command.Opens → opens place) :
    Preserves (Holds opens Q kept free since) (stepResource place f command) := by
  cases command with
  | info => exact (preserves_resourceAt place).bind fun _ => preserves_pure _ _
  | timeline => exact (preserves_resourceAt place).bind fun _ => preserves_pure _ _
  | candidate time => exact (preserves_resourceAt place).bind fun _ => preserves_pure _ _
  | endWriter =>
    intro s hs
    cases hr : s.store.resource? place with
    | none =>
      simp only [stepResource, bind_run_error (resourceAt_run_none hr)]
      exact hs
    | some r =>
      simp only [stepResource, bind_run_ok (resourceAt_run hr)]
      have hhistory : r.endWriter.2.history = r.history := by
        unfold Resource.endWriter
        split <;> rfl
      have hstore := hQ.step hs.store hr (Resource.step_endWriter r) hhistory fun _ hbusy =>
        absurd (Resource.running_endWriter r) hbusy
      exact ⟨hstore, hs.documents, hs.resources⟩
  | startWriter =>
    refine (preserves_onResource hQ .updatable 0 (fun _ => hopens trivial) fun hP => ?_).bind fun _ =>
      preserves_giveLease place _
    refine (Observed.keeps_ofExcept _).bind fun _ => Observed.keeps_update fun hr h => ?_
    exact hP hr (.writer rfl (Resource.writerStep_of_startWriter h))
  | startReader target =>
    refine (preserves_onResource hQ .readOnly 0 nofun fun hP => ?_).bind fun _ =>
      preserves_giveLease place _
    exact keeps_newReader (fun _ hr => hP hr .countOpen) f target
  | take registry access target =>
    have hopens (h : access = .updatable) : opens place := hopens (h ▸ trivial)
    refine (preserves_onResource hQ access registry hopens fun hP => ?_).bind fun _ =>
      preserves_giveLease place _
    exact keeps_takeLease hP f target
  | asOf registry time access =>
    have hopens (h : access = .updatable) : opens place := hopens (h ▸ trivial)
    refine (preserves_onResource hQ access registry hopens fun hP => ?_).bind fun found => ?_
    · exact keeps_snapshotAsOf (keeps_leaseAsOf hP f time)
    · cases found with
      | none => exact preserves_pure _ _
      | some lease => exact preserves_giveLease place lease
  | atRevision registry revision access =>
    refine (preserves_ofExcept _).bind fun revision => ?_
    have hopens (h : access = .updatable) : opens place := hopens (h ▸ trivial)
    refine (preserves_onResource hQ access registry hopens fun hP => ?_).bind fun _ =>
      preserves_giveLease place _
    exact keeps_snapshotOf fun target mostRecent => keeps_leaseRevision hP f target mostRecent

omit f in
/-- A pass through groups of keys moves the cursor of the document. -/
theorem holds_streaming {s : Session} {slot : Nat} {d : Document} (hs : Holds opens Q kept free since s)
    (hd : s.documents[slot]? = some (some d)) (groups : List (Option (List Nat)))
    {x : Action (Observed ItemStream) StoreError α}
    (hx : ∀ t : Transaction, Observed.Keeps (fun i => t.Visits i.cursor) x) :
    Holds opens Q kept free since (streaming slot d groups x s).2 := by
  have hvisits := hx (d.transaction s.store)
    ⟨.new d.collection groups (d.transaction s.store), s.countersOf 0, s.journal⟩ .stay
  exact hs.set (hQ.put hs.store hvisits) hd rfl rfl fun _ => ⟨_, rfl, Document.continues_put hvisits⟩

omit f in
/-- Requests that read a document, move its cursor or give it up. -/
theorem holds_stepDocument_of_not_changes {s : Session} {slot : Nat} {d : Document}
    (hs : Holds opens Q kept free since s) (hd : s.documents[slot]? = some (some d))
    (command : DocumentCommand) (h : ¬(Command.document slot command).Changes)
    (hends : (Command.document slot command).Ends slot → ¬kept slot) :
    Holds opens Q kept free since (stepDocument slot d command s).2 := by
  cases command with
  | info | describe => exact hs
  | items groups =>
    refine holds_bind (holds_streaming hQ hs hd groups fun _ => ItemStream.visits_drain) fun p => ?_
    cases p.1 with
    | ok items => exact preserves_pure _ _
    | error e => exact preserves_fail _
  | stream groups pulls =>
    exact holds_bind (holds_streaming hQ hs hd groups fun _ => visits_streamAll pulls) fun p =>
      preserves_pure _ _
  | cursor moves =>
    have hvisits := visits_moveAll (d.transaction s.store) moves
    exact hs.set (hQ.put hs.store hvisits) hd rfl rfl fun _ => ⟨_, rfl, Document.continues_put hvisits⟩
  | write edits => exact absurd trivial h
  | sameWriter other =>
    exact ((preserves_document other).bind fun _ => preserves_pure _ _) s hs
  | endReader | release =>
    exact hs.set (hQ.endReader hs.store) hd rfl rfl fun hkept => absurd hkept (hends rfl)

omit f in
/-- What concerns the session or a database changes nothing without an event: a write transaction may be
opened through a resource that is handed out. -/
theorem Holds.manages_nil {s s' : Session} (hs : Holds opens Q kept free since s) (h : s.Manages [] s') :
    Holds opens Q kept free since s' := by
  cases h with
  | rest hstore hdocuments hresources =>
    refine ⟨hstore ▸ hs.store, fun hkept hd => ?_, fun hfree hn => hs.resources hfree (hresources ▸ hn)⟩
    rw [hdocuments]
    exact hs.documents hkept hd
  | located hplace hstore hdocuments hresources =>
    refine ⟨hstore ▸ hs.store, fun hkept hd => ?_, fun {n p} hfree hn => ?_⟩
    · rw [hdocuments]
      exact hs.documents hkept hd
    · rw [hresources, Array.getElem?_push] at hn
      split at hn
      · obtain rfl := Option.some.inj hn
        exact hQ.located hs.store hplace
      · exact hs.resources hfree hn

omit f in
/-- What is kept where nothing is sealed, is kept by every command that changes nothing but transactions. -/
theorem preserves_step_of_not_changes (c : Command) (h : ¬c.Changes)
    (hends : ∀ slot, c.Ends slot → ¬kept slot) (hfree : ∀ n, c.OpensThrough n → free n) :
    Preserves (Holds opens Q kept free since) (step c) := by
  intro s hs
  have hacts := acts_step c s
  generalize (step c s).2 = s' at hacts ⊢
  cases hacts with
  | manages hmanages => exact hs.manages_nil hQ (eventsOf_of_not_changes h ▸ hmanages)
  | collection hc => exact preserves_stepCollection_of_not_changes hQ s.faults _ _ _ h s hs
  | @resource n command place hp =>
    have hopens (h : command.Opens) : opens place := hs.resources (hfree n ⟨rfl, h⟩) hp
    exact preserves_stepResource hQ s.faults place command hopens s hs
  | @document slot command d hd => exact holds_stepDocument_of_not_changes hQ hs hd command h (hends slot)

end Steps

/-! ## Commands -/

variable (hQ : Store.Kept commits opens Q) (f : Faults)
include hQ

theorem preserves_stepCollection (n : Nat) (c : Collection) (command : CollectionCommand)
    (hcommits : (Command.collection n command).Commits → commits) :
    Preserves (Holds opens Q kept free since) (stepCollection c f command) := by
  cases command with
  | add edits =>
    refine (preserves_observing _ (c.keeps_add hQ f (hcommits trivial) edits)).bind fun d => ?_
    exact preserves_giveOrNone _
  | addAs name edits =>
    refine (preserves_observing _ (c.keeps_addAs hQ f (hcommits trivial) name edits)).bind fun d => ?_
    exact preserves_giveOrNone _
  | remove id =>
    exact (preserves_observing _ (c.keeps_remove hQ.global f id)).bind fun _ => preserves_pure _ _
  | clear => exact (preserves_observing _ (c.keeps_clear hQ.global f)).bind fun _ => preserves_pure _ _
  | close => exact (preserves_observing _ (c.keeps_close hQ.global f)).bind fun _ => preserves_pure _ _
  | _ => exact preserves_stepCollection_of_not_changes hQ.steps f n c _ id

omit f in
theorem Holds.manages {s s' : Session} {events : List StoreEvent} (hs : Holds opens Q kept free since s)
    (h : s.Manages events s') : Holds opens Q kept free since s' := by
  cases h with
  | rest hstore hdocuments hresources =>
    exact hs.manages_nil hQ.steps (.rest hstore hdocuments hresources)
  | event he hstore hdocuments hresources =>
    refine ⟨hstore ▸ hQ.global hs.store he, fun hkept hd => ?_,
      fun hfree hn => hs.resources hfree (hresources ▸ hn)⟩
    rw [hdocuments]
    exact hs.documents hkept hd
  | located hplace hstore hdocuments hresources =>
    exact hs.manages_nil hQ.steps (.located hplace hstore hdocuments hresources)

omit f in
theorem preserves_writeAll (w : WriterRef) (edits : List Edit) (hcommits : .commit ∈ edits → commits) :
    Preserves (Holds opens Q kept free since) (writeAll w edits) := by
  induction edits with
  | nil => exact preserves_pure _ _
  | cons e rest ih =>
    have hwrite : Preserves (Holds opens Q kept free since) (writeOne w e) := by
      intro s hs
      unfold writeOne
      split
      · next h =>
        exact ⟨hQ.edit hs.store h fun he => hcommits (he ▸ List.mem_cons_self), hs.documents, hs.resources⟩
      · exact hs
    refine hwrite.bind fun answer => preserves_get_bind fun s hs => ?_
    exact ((ih fun h => hcommits (List.mem_cons_of_mem e h)).bind fun _ => preserves_pure _ _) s hs

omit f in
theorem holds_stepDocument {s : Session} {slot : Nat} {d : Document} (hs : Holds opens Q kept free since s)
    (hd : s.documents[slot]? = some (some d)) (command : DocumentCommand)
    (hcommits : (Command.document slot command).Commits → commits)
    (hends : (Command.document slot command).Ends slot → ¬kept slot) :
    Holds opens Q kept free since (stepDocument slot d command s).2 := by
  cases command with
  | write edits =>
    unfold stepDocument
    cases d.writerRef? with
    | none => exact hs
    | some w =>
      exact ((preserves_writeAll hQ w edits hcommits).bind fun _ => preserves_pure _ _) s hs
  | _ => exact holds_stepDocument_of_not_changes hQ.steps hs hd _ id hends

omit f in
/-- What events keep, every command keeps, and every document continues that the command does not
end. -/
theorem preserves_step (c : Command) (hcommits : c.Commits → commits)
    (hends : ∀ slot, c.Ends slot → ¬kept slot) (hfree : ∀ n, c.OpensThrough n → free n) :
    Preserves (Holds opens Q kept free since) (step c) := by
  intro s hs
  have hacts := acts_step c s
  generalize (step c s).2 = s' at hacts ⊢
  cases hacts with
  | manages h => exact hs.manages hQ h
  | collection hc => exact preserves_stepCollection hQ s.faults _ _ _ hcommits s hs
  | @resource n command place hp =>
    have hopens (h : command.Opens) : opens place := hs.resources (hfree n ⟨rfl, h⟩) hp
    exact preserves_stepResource hQ.steps s.faults place command hopens s hs
  | @document slot command d hd => exact holds_stepDocument hQ hs hd command hcommits (hends slot)

omit f in
theorem preserves_play (commands : List Command)
    (hcommits : (∃ c ∈ commands, c.Commits) → commits)
    (hends : ∀ c ∈ commands, ∀ slot, c.Ends slot → ¬kept slot)
    (hfree : ∀ c ∈ commands, ∀ n, c.OpensThrough n → free n) {s : Session}
    (hs : Holds opens Q kept free since s) : Holds opens Q kept free since (s.play commands).2 := by
  induction commands generalizing s with
  | nil => exact hs
  | cons c rest ih =>
    refine ih (fun ⟨c', h, hc'⟩ => hcommits ⟨c', List.mem_cons_of_mem c h, hc'⟩)
      (fun c' h => hends c' (List.mem_cons_of_mem c h))
      (fun c' h => hfree c' (List.mem_cons_of_mem c h)) ?_
    exact preserves_step hQ c (fun hc => hcommits ⟨c, List.mem_cons_self, hc⟩)
      (hends c List.mem_cons_self) (hfree c List.mem_cons_self) s hs

end Parts

/-! ## Sessions that came from others -/

/-- A session as it begins, when its clock shows a time: nothing was given out, and its store is
empty. -/
def begin (clock : Instant) (lastId : Nat) (threshold : Severity) : Session :=
  { store := { clock }, lastId, journal := { threshold } }

/-- The session came from another one by commands. Its store came from the other one through events,
and there is no commit among them unless a command commits; what lookups do to transactions counts here,
which `Session.eventsOf` leaves out. Each document is what it was, up to the cursor of its read transaction,
unless a command ended it. -/
structure Follows (commands : List Command) (s s' : Session) : Prop where
  store : ∃ events : List StoreEvent,
    (∀ e ∈ events, e.IsCommit → ∃ c ∈ commands, c.Commits) ∧ s'.store = s.store.run events
  documents : ∀ {slot : Nat} {d : Document}, (∀ c ∈ commands, ¬c.Ends slot) →
    s.documents[slot]? = some (some d) → ∃ d', s'.documents[slot]? = some (some d') ∧ d.Continues d'

/-- The stores that a store may become, with commits or without. -/
theorem kept_run {s : Store} (commits : Prop) :
    Store.Kept commits (fun _ => True) fun u => u.Arose ∧
      ∃ events : List StoreEvent, (∀ e ∈ events, e.IsCommit → commits) ∧ u = s.run events where
  arose h := h.1
  after := by
    rintro u e ⟨hu, events, hevents, rfl⟩ he
    refine ⟨hu.after e, events ++ [e], fun e' h => ?_, (Store.run_append s events [e]).symm⟩
    rcases List.mem_append.mp h with h | h
    · exact hevents e' h
    · exact List.mem_singleton.mp h ▸ he.commits
  located _ _ := trivial

/-- Sessions follow those that they came from. -/
theorem follows_play {s : Session} (hs : s.store.Arose) (commands : List Command) :
    s.Follows commands (s.play commands).2 := by
  let runs (u : Store) : Prop := u.Arose ∧ ∃ events : List StoreEvent,
    (∀ e ∈ events, e.IsCommit → ∃ c ∈ commands, c.Commits) ∧ u = s.store.run events
  have hbegin : Holds (fun _ => True) runs (fun slot => ∀ c ∈ commands, ¬c.Ends slot)
      (fun _ => True) s s :=
    ⟨⟨hs, [], List.forall_mem_nil _, rfl⟩, fun {slot d} _ hd => ⟨d, hd, .refl d⟩, fun _ _ => trivial⟩
  have hholds := preserves_play (kept_run (∃ c ∈ commands, c.Commits)) commands id
    (fun c hc slot hend hkept => hkept c hc hend) (fun _ _ _ _ => trivial) hbegin
  exact ⟨hholds.store.2, hholds.documents⟩

/-- The store of every session came from an empty one through events. -/
theorem exists_run_play (clock : Instant) (lastId : Nat) (threshold : Severity)
    (commands : List Command) :
    ∃ events, ((begin clock lastId threshold).play commands).2.store = Store.run { clock } events := by
  obtain ⟨events, -, hstore⟩ :=
    (follows_play (s := begin clock lastId threshold) (Store.arose_run clock []) commands).store
  exact ⟨events, hstore⟩

/-- In the store of every session, all resources arose from new ones. -/
theorem arose_play (clock : Instant) (lastId : Nat) (threshold : Severity)
    (commands : List Command) : ((begin clock lastId threshold).play commands).2.store.Arose := by
  obtain ⟨events, hstore⟩ := exists_run_play clock lastId threshold commands
  exact hstore ▸ Store.arose_run clock events

end Session

end AsOf
