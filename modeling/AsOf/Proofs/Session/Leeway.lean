import AsOf.Proofs.Collection.Leeway
import AsOf.Proofs.Session.Slots
import AsOf.Session.Run

/-!
# Sessions within a leeway

Two sessions are alike if their stores, registries and journals are, within the leeway, and if they gave
out the same, but for documents in hidden slots, which the second one lacks. What is asked of both, with
other slots where need be, is answered alike and leaves them alike, unless it is asked what they differ in,
or a document is looked up as of a time; and where the policies are the same, that makes no exception.

## Main definitions

* `Session.Like`: two sessions differ within the leeway, and in hidden slots
* `Command.Neutral`: commands that ask for no policies, statistics or counts
* `Command.IsAsOf`: commands that look something up as of a time
* `Answer.Like`: answers that are the same but for a leeway, with other slots

## Main results

* `Session.matches_step`: neutral commands that look up no time are answered alike
* `Session.matches_step_of_strict`: under the same policies all commands are
-/

namespace AsOf

/-! ## Commands that ask for what a leeway may concern -/

/-- The request does not ask for counts, and the store goes on behaving. -/
def SessionCommand.Neutral : SessionCommand → Prop
  | .setFaults _ | .counters _ => False
  | _ => True

/-- The request does not ask for the policy. -/
def DatabaseCommand.Neutral : DatabaseCommand → Prop
  | .info => False
  | _ => True

/-- The request asks neither for the policy nor for statistics, nor for the revision that the policy
offers for a time. -/
def ResourceCommand.Neutral : ResourceCommand → Prop
  | .info | .candidate _ | .startReader (.time _) | .take _ .readOnly (.time _) => False
  | _ => True

/-- The command asks neither for policies nor for statistics or counts, nor for the revision that a
policy offers for a time. -/
def Command.Neutral : Command → Prop
  | .session c => c.Neutral
  | .database _ c => c.Neutral
  | .resource _ c => c.Neutral
  | .collection _ _ | .document _ _ => True

/-- A document is looked up as of a time. -/
def CollectionCommand.IsAsOf : CollectionCommand → Prop
  | .asOf _ _ | .namedAsOf _ _ _ => True
  | _ => False

/-- A snapshot is looked up as of a time. -/
def ResourceCommand.IsAsOf : ResourceCommand → Prop
  | .asOf _ _ _ => True
  | _ => False

/-- The command looks something up as of a time. -/
def Command.IsAsOf : Command → Prop
  | .collection _ c => c.IsAsOf
  | .resource _ c => c.IsAsOf
  | _ => False

/-! ## Answers -/

/-- The other answer is the same, with other slots. -/
def Answer.RenumbersTo (hidden : List Nat) (a a' : Answer) : Prop := a' = a.renumbered hidden

/-- The answers are the same with other slots, or they show counts or a resource that differ within the
leeway. -/
inductive Answer.Like (L : Leeway) (hidden : List Nat) : Answer → Answer → Prop
  | same {a a' : Answer} (h : a.RenumbersTo hidden a') : Like L hidden a a'
  | counters {c c' : Counters} (h : L.counters c c') : Like L hidden (.counters c) (.counters c')
  | resource {r r' : Resource} {running hasHandle : Bool} (h : r.Like L r') :
      Like L hidden (.resource ⟨r, running, hasHandle⟩) (.resource ⟨r', running, hasHandle⟩)

namespace Session

open AsOf.Action Leeway

variable {α β : Type} {L : Leeway} {hidden : List Nat}

/-- The sessions differ in policies, statistics, counts and journals only, within the leeway, and in what
hidden slots hold. -/
structure Like (L : Leeway) (hidden : List Nat) (s s' : Session) : Prop where
  store : s.store.Like L s'.store
  lastId_eq : s'.lastId = s.lastId
  registries : Pointwise (fun r r' => r'.settings = r.settings ∧ L.counters r.counters r'.counters)
    s.registries s'.registries
  collections_eq : s'.collections = s.collections
  resources_eq : s'.resources = s.resources
  documents : SameShown hidden s.documents s'.documents
  faults_eq : s'.faults = s.faults
  faults : L.faults s.faults
  journal : L.journal s.journal s'.journal

variable {s s' : Session}

/-! ## Parts of sessions -/

theorem Like.setStore {u u' : Store} (h : s.Like L hidden s') (hu : u.Like L u') :
    ({ s with store := u } : Session).Like L hidden { s' with store := u' } :=
  { h with store := hu }

theorem Like.view_eq (h : s.Like L hidden s') (d : Document) : s'.view d = s.view d := by
  rw [view, view, d.base_eq h.store]

theorem Like.settings_eq (h : s.Like L hidden s') (registry : Nat) :
    (s'.registries[registry]?).elim ({} : CollectionSettings) (·.settings) =
      (s.registries[registry]?).elim {} (·.settings) := by
  have hregistry := h.registries registry
  generalize s.registries[registry]? = a, s'.registries[registry]? = b at hregistry
  cases hregistry with
  | none => rfl
  | some hr => exact hr.1

theorem Like.countersOf (h : s.Like L hidden s') (registry : Nat) :
    L.counters (s.countersOf registry) (s'.countersOf registry) := by
  have hregistry := h.registries registry
  unfold Session.countersOf
  generalize s.registries[registry]? = a, s'.registries[registry]? = b at hregistry
  cases hregistry with
  | none => exact L.counters_new
  | some hr => exact hr.2

theorem inStep_orClosed (x : Option α) : InStep (Like L hidden) (orClosed x) (orClosed x) := by
  cases x with
  | none => exact inStep_fail _
  | some a => exact inStep_pure a

theorem inStep_observing {x y : Action (Observed Store) CollectionError α}
    (hx : InStep (L.Related (Store.Like L)) x y) (registry : Nat) :
    InStep (Like L hidden) (observing registry x) (observing registry y) := by
  intro s s' h
  obtain ⟨ha, hu⟩ := hx ⟨s.store, s.countersOf registry, s.journal⟩
    ⟨s'.store, s'.countersOf registry, s'.journal⟩ ⟨h.store, h.countersOf registry, h.journal⟩
  refine ⟨ha, { h with store := hu.state, registries := ?_, journal := hu.journal }⟩
  refine h.registries.modify ?_ registry
  exact fun hr => ⟨hr.1, hu.counters⟩

theorem inStep_change {f g : Store → Except StoreError (α × Store)}
    (h : ∀ {u u'}, u.Like L u' → SameChange (Store.Like L) (f u) (g u')) :
    InStep (Like L hidden) (change f) (change g) := by
  intro s s' hs
  have hfg := h hs.store
  unfold change
  generalize f s.store = x, g s'.store = y at hfg
  cases hfg with
  | ok hu => exact ⟨rfl, hs.setStore hu⟩
  | error e => exact ⟨rfl, hs⟩

theorem inStep_collection (n : Nat) : InStep (Like L hidden) (collection n) (collection n) :=
  inStep_get_bind fun h => h.collections_eq ▸ inStep_orClosed _

theorem inStep_place (n : Nat) : InStep (Like L hidden) (place n) (place n) :=
  inStep_get_bind fun h => h.resources_eq ▸ inStep_orClosed _

theorem inStep_document {slot : Nat} (hslot : slot ∉ hidden) :
    InStep (Like L hidden) (document slot) (document (renumber hidden slot)) :=
  inStep_get_bind fun h => by
    rw [h.documents.shown slot hslot]
    exact inStep_orClosed _

/-- What is made of two resources that are alike must be alike. -/
theorem matches_resourceAt_bind {A : β → β → Prop} {f g : Resource → Step β} (place : Nat)
    (h : ∀ {r r' : Resource}, r.Like L r' → Matches (Like L hidden) A (f r) (g r')) :
    Matches (Like L hidden) A (resourceAt place >>= f) (resourceAt place >>= g) := by
  intro s s' hs
  show SameResult A ((orClosed (s.store.resource? place) >>= f) s).1
      ((orClosed (s'.store.resource? place) >>= g) s').1 ∧
    ((orClosed (s.store.resource? place) >>= f) s).2.Like L hidden
      ((orClosed (s'.store.resource? place) >>= g) s').2
  rcases hs.store.resource?_cases place with ⟨hr, hr'⟩ | ⟨r, r', hr, hr', hlike⟩ <;> rw [hr, hr']
  · exact ⟨.error _, hs⟩
  · exact h hlike s s' hs

theorem matches_give (d : Document) :
    Matches (Like L hidden) (fun given given' => given' = renumberGiven hidden given) (give d)
      (give d) := by
  refine matches_get_bind fun {s s'} h => ?_
  rw [h.documents.size_eq, h.view_eq]
  refine InStep.bind_matches (inStep_modify fun h => ?_) fun _ => matches_pure rfl
  exact { h with documents := h.documents.push _ }

theorem inStep_setDocument {slot : Nat} (hslot : slot ∉ hidden) (d : Option Document) :
    InStep (Like L hidden) (setDocument slot d) (setDocument (renumber hidden slot) d) :=
  inStep_modify fun h => { h with documents := h.documents.set hslot d }

theorem inStep_setStore {u u' : Store} (hu : u.Like L u') :
    InStep (Like L hidden) (setStore u) (setStore u') :=
  inStep_modify fun h => h.setStore hu

/-! ## Requests that concern the session as a whole -/

theorem inStep_openCollection (db registry : Nat) (name : String) :
    InStep (Like L hidden) (openCollection db registry name) (openCollection db registry name) := by
  refine inStep_get_bind fun {s s'} h => ?_
  rw [h.lastId_eq, h.settings_eq, h.collections_eq]
  refine (inStep_modify fun h => ?_).bind fun _ => ?_
  · exact { h with lastId_eq := rfl, collections_eq := by rw [h.collections_eq] }
  · exact (inStep_observing (inStep_report _ _) registry).bind fun _ => inStep_pure _

theorem matches_stepSession (c : SessionCommand) (hc : c.Neutral) :
    Matches (Like L hidden) (Answer.RenumbersTo hidden) (stepSession c) (stepSession c) := by
  cases c with
  | setClock time =>
    exact matches_get_bind fun h =>
      (inStep_setStore (h.store.setClock time)).bind_matches fun _ => matches_pure rfl
  | addDatabase name lookup =>
    refine matches_get_bind fun {s s'} h => ?_
    dsimp only
    rw [h.store.databases.size_eq]
    refine (inStep_setStore (h.store.addDatabase ?_)).bind_matches fun _ => matches_pure rfl
    exact .mk (L.lookup_refl lookup)
  | addRegistry settings =>
    refine InStep.bind_matches (inStep_modify fun h => ?_) fun _ => matches_pure rfl
    exact { h with registries := h.registries.push ⟨rfl, L.counters_new⟩ }
  | openCollection db registry name =>
    exact (inStep_openCollection db registry name).bind_matches fun _ => matches_pure rfl
  | sameDatabase a b =>
    exact (inStep_collection a).bind_matches fun _ => (inStep_collection b).bind_matches fun _ =>
      matches_pure rfl
  | countDatabases => exact matches_get_bind fun h => h.collections_eq ▸ matches_pure rfl
  | setFaults | counters => exact hc.elim

/-! ## Requests that concern a collection -/

theorem matches_giveOrNone (d : Option Document) :
    Matches (Like L hidden) (Answer.RenumbersTo hidden) (giveOrNone d) (giveOrNone d) := by
  cases d with
  | none => exact matches_pure rfl
  | some d =>
    refine (matches_give d).bind fun {given given'} h => ?_
    subst h
    exact matches_pure rfl

theorem inStep_releaseBatch (batch : Batch Document) :
    InStep (Like L hidden) (releaseBatch batch) (releaseBatch batch) :=
  inStep_modify fun h => h.setStore (Document.releaseAll_like h.store batch.items)

theorem matches_pullDocuments (batch : Batch Document) (pulls : List Pull) :
    Matches (Like L hidden) (fun pulled pulled' => pulled' = pulled.map (renumberPulled hidden))
      (pullDocuments batch pulls) (pullDocuments batch pulls) := by
  induction pulls generalizing batch with
  | nil => exact (inStep_releaseBatch batch).bind_matches fun _ => matches_pure rfl
  | cons pull rest ih =>
    cases pull with
    | close =>
      refine (inStep_releaseBatch batch).bind_matches fun _ => (ih batch.close).bind fun h => ?_
      subst h
      exact matches_pure rfl
    | next =>
      rw [pullDocuments]
      split
      · refine (ih _).bind fun h => ?_
        subst h
        exact matches_pure rfl
      · refine (matches_give _).bind fun hgiven => (ih _).bind fun h => ?_
        subst hgiven h
        exact matches_pure rfl

theorem matches_stepCollection (c : Collection) (f : Faults) (command : CollectionCommand)
    (hc : ¬command.IsAsOf) :
    Matches (Like L hidden) (Answer.RenumbersTo hidden) (stepCollection c f command)
      (stepCollection c f command) := by
  cases command with
  | info =>
    refine matches_get_bind fun {s s'} h => ?_
    have hname : (s'.store.database? c.database).elim "" (·.name) =
        (s.store.database? c.database).elim "" (·.name) := by
      rcases h.store.database?_cases c.database with ⟨hd, hd'⟩ | ⟨d, lookup, hd, hd', -⟩
      · rw [hd, hd']
      · rw [hd, hd']
        rfl
    dsimp only
    rw [hname, h.store.names_eq]
    exact matches_pure rfl
  | describe =>
    refine matches_get_bind fun {s s'} h => ?_
    rw [c.describe_eq h.store]
    exact matches_pure rfl
  | atRevision revision access =>
    exact (inStep_ofExcept _).bind_matches fun _ =>
      (inStep_observing (Collection.inStep_atRevision f c _ access) _).bind_matches fun _ =>
        matches_giveOrNone _
  | namedRevision name revision access =>
    exact (inStep_ofExcept _).bind_matches fun _ =>
      (inStep_observing (Collection.inStep_namedRevision f c name _ access) _).bind_matches fun _ =>
        matches_giveOrNone _
  | asOf | namedAsOf => exact absurd trivial hc
  | all access pulls =>
    refine (inStep_observing (Collection.inStep_all f c access) _).bind_matches fun _ => ?_
    refine (matches_pullDocuments _ pulls).bind fun h => ?_
    subst h
    exact matches_pure rfl
  | add edits =>
    exact (inStep_observing (Collection.inStep_add f c edits) _).bind_matches fun _ =>
      matches_giveOrNone _
  | addAs name edits =>
    exact (inStep_observing (Collection.inStep_addAs f c name edits) _).bind_matches fun _ =>
      matches_giveOrNone _
  | remove id =>
    exact (inStep_observing (Collection.inStep_remove f c id) _).bind_matches fun _ => matches_pure rfl
  | clear =>
    exact (inStep_observing (Collection.inStep_clear f c) _).bind_matches fun _ => matches_pure rfl
  | close =>
    exact (inStep_observing (Collection.inStep_close f c) _).bind_matches fun _ => matches_pure rfl

/-! ## Requests that concern a database -/

theorem matches_stepDatabase (db : Nat) (f : Faults) (command : DatabaseCommand)
    (hc : command.Neutral) :
    Matches (Like L hidden) (Answer.RenumbersTo hidden) (stepDatabase db f command)
      (stepDatabase db f command) := by
  cases command with
  | create name options =>
    exact (inStep_change fun h => .bind fun _ => h.create db name options).bind_matches fun _ =>
      matches_pure rfl
  | remove name =>
    exact (inStep_change fun h => .bind fun _ => h.remove db name).bind_matches fun _ =>
      matches_pure rfl
  | locate name =>
    refine (inStep_change fun h => .bind fun _ => ?_).bind_matches fun place =>
      matches_get_bind fun h => ?_
    · rw [h.locate_eq]
      exact .bind fun _ => .ok h
    · rw [h.resources_eq]
      refine InStep.bind_matches (inStep_modify fun h => ?_) fun _ => matches_pure rfl
      exact { h with resources_eq := by rw [h.resources_eq] }
  | nameOf id =>
    refine matches_get_bind fun {s s'} h => ?_
    rcases h.store.database?_cases db with ⟨hd, hd'⟩ | ⟨d, lookup, hd, hd', -⟩ <;> rw [hd, hd'] <;>
      exact matches_pure rfl
  | entry name =>
    refine matches_get_bind fun {s s'} h => ?_
    rcases h.store.database?_cases db with ⟨hd, hd'⟩ | ⟨d, lookup, hd, hd', -⟩ <;> rw [hd, hd'] <;>
      exact matches_pure rfl
  | info => exact hc.elim
  | clear =>
    exact (inStep_change fun h => .bind fun _ => .ok (h.clear db)).bind_matches fun _ => matches_pure rfl
  | close =>
    exact (inStep_change fun h => .bind fun _ => .ok (h.close db)).bind_matches fun _ => matches_pure rfl

/-! ## Requests that concern a resource -/

theorem matches_giveLease (place : Nat) (lease : Lease) :
    Matches (Like L hidden) (Answer.RenumbersTo hidden) (giveLease place lease)
      (giveLease place lease) := by
  refine matches_get_bind fun {s s'} h => matches_resourceAt_bind place fun hr => ?_
  dsimp only
  rw [h.collections_eq, hr.name_eq]
  refine (matches_give _).bind fun {given given'} hgiven => ?_
  subst hgiven
  exact matches_pure rfl

theorem inStep_onResource {x : Action (Observed Resource) StoreError α}
    (hx : InStep (L.Related (Resource.Like L)) x x) (place registry : Nat) :
    InStep (Like L hidden) (onResource place registry x) (onResource place registry x) :=
  inStep_observing ((Store.inStep_onResource hx place).mapError _) registry

theorem matches_stepResource (place : Nat) (f : Faults) (command : ResourceCommand)
    (hc : command.Neutral) (htime : ¬command.IsAsOf) :
    Matches (Like L hidden) (Answer.RenumbersTo hidden) (stepResource place f command)
      (stepResource place f command) := by
  have hgive (lease : Lease) : Matches (Like L hidden) (Answer.RenumbersTo hidden)
      (giveLease place lease) (giveLease place lease) := matches_giveLease place lease
  cases command with
  | info | candidate => exact hc.elim
  | timeline =>
    refine matches_resourceAt_bind place fun hr => ?_
    rw [hr.history_eq]
    exact matches_pure rfl
  | endWriter =>
    refine matches_resourceAt_bind place fun {r r'} hr => matches_get_bind fun h => ?_
    obtain ⟨hended, hu⟩ := hr.endWriter
    exact (inStep_setStore (h.store.setResource hu place)).bind_matches fun _ =>
      matches_pure (congrArg Answer.flag hended)
  | startWriter =>
    refine (inStep_onResource ?_ place 0).bind_matches fun handle => hgive _
    exact (inStep_ofExcept _).bind fun _ => inStep_update fun h => h.startWriter
  | startReader target =>
    cases target with
    | time => exact hc.elim
    | revision number =>
      exact (inStep_onResource (Resource.inStep_newReader f number) place 0).bind_matches fun _ =>
        hgive _
  | take registry access target =>
    refine (inStep_onResource ?_ place registry).bind_matches fun lease => hgive lease
    cases access with
    | updatable => exact (Resource.inStep_takeWriter f).bind fun _ => inStep_pure _
    | readOnly =>
      cases target with
      | time => exact hc.elim
      | revision number =>
        exact (Resource.inStep_takeReader_of_newReader f (Resource.inStep_newReader f number)).bind
          fun _ => inStep_pure _
  | asOf => exact absurd trivial htime
  | atRevision registry revision access =>
    exact (inStep_ofExcept _).bind_matches fun _ =>
      (inStep_onResource (Resource.inStep_snapshotOf f _ access) place registry).bind_matches fun _ =>
        hgive _

/-! ## Requests that concern a document -/

theorem inStep_streamAll (pulls : List Pull) :
    InStep (L.Related Eq) (streamAll pulls) (streamAll pulls) := by
  induction pulls with
  | nil => exact inStep_pure _
  | cons pull rest ih =>
    have hpull : InStep (L.Related Eq) (pullOne pull) (pullOne pull) := by
      cases pull with
      | next => exact ItemStream.inStep_next.attempt.bind fun _ => inStep_pure _
      | close => exact inStep_pure _
    refine hpull.bind fun _ => inStep_current_bind fun hs => ?_
    rw [hs]
    exact ih.bind fun _ => inStep_pure _

variable {slot : Nat} (hslot : slot ∉ hidden)
include hslot

theorem inStep_streaming {x : Action (Observed ItemStream) StoreError α}
    (hx : InStep (L.Related Eq) x x) (d : Document) (groups : List (Option (List Nat))) :
    InStep (Like L hidden) (streaming slot d groups x)
      (streaming (renumber hidden slot) d groups x) := by
  refine (inStep_observing ?_ 0).bind fun a =>
    (inStep_setDocument hslot _).bind fun _ => inStep_pure _
  intro o o' h
  let stream := ItemStream.new d.collection groups (d.transaction o.state)
  obtain ⟨ha, hu⟩ := hx ⟨stream, o.counters, o.journal⟩ ⟨stream, o'.counters, o'.journal⟩
    ⟨rfl, h.counters, h.journal⟩
  simp only [Document.streaming, d.transaction_eq h.state]
  generalize x ⟨stream, o.counters, o.journal⟩ = a, x ⟨stream, o'.counters, o'.journal⟩ = b at ha hu
  obtain ⟨a, u⟩ := a
  obtain ⟨b, v⟩ := b
  obtain rfl : a = b := ha
  obtain ⟨hd, hstore⟩ := d.put_like h.state u.state.cursor
  have hstream : u.state = v.state := hu.state
  rw [← hstream, hd]
  exact ⟨rfl, hstore, hu.counters, hu.journal⟩

omit hslot in
theorem inStep_writeAll (w : WriterRef) (edits : List Edit) :
    InStep (Like L hidden) (writeAll w edits) (writeAll w edits) := by
  induction edits with
  | nil => exact inStep_pure _
  | cons e rest ih =>
    have hone : InStep (Like L hidden) (writeOne w e) (writeOne w e) := by
      intro s s' h
      have hedit := h.store.edit w e
      unfold writeOne
      generalize s.store.edit w e = x, s'.store.edit w e = y at hedit
      cases hedit with
      | ok hu => exact ⟨rfl, h.setStore hu⟩
      | error reason => exact ⟨rfl, h⟩
    refine hone.bind fun answer => inStep_get_bind fun {s s'} h => ?_
    have htrx : ((s'.store.resource? w.resource).bind (·.writer? w.handle)).getD default =
        ((s.store.resource? w.resource).bind (·.writer? w.handle)).getD default := by
      rcases h.store.resource?_cases w.resource with ⟨hr, hr'⟩ | ⟨r, r', hr, hr', hlike⟩ <;>
        rw [hr, hr']
      simp only [Option.bind_some, hlike.writer?_eq]
    dsimp only
    rw [htrx]
    exact ih.bind fun _ => inStep_pure _

theorem matches_stepDocument (d : Document) (command : DocumentCommand)
    (hother : ∀ other, command = .sameWriter other → other ∉ hidden) :
    Matches (Like L hidden) (Answer.RenumbersTo hidden) (stepDocument slot d command)
      (stepDocument (renumber hidden slot) d (command.renumbered hidden)) := by
  cases command with
  | info =>
    refine matches_get_bind fun h => ?_
    rw [h.view_eq, d.transaction_eq h.store]
    exact matches_pure rfl
  | describe =>
    refine matches_get_bind fun h => ?_
    rw [d.describe_eq h.store]
    exact matches_pure rfl
  | items groups =>
    refine (inStep_streaming hslot ItemStream.inStep_drain d groups).bind_matches fun p => ?_
    cases p.1 with
    | ok items => exact matches_pure rfl
    | error e => exact matches_fail _
  | stream groups pulls =>
    exact (inStep_streaming hslot (inStep_streamAll pulls) d groups).bind_matches fun p =>
      matches_pure rfl
  | cursor moves =>
    refine matches_get_bind fun {s s'} h => ?_
    obtain ⟨hd, hstore⟩ := d.put_like h.store (moveAll (d.transaction s.store) moves).2
    dsimp only
    rw [d.transaction_eq h.store, hd]
    exact (inStep_setStore hstore).bind_matches fun _ =>
      (inStep_setDocument hslot _).bind_matches fun _ => matches_pure rfl
  | write edits =>
    unfold DocumentCommand.renumbered stepDocument
    cases d.writerRef? with
    | none => exact matches_pure rfl
    | some w => exact (inStep_writeAll w edits).bind_matches fun _ => matches_pure rfl
  | sameWriter other =>
    exact (inStep_document (hother other rfl)).bind_matches fun _ => matches_pure rfl
  | endReader =>
    refine matches_get_bind fun {s s'} h => ?_
    obtain ⟨hd, hstore⟩ := d.endReader_like h.store
    dsimp only
    rw [hd]
    exact (inStep_setStore hstore).bind_matches fun _ =>
      (inStep_setDocument hslot _).bind_matches fun _ => matches_pure rfl
  | release =>
    exact matches_get_bind fun h => (inStep_setStore (d.endReader_like h.store).2).bind_matches fun _ =>
      (inStep_setDocument hslot none).bind_matches fun _ => matches_pure rfl

/-! ## All commands -/

omit hslot in
/-- Neutral commands that name no hidden slot are answered alike unless they look something up as of a
time. -/
theorem matches_step (c : Command) (hc : c.Neutral) (htime : ¬c.IsAsOf)
    (hslots : ∀ slot ∈ c.slots, slot ∉ hidden) :
    Matches (Like L hidden) (Answer.RenumbersTo hidden) (step c) (step (c.renumbered hidden)) := by
  cases c with
  | session command => exact matches_stepSession command hc
  | collection n command =>
    refine (inStep_collection n).bind_matches fun c => matches_get_bind fun h => ?_
    rw [h.faults_eq]
    exact matches_stepCollection c _ command htime
  | database db command =>
    refine matches_get_bind fun h => ?_
    rw [h.faults_eq]
    exact matches_stepDatabase db _ command hc
  | resource n command =>
    refine (inStep_place n).bind_matches fun place => matches_get_bind fun h => ?_
    rw [h.faults_eq]
    exact matches_stepResource place _ command hc htime
  | document slot command =>
    have hslot : slot ∉ hidden := hslots slot (by cases command <;> exact List.mem_cons_self)
    refine (inStep_document hslot).bind_matches fun d => matches_stepDocument hslot d command ?_
    rintro other rfl
    exact hslots other (List.mem_cons_of_mem slot List.mem_cons_self)

/-! ## Under the same policies -/

section Strict

omit hslot
variable (hL : L.Strict)
include hL

theorem matches_stepSession_of_strict (c : SessionCommand) (hc : ¬c.Neutral) :
    Matches (Like L hidden) (Answer.Like L hidden) (stepSession c) (stepSession c) := by
  cases c with
  | setFaults faults =>
    refine InStep.bind_matches (inStep_modify fun h => ?_) fun _ => matches_pure (.same rfl)
    exact { h with faults_eq := rfl, faults := hL.faults faults }
  | counters registry => exact matches_get_bind fun h => matches_pure (.counters (h.countersOf registry))
  | _ => exact absurd trivial hc

theorem matches_stepCollection_of_isAsOf (c : Collection) (f : Faults) (command : CollectionCommand)
    (htime : command.IsAsOf) :
    Matches (Like L hidden) (Answer.RenumbersTo hidden) (stepCollection c f command)
      (stepCollection c f command) := by
  cases command with
  | asOf time access =>
    exact (inStep_observing (Collection.inStep_namedAsOf f c hL c.name time access) _).bind_matches
      fun _ => matches_giveOrNone _
  | namedAsOf name time access =>
    exact (inStep_observing (Collection.inStep_namedAsOf f c hL name time access) _).bind_matches
      fun _ => matches_giveOrNone _
  | _ => exact htime.elim

theorem matches_stepDatabase_of_strict (db : Nat) (f : Faults) (command : DatabaseCommand)
    (hc : ¬command.Neutral) :
    Matches (Like L hidden) (Answer.RenumbersTo hidden) (stepDatabase db f command)
      (stepDatabase db f command) := by
  cases command with
  | info =>
    refine matches_get_bind fun {s s'} h => ?_
    have hsame : s'.store.database? db = s.store.database? db := by
      rcases h.store.database?_cases db with ⟨hd, hd'⟩ | ⟨d, lookup, hd, hd', hlookup⟩
      · rw [hd, hd']
      · rw [hd, hd', hL.lookup_eq hlookup]
    rw [hsame]
    exact (inStep_orClosed _).bind_matches fun _ => matches_pure rfl
  | _ => exact absurd trivial hc

theorem matches_stepResource_of_strict (place : Nat) (f : Faults) (command : ResourceCommand)
    (hc : ¬(command.Neutral ∧ ¬command.IsAsOf)) :
    Matches (Like L hidden) (Answer.Like L hidden) (stepResource place f command)
      (stepResource place f command) := by
  have hgive (lease : Lease) : Matches (Like L hidden) (Answer.Like L hidden)
      (giveLease place lease) (giveLease place lease) := (matches_giveLease place lease).mono .same
  cases command with
  | info =>
    refine matches_resourceAt_bind place fun {r r'} hr => matches_pure ?_
    rw [hr.hasRunning_eq, hr.runningHandle_eq]
    exact .resource hr
  | candidate time =>
    refine matches_resourceAt_bind place fun {r r'} hr => matches_pure (.same ?_)
    rw [hr.candidate_eq hL]
    rfl
  | startReader target =>
    exact (inStep_onResource (Resource.inStep_newReader_of_strict f hL target) place 0).bind_matches
      fun _ => hgive _
  | take registry access target =>
    exact (inStep_onResource (Resource.inStep_takeLease f hL access target) place registry).bind_matches
      fun _ => hgive _
  | asOf registry time access =>
    refine (inStep_onResource (Resource.inStep_snapshotAsOf f hL time access) place
      registry).bind_matches fun found => ?_
    cases found with
    | none => exact matches_pure (.same rfl)
    | some lease => exact hgive lease
  | _ => exact absurd ⟨trivial, id⟩ hc

/-- Where the policies are the same, commands that name no hidden slot are answered alike. -/
theorem matches_step_of_strict (c : Command) (hslots : ∀ slot ∈ c.slots, slot ∉ hidden) :
    Matches (Like L hidden) (Answer.Like L hidden) (step c) (step (c.renumbered hidden)) := by
  by_cases hc : c.Neutral ∧ ¬c.IsAsOf
  · exact (matches_step c hc.1 hc.2 hslots).mono .same
  · cases c with
    | session command =>
      exact matches_stepSession_of_strict hL command fun hneutral => hc ⟨hneutral, id⟩
    | collection n command =>
      have htime : command.IsAsOf := Classical.not_not.mp fun htime => hc ⟨trivial, htime⟩
      refine (inStep_collection n).bind_matches fun c => matches_get_bind fun h => ?_
      rw [h.faults_eq]
      exact (matches_stepCollection_of_isAsOf hL c _ command htime).mono .same
    | database db command =>
      refine matches_get_bind fun h => ?_
      rw [h.faults_eq]
      exact (matches_stepDatabase_of_strict hL db _ command fun hneutral => hc ⟨hneutral, id⟩).mono .same
    | resource n command =>
      refine (inStep_place n).bind_matches fun place => matches_get_bind fun h => ?_
      rw [h.faults_eq]
      exact matches_stepResource_of_strict hL place _ command hc
    | document => exact absurd ⟨trivial, id⟩ hc

end Strict

end Session

end AsOf
