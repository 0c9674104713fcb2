import AsOf.Proofs.Collection.Keep
import AsOf.Proofs.Session.Follow
import AsOf.Proofs.Store.Account

/-!
# Accounts of a session

What is out of the resources of a session is what the documents in its slots hold.

## Main definitions

* `Session.held`: what the documents in slots hold
* `Session.Accounts`: the account of the store, with leases that are in no slot yet
* `Session.readers`: how many documents are open read transactions of the resource at a place
* `Session.BalancedWith`: the account, with documents that are not in slots yet

## Main results

* `Session.accounts_step`: every command keeps the account
* `Session.accounts_play`: every session has the account of what is in its slots
* `Session.BalancedWith.balanced`: each resource counts the documents that read it
* `Session.balanced_play`: every session has the account
-/

namespace AsOf

/-! ## What documents hold

What is out of the resources of a session is what the documents in its slots hold. Every command keeps the
account: what it finds goes into slots, what does not get there is given up, and a document that is moved,
closed or given up changes its own entry. -/

namespace Session

open AsOf.Action

variable {α β : Type} {R : List Lease → Resource → Prop}

/-- What the documents in the slots hold. -/
def held (s : Session) : List Hold := (s.documents.toList.filterMap id).map Document.hold

/-- The store has its account with what is held in slots, and with leases that are in no slot yet. -/
def Accounts (R : List Lease → Resource → Prop) (hs : List Hold) (s : Session) : Prop :=
  s.store.Accounts R (hs ++ s.held)

variable {s s' : Session} {slot place : Nat} {d : Document} {hs : List Hold}

/-! ### Documents in slots -/

theorem held_give (d : Document) (s : Session) : (give d s).2.held = s.held ++ [d.hold] := by
  show ((s.documents.push (some d)).toList.filterMap id).map Document.hold = _
  rw [Array.toList_push, List.filterMap_append, List.map_append]
  rfl

/-- A slot apart from all others: what is held there, or in its place, comes to what the others hold. -/
theorem exists_held_perm (hd : s.documents[slot]? = some (some d)) :
    ∃ rest : List Hold, s.held.Perm (d.hold :: rest) ∧
      ∀ {u : Session} {d' : Option Document}, u.documents = s.documents.setIfInBounds slot d' →
        u.held.Perm (d'.toList.map Document.hold ++ rest) := by
  obtain ⟨hlt, hslot⟩ := Array.getElem?_eq_some_iff.mp hd
  have hlt : slot < s.documents.toList.length := hlt
  let before := ((s.documents.toList.take slot).filterMap id).map Document.hold
  let behind := ((s.documents.toList.drop (slot + 1)).filterMap id).map Document.hold
  have hset (d' : Option Document) :
      (((s.documents.toList.set slot d').filterMap id).map Document.hold).Perm
        (d'.toList.map Document.hold ++ (before ++ behind)) := by
    rw [List.set_eq_take_append_cons_drop, if_pos hlt, List.filterMap_append, List.map_append]
    cases d' with
    | none => exact List.Perm.refl _
    | some d' => exact List.perm_middle
  refine ⟨before ++ behind, ?_, fun {u d'} hu => ?_⟩
  · have hsame : s.documents.toList.set slot (some d) = s.documents.toList := by
      rw [← hslot]
      exact List.set_getElem_self hlt
    have hperm := hset (some d)
    rwa [hsame] at hperm
  · have hperm := hset d'
    rwa [← Array.toList_setIfInBounds, ← hu] at hperm

section Account

variable (hR : Resource.Account R)
include hR

/-! ### Parts of sessions -/

/-- A document that comes into a slot is not outside any more. -/
theorem accounts_give (d : Document) (hs : List Hold) {E : Session → Prop} :
    Ensures (Accounts R (d.hold :: hs)) (give d) (fun _ => Accounts R hs) E := by
  intro s ha
  have hperm : (d.hold :: (hs ++ s.held)).Perm (hs ++ (give d s).2.held) := by
    rw [held_give, ← List.append_assoc]
    exact (List.perm_append_singleton _ _).symm
  have ha : s.store.Accounts R (d.hold :: (hs ++ s.held)) := ha
  exact ha.perm hR hperm

theorem accounts_giveOrNone (d : Option Document) :
    Ensures (Accounts R (d.toList.map Document.hold)) (giveOrNone d) (fun _ => Accounts R [])
      (Accounts R []) := by
  cases d with
  | none => exact ensures_pure fun _ ha => ha
  | some d => exact (accounts_give hR d []).bind fun _ => ensures_pure fun _ ha => ha

omit hR in
theorem accounts_observing {x : Action (Observed Store) CollectionError α} {g : α → List Hold}
    (hx : ∀ hs, Observed.Ensures (Store.Accounts R hs) x (fun a => Store.Accounts R (g a ++ hs))
      (Store.Accounts R hs)) (registry : Nat) :
    Ensures (Accounts R []) (observing registry x) (fun a => Accounts R (g a)) (Accounts R []) := by
  intro s ha
  have hfound := hx s.held ⟨s.store, s.countersOf registry, s.journal⟩ ha
  rw [observing]
  rcases hrun : x ⟨s.store, s.countersOf registry, s.journal⟩ with ⟨reason | a, o⟩
  · rw [hrun] at hfound
    exact hfound
  · rw [hrun] at hfound
    exact hfound

omit hR in
theorem preserves_accounts_observing {x : Action (Observed Store) CollectionError α}
    (hx : ∀ hs, Observed.Keeps (Store.Accounts R hs) x) (registry : Nat) :
    Preserves (Accounts R []) (observing registry x) :=
  fun s ha => hx s.held ⟨s.store, s.countersOf registry, s.journal⟩ ha

theorem Accounts.manages {events : List StoreEvent} (ha : Accounts R [] s) (h : s.Manages events s') :
    Accounts R [] s' := by
  have hheld (hdocuments : s'.documents = s.documents) : s'.held = s.held := by
    rw [held, held, hdocuments]
  show s'.store.Accounts R s'.held
  cases h with
  | rest hstore hdocuments | located _ hstore hdocuments =>
    rw [hstore, hheld hdocuments]
    exact ha
  | event he hstore hdocuments =>
    rw [hstore, hheld hdocuments]
    exact Store.Accounts.global hR ha he

/-! ### Commands -/

variable (f : Faults)

/-- What is handed out of a batch goes into slots, and the rest of it is given up. -/
theorem accounts_pullDocuments (batch : Batch Document) (pulls : List Pull) :
    Ensures (Accounts R (batch.items.map Document.hold)) (pullDocuments batch pulls)
      (fun _ => Accounts R []) (Accounts R []) := by
  have hrelease (batch : Batch Document) :
      Ensures (Accounts R (batch.items.map Document.hold)) (releaseBatch batch)
        (fun _ => Accounts R []) (Accounts R []) :=
    fun _ ha => Store.Accounts.releaseAll hR ha
  induction pulls generalizing batch with
  | nil => exact (hrelease batch).bind fun _ => ensures_pure fun _ ha => ha
  | cons pull rest ih =>
    cases pull with
    | close =>
      refine (hrelease batch).bind fun _ => (ih batch.close).bind fun _ => ?_
      exact ensures_pure fun _ ha => ha
    | next =>
      obtain ⟨items⟩ := batch
      cases items with
      | nil => exact (ih ⟨[]⟩).bind fun _ => ensures_pure fun _ ha => ha
      | cons d items =>
        refine (accounts_give hR d (items.map Document.hold)).bind fun _ => ?_
        exact (ih ⟨items⟩).bind fun _ => ensures_pure fun _ ha => ha

theorem accounts_stepCollection (c : Collection) (command : CollectionCommand) :
    Preserves (Accounts R []) (stepCollection c f command) := by
  have hglobal (hs : List Hold) {s : Store} {e : StoreEvent} (ha : s.Accounts R hs)
      (he : e.IsGlobal) : (s.after e).Accounts R hs := ha.global hR he
  cases command with
  | info | describe => exact preserves_get_bind fun s ha => ha
  | atRevision revision access =>
    refine (preserves_ofExcept _).bind fun revision => Ensures.preserves ?_
    exact (accounts_observing (g := fun d : Document => [d.hold])
      (fun hs => c.accounts_atRevision hR f revision access) _).bind fun d =>
        accounts_giveOrNone hR (some d)
  | namedRevision name revision access =>
    refine (preserves_ofExcept _).bind fun revision => Ensures.preserves ?_
    exact (accounts_observing (g := fun d : Document => [d.hold])
      (fun hs => c.accounts_namedRevision hR f name revision access) _).bind fun d =>
        accounts_giveOrNone hR (some d)
  | asOf time access =>
    exact ((accounts_observing (fun hs => c.accounts_namedAsOf hR f c.name time access) _).bind
      (accounts_giveOrNone hR)).preserves
  | namedAsOf name time access =>
    exact ((accounts_observing (fun hs => c.accounts_namedAsOf hR f name time access) _).bind
      (accounts_giveOrNone hR)).preserves
  | all access pulls =>
    refine Ensures.preserves ?_
    refine (accounts_observing (fun hs => c.accounts_all hR f access) _).bind fun ds => ?_
    exact (accounts_pullDocuments hR ⟨ds⟩ pulls).bind fun _ => ensures_pure fun _ ha => ha
  | add edits =>
    exact ((accounts_observing (g := fun d : Document => [d.hold])
      (fun hs => c.accounts_add hR f edits) _).bind fun d => accounts_giveOrNone hR (some d)).preserves
  | addAs name edits =>
    exact ((accounts_observing (g := fun d : Document => [d.hold])
      (fun hs => c.accounts_addAs hR f name edits) _).bind fun d =>
        accounts_giveOrNone hR (some d)).preserves
  | remove id =>
    exact (preserves_accounts_observing (fun hs => c.keeps_remove (hglobal hs) f id) _).bind
      fun _ => preserves_pure _ _
  | clear =>
    exact (preserves_accounts_observing (fun hs => c.keeps_clear (hglobal hs) f) _).bind
      fun _ => preserves_pure _ _
  | close =>
    exact (preserves_accounts_observing (fun hs => c.keeps_close (hglobal hs) f) _).bind
      fun _ => preserves_pure _ _

omit hR in
theorem accounts_onResource {x : Action (Observed Resource) StoreError α} {g : α → List Lease}
    (hx : ∀ ls, Observed.Ensures (R ls) x (fun a => R (g a ++ ls)) (R ls)) (place registry : Nat) :
    Ensures (Accounts R []) (onResource place registry x)
      (fun a => Accounts R ((g a).map (Hold.mk place))) (Accounts R []) :=
  accounts_observing (fun hs => Action.Ensures.mapError
    (Store.Accounts.ensures_onResource hx place hs) _) registry

/-- A lease goes into a slot under the name of its resource. -/
theorem accounts_giveLease (place : Nat) (lease : Lease) :
    Ensures (Accounts R [⟨place, lease⟩]) (giveLease place lease) (fun _ => Accounts R [])
      (Accounts R []) := by
  intro s ha
  obtain ⟨r, hr⟩ := Store.Accounts.placed ha List.mem_cons_self
  let d : Document := ⟨(s.collections[0]?).elim 0 (·.id), r.name, place, lease⟩
  have hgiven : giveLease place lease s =
      (give d >>= fun given => pure (.document given.1 given.2) : Step Answer) s := by
    simp only [giveLease, bind_run, Action.get, resourceAt_run hr]
    rfl
  have hslot : Ensures (Accounts R [d.hold])
      (give d >>= fun given => pure (.document given.1 given.2) : Step Answer)
      (fun _ => Accounts R []) (Accounts R []) :=
    (accounts_give hR d []).bind fun _ => ensures_pure fun _ ha => ha
  rw [hgiven]
  exact hslot s ha

theorem accounts_stepResource (place : Nat) (command : ResourceCommand) :
    Preserves (Accounts R []) (stepResource place f command) := by
  cases command with
  | info | timeline | candidate => exact (preserves_resourceAt place).bind fun _ => preserves_pure _ _
  | endWriter =>
    intro s ha
    cases hr : s.store.resource? place with
    | none =>
      simp only [stepResource, bind_run_error (resourceAt_run_none hr)]
      exact ha
    | some r =>
      simp only [stepResource, bind_run_ok (resourceAt_run hr)]
      exact Store.Accounts.step hR ha hr (Resource.step_endWriter r) (Resource.readsAs_endWriter r)
  | startWriter =>
    have hstart (ls : List Lease) : Observed.Ensures (R ls)
        (ofExcept (f.check .startWriter) >>= fun _ => Observed.update Resource.startWriter :
          Action (Observed Resource) StoreError Nat)
        (fun handle => R ([.writer handle] ++ ls)) (R ls) :=
      (Observed.keeps_ofExcept _).bind_ensures fun _ => Observed.ensures_update
        (fun hr h => hR.startWriter hr h) fun hr _ => hr
    exact ((accounts_onResource hstart place 0).bind fun handle =>
      accounts_giveLease hR place (.writer handle)).preserves
  | startReader target =>
    exact ((accounts_onResource (g := fun trx => [.reader trx])
      (fun ls => hR.ensures_newReader f target) place 0).bind fun trx =>
        accounts_giveLease hR place (.reader trx)).preserves
  | take registry access target =>
    exact ((accounts_onResource (g := fun lease => [lease])
      (fun ls => hR.ensures_takeLease f access target) place registry).bind fun lease =>
        accounts_giveLease hR place lease).preserves
  | asOf registry time access =>
    refine Ensures.preserves ?_
    refine (accounts_onResource (fun ls => hR.ensures_snapshotAsOf f time access) place registry).bind
      fun found => ?_
    cases found with
    | none => exact ensures_pure fun s ha => ha
    | some lease => exact accounts_giveLease hR place lease
  | atRevision registry revision access =>
    refine (preserves_ofExcept _).bind fun revision => Ensures.preserves ?_
    exact (accounts_onResource (g := fun lease => [lease])
      (fun ls => hR.ensures_snapshotOf f revision access) place registry).bind fun lease =>
        accounts_giveLease hR place lease

omit f in
theorem accounts_writeAll (w : WriterRef) (edits : List Edit) :
    Preserves (Accounts R []) (writeAll w edits) := by
  induction edits with
  | nil => exact preserves_pure _ _
  | cons e rest ih =>
    have hwrite : Preserves (Accounts R []) (writeOne w e) := by
      intro s ha
      unfold writeOne
      split
      · next h => exact Store.Accounts.edit hR ha h
      · exact ha
    refine hwrite.bind fun answer => preserves_get_bind fun s ha => ?_
    exact (ih.bind fun _ => preserves_pure _ _) s ha

omit f in
/-- What is in a slot is replaced. -/
theorem Accounts.set (ha : Accounts R [] s) (hd : s.documents[slot]? = some (some d))
    {d' : Option Document} (hset : s'.documents = s.documents.setIfInBounds slot d')
    (h : ∀ {hs}, s.store.Accounts R (d.hold :: hs) →
      s'.store.Accounts R (d'.toList.map Document.hold ++ hs)) : Accounts R [] s' := by
  obtain ⟨rest, hrest, hset'⟩ := exists_held_perm hd
  exact (h (Store.Accounts.perm hR ha hrest)).perm hR (hset' hset).symm

omit f in
theorem accounts_stepDocument (ha : Accounts R [] s) (hd : s.documents[slot]? = some (some d))
    (command : DocumentCommand) : Accounts R [] (stepDocument slot d command s).2 := by
  have hstreaming {α : Type} {x : Action (Observed ItemStream) StoreError α}
      (groups : List (Option (List Nat)))
      (hx : ∀ t : Transaction, Observed.Keeps (fun i => t.Visits i.cursor) x) :
      Accounts R [] (streaming slot d groups x s).2 := by
    have hvisits := hx (d.transaction s.store)
      ⟨.new d.collection groups (d.transaction s.store), s.countersOf 0, s.journal⟩ .stay
    exact ha.set hR hd rfl fun hstore => hstore.put hR hvisits
  cases command with
  | info | describe => exact ha
  | items groups =>
    refine holds_bind (hstreaming groups fun _ => ItemStream.visits_drain) fun p => ?_
    cases p.1 with
    | ok items => exact preserves_pure _ _
    | error e => exact preserves_fail _
  | stream groups pulls =>
    exact holds_bind (hstreaming groups fun _ => visits_streamAll pulls) fun p => preserves_pure _ _
  | cursor moves =>
    exact ha.set hR hd rfl fun hstore =>
      hstore.put hR (visits_moveAll (d.transaction s.store) moves)
  | write edits =>
    unfold stepDocument
    cases d.writerRef? with
    | none => exact ha
    | some w => exact ((accounts_writeAll hR w edits).bind fun _ => preserves_pure _ _) s ha
  | sameWriter other =>
    exact ((preserves_document other).bind fun _ => preserves_pure _ _) s ha
  | endReader => exact ha.set hR hd rfl fun hstore => (hstore.endReader hR).1
  | release => exact ha.set hR hd rfl fun hstore => hstore.release hR

omit f in
/-- Every command keeps the account. -/
theorem accounts_step (c : Command) : Preserves (Accounts R []) (step c) := by
  intro s ha
  have hacts := acts_step c s
  generalize (step c s).2 = s' at hacts ⊢
  cases hacts with
  | manages h => exact ha.manages hR h
  | collection hc => exact accounts_stepCollection hR s.faults _ _ s ha
  | resource hp => exact accounts_stepResource hR s.faults _ _ s ha
  | document hd => exact accounts_stepDocument hR ha hd _

omit f in
theorem preserves_accounts_play (commands : List Command) (ha : Accounts R [] s) :
    Accounts R [] (s.play commands).2 := by
  induction commands generalizing s with
  | nil => exact ha
  | cons c rest ih => exact ih (accounts_step hR c s ha)

omit f in
/-- Every session has the account of what is in its slots. -/
theorem accounts_play (clock : Instant) (lastId : Nat) (threshold : Severity)
    (commands : List Command) :
    let s := ((begin clock lastId threshold).play commands).2
    s.store.Accounts R s.held :=
  preserves_accounts_play hR commands (Store.accounts_empty clock)

end Account

/-- What is in a slot is held. -/
theorem hold_mem_held (hd : s.documents[slot]? = some (some d)) : d.hold ∈ s.held := by
  obtain ⟨rest, hperm, -⟩ := exists_held_perm hd
  exact hperm.mem_iff.mpr List.mem_cons_self

end Session

/-! ## Read transactions that are out

The read transactions that are out are the documents in the slots of a session that are read transactions
and not closed. Every command keeps the account. -/

namespace Session

/-- How many documents are read transactions of the resource at a place that are not closed. -/
def readers (s : Session) (place : Nat) : Nat :=
  s.documents.countP fun d => d.any (Document.holds place)

/-- Every resource counts as many read transactions as opened and not closed as there are documents that
read it, in slots or still outside. -/
def BalancedWith (ds : List Document) (s : Session) : Prop :=
  s.Accounts Resource.Counts (ds.map Document.hold)

variable {s : Session}

theorem readers_eq (s : Session) (place : Nat) :
    s.readers place = (s.documents.toList.filterMap id).countP (Document.holds place) := by
  rw [readers, ← Array.countP_toList, List.countP_filterMap]
  refine List.countP_congr fun d _ => ?_
  cases d <;> rfl

/-- With no document outside, each resource counts the documents in slots that read it. -/
theorem BalancedWith.balanced (hs : BalancedWith [] s) : s.store.Balanced s.readers := by
  rw [funext s.readers_eq]
  exact Store.Accounts.balanced hs

theorem preserves_balanced_play (commands : List Command) (hs : BalancedWith [] s) :
    BalancedWith [] (s.play commands).2 :=
  preserves_accounts_play Resource.account_balanced commands hs

/-- Every session has the account of the documents in its slots. -/
theorem balanced_play (clock : Instant) (lastId : Nat) (threshold : Severity)
    (commands : List Command) : BalancedWith [] ((begin clock lastId threshold).play commands).2 :=
  accounts_play Resource.account_balanced clock lastId threshold commands

end Session

end AsOf
