import AsOf.Collection.Basic
import AsOf.Proofs.Journal.Ensure
import AsOf.Proofs.Session.Follow
import AsOf.Proofs.Session.Leeway

/-!
# Sessions without read-only traffic

Whatever is looked up for reading could as well be left out. What a collection finds has the access that was
asked for, so all that comes of it can be told.

## Main definitions

* `Leeway.reading`: statistics differ in read transactions, and counts and journals at will
* `Command.IsReading`: commands that look something up for reading, or name what was found so
* `Session.withoutReading`: what remains of a run, and which slots are hidden

## Main results

* `gives_takeLease`, `gives_snapshotOf`, `gives_snapshotAsOf`: leases
* `Collection.gives_namedRevision`, `Collection.gives_namedAsOf`, `Collection.gives_all`: documents
* `Session.like_step_of_reading`: one command that is left out
* `reading_unseen`: a run, and what remains of it
-/

namespace AsOf

open AsOf.Action

/-! ## The access that was asked for

What a lookup finds may be changed if and only if it was looked up for changing. So it is with every lease
on a resource, and with every document that a collection finds. -/

section Access

open Observed AsOf.Action

variable (f : Faults) (access : Access)

/-! ### Leases -/

theorem gives_takeLease (target : ReadTarget) :
    Gives (·.access = access) (takeLease f access target) := by
  cases access with
  | updatable => exact gives_bind fun _ => gives_pure rfl
  | readOnly => exact gives_bind fun _ => gives_pure rfl

theorem gives_leaseRevision (target mostRecent : RevisionNumber) :
    Gives (·.access = access) (leaseRevision f target mostRecent access) := by
  cases access with
  | updatable => exact gives_bind fun _ => gives_bind fun _ => gives_pure rfl
  | readOnly => exact gives_bind fun _ => gives_pure rfl

theorem gives_leaseAsOf (time : Instant) :
    Gives (fun found => ∀ lease ∈ found, lease.access = access) (leaseAsOf f time access) := by
  have hmap {β : Type} (found : Option β) (make : β → Lease) (hmake : ∀ b, (make b).access = access) :
      ∀ lease ∈ found.map make, lease.access = access := by
    intro lease hlease
    obtain ⟨b, -, rfl⟩ := Option.map_eq_some_iff.mp hlease
    exact hmake b
  cases access with
  | updatable => exact gives_bind fun found => gives_pure (hmap found .writer fun _ => rfl)
  | readOnly => exact gives_bind fun found => gives_pure (hmap found .reader fun _ => rfl)

theorem gives_snapshotOf (choice : RevisionChoice) :
    Gives (·.access = access) (snapshotOf f choice access) :=
  gives_bind fun _ => (gives_within (gives_leaseRevision f access _ _) _ _).bind fun _ hfound =>
    gives_bind fun _ => gives_pure hfound

theorem gives_snapshotAsOf (time : Instant) :
    Gives (fun found => ∀ lease ∈ found, lease.access = access) (snapshotAsOf f time access) :=
  gives_bind fun _ => (gives_within (gives_leaseAsOf f access time) _ _).bind fun found hfound => by
    cases found <;> exact gives_bind fun _ => gives_pure hfound

theorem gives_onResource {α : Type} {A : α → Prop} {x : Action (Observed Resource) StoreError α}
    (hx : Gives A x) (place : Nat) : Gives A (onResource place x) := by
  intro o a ha
  unfold onResource at ha
  split at ha
  · cases ha
  · exact hx _ a ha

/-! ### Documents -/

namespace Collection

variable (c : Collection)

theorem gives_namedRevision (name : String) (revision : RevisionChoice) :
    Gives (·.lease.access = access) (namedRevision f c name revision access) := by
  refine Gives.mapError (gives_bind fun place => ?_) _
  exact (gives_onResource (gives_snapshotOf f access revision) place).bind fun _ hlease =>
    gives_pure hlease

theorem gives_namedAsOf (name : String) (time : Instant) :
    Gives (fun found => ∀ d ∈ found, d.lease.access = access)
      (namedAsOf f c name time access) := by
  refine Gives.mapError (gives_bind fun place => ?_) _
  refine (gives_onResource (gives_snapshotAsOf f access time) place).bind fun found hfound => ?_
  refine gives_pure fun d hd => ?_
  obtain ⟨lease, hlease, rfl⟩ := Option.map_eq_some_iff.mp hd
  exact hfound lease hlease

theorem gives_atRevision (revision : RevisionChoice) :
    Gives (·.lease.access = access) (atRevision f c revision access) :=
  gives_bind fun name => gives_namedRevision f access c name revision

theorem gives_latestOf (found : List Document) (names : List String)
    (hfound : ∀ d ∈ found, d.lease.access = access) :
    Gives (fun found => ∀ d ∈ found, d.lease.access = access) (latestOf f c access found names) := by
  induction names generalizing found with
  | nil => exact gives_pure hfound
  | cons name names ih =>
    refine (gives_namedRevision f access c name .latest).attempt_bind (fun d hd => ?_) fun e => ?_
    · refine ih (found ++ [d]) fun u hu => ?_
      rcases List.mem_append.mp hu with hu | hu
      · exact hfound u hu
      · exact List.mem_singleton.mp hu ▸ hd
    · exact gives_bind fun _ => gives_fail e

theorem gives_all :
    Gives (fun found => ∀ d ∈ found, d.lease.access = access) (all f c access) :=
  gives_bind fun _ => gives_latestOf f access c [] _ fun _ hd => absurd hd List.not_mem_nil

end Collection

end Access

/-! ## What remains of a session

Whatever is looked up for reading, and whatever is done with the documents that this gives out, could as
well be left out: all other commands are answered the same, and what a session holds in the end is the
same, but for statistics about read transactions, counts and journals. The documents that remain are in
earlier slots, and the commands that remain name these. -/

/-! ### What read-only traffic makes different -/

/-- The statistics differ in read transactions only. -/
inductive ResourceTally.SameButReads (t : ResourceTally) : ResourceTally → Prop
  | mk (readOpened readClosed : Nat) : SameButReads t { t with readOpened, readClosed }

/-- Statistics about read transactions, counts and journals may differ at will. -/
def Leeway.reading : Leeway where
  lookup policy policy' := policy' = policy
  tally := ResourceTally.SameButReads
  counters _ _ := True
  journal _ _ := True
  faults _ := True
  lookup_refl _ := rfl
  tally_new := .mk 0 0
  tally_plus := by
    rintro t t' ⟨readOpened, readClosed⟩ span
    exact .mk _ _
  counters_new := trivial
  counters_count _ _ := trivial
  journal_write _ _ := trivial

theorem Leeway.strict_reading : reading.Strict := ⟨id, fun _ => trivial⟩

namespace Resource

variable {r r' u : Resource}

theorem Like.refl_reading (r : Resource) : r.Like .reading r := .mk rfl (.mk _ _)

/-- Resources that are like one are like each other. -/
theorem Like.of_reading (h : r.Like .reading r') (hu : r.Like .reading u) : r'.Like .reading u := by
  obtain ⟨hlookup, ⟨-, -⟩⟩ := h
  obtain ⟨hlookup', ⟨-, -⟩⟩ := hu
  exact .mk (hlookup'.trans hlookup.symm) (.mk _ _)

/-- A lookup for reading changes nothing but statistics about read transactions. -/
theorem LookupStep.like_reading (h : r.LookupStep .readOnly r') : r.Like .reading r' := by
  cases h with
  | countOpen | countClose => exact .mk rfl (.mk _ _)
  | writer h => cases h

theorem like_reading_endReader (r : Resource) (t : Transaction) : r.Like .reading (r.endReader t).2 := by
  unfold Resource.endReader
  split <;> exact .mk rfl (.mk _ _)

end Resource

namespace Store

variable {s s' : Store}

/-- A change of statistics about read transactions on one side only. -/
theorem Like.setResource_left {place : Nat} {r r' : Resource} (h : s.Like .reading s')
    (hr : s.resource? place = some r) (hr' : r.Like .reading r') :
    (s.setResource place r').Like .reading s' := by
  rcases h.resource?_cases place with ⟨hnone, -⟩ | ⟨_, u, hr₁, hu, hlike⟩
  · cases hr.symm.trans hnone
  · cases hr.symm.trans hr₁
    have hset := h.setResource (hr'.of_reading hlike) place
    rwa [setResource_self hu] at hset

/-- Finding documents for reading, and closing them, leaves a store like another one. -/
theorem keptByLookups_reading (s' : Store) :
    KeptByLookups .readOnly (fun _ => True) (fun s => s.Like .reading s') where
  step hs hr h _ := hs.setResource_left hr h.like_reading
  located _ _ := trivial
  endReader {s d} hs := by
    unfold Document.endReader
    split
    · exact hs
    · split
      · exact hs
      · next hr => exact hs.setResource_left hr (Resource.like_reading_endReader _ _)

end Store

/-! ### Commands that are left out -/

/-- How a request looks documents up, if it does. -/
def CollectionCommand.access? : CollectionCommand → Option Access
  | .atRevision _ access | .namedRevision _ _ access | .asOf _ access | .namedAsOf _ _ access
  | .all access _ => some access
  | _ => none

/-- How a request looks a resource up, if it does. -/
def ResourceCommand.access? : ResourceCommand → Option Access
  | .startReader _ => some .readOnly
  | .take _ access _ | .asOf _ _ access | .atRevision _ _ access => some access
  | _ => none

/-- How a command looks something up, if it does. -/
def Command.access? : Command → Option Access
  | .collection _ c => c.access?
  | .resource _ c => c.access?
  | _ => none

/-- The command looks something up for reading, or it names a hidden slot. -/
def Command.IsReading (hidden : List Nat) (c : Command) : Prop :=
  c.access? = some .readOnly ∨ ∃ slot ∈ c.slots, slot ∈ hidden

instance (hidden : List Nat) (c : Command) : Decidable (c.IsReading hidden) :=
  inferInstanceAs (Decidable (_ ∨ _))

namespace Session

/-- What remains of commands when read-only traffic is left out: each command that remains, with its
answer, and the slots that are hidden in the end. What a lookup for reading gives out is hidden from then
on. -/
def withoutReading (s : Session) (hidden : List Nat) :
    List Command → List (Command × Except CollectionError Answer) × List Nat
  | [] => ([], hidden)
  | c :: rest =>
    let (answer, s') := step c s
    if c.IsReading hidden then
      let given := List.range' s.documents.size (s'.documents.size - s.documents.size)
      s'.withoutReading (hidden ++ given) rest
    else
      let (remaining, hidden') := s'.withoutReading hidden rest
      ((c.renumbered hidden, answer.map (·.renumbered hidden)) :: remaining, hidden')

variable {α β : Type} {hidden : List Nat} {start slot : Nat} {s s' : Session} {d : Document}

/-! ### Lookups -/

/-- The session is like another one, where all that it gave out from some slot on is hidden. -/
structure Beside (hidden : List Nat) (start : Nat) (s' s : Session) : Prop where
  start_le : start ≤ s.documents.size
  like : s.Like .reading (hidden ++ List.range' start (s.documents.size - start)) s'

theorem Like.beside (h : s.Like .reading hidden s') : Beside hidden s.documents.size s' s := by
  refine ⟨Nat.le_refl _, ?_⟩
  rw [Nat.sub_self, List.range'_zero, List.append_nil]
  exact h

theorem preserves_beside_observing {x : Action (Observed Store) CollectionError α}
    (hx : Observed.Keeps (fun u => u.Like .reading s'.store) x) (registry : Nat) :
    Preserves (Beside hidden start s') (observing registry x) := by
  intro s hs
  refine ⟨hs.start_le, { hs.like with store := hx _ hs.like.store, registries := ?_, journal := trivial }⟩
  refine hs.like.registries.modify_left ?_ registry
  exact fun hr => ⟨hr.1, trivial⟩

theorem gives_observing {A : α → Prop} {x : Action (Observed Store) CollectionError α} (hx : Gives A x)
    (registry : Nat) : Gives A (observing registry x) :=
  fun s a ha => hx ⟨s.store, s.countersOf registry, s.journal⟩ a ha

/-- What was found for reading goes into a slot that is hidden. -/
theorem preserves_beside_give (hd : d.lease.access = .readOnly) :
    Preserves (Beside hidden start s') (give d) := by
  intro s hs
  have hle := hs.start_le
  have hsize : (give d s).2.documents.size = s.documents.size + 1 := Array.size_push _
  refine ⟨by omega, ?_⟩
  have hgiven : List.range' start ((give d s).2.documents.size - start) =
      List.range' start (s.documents.size - start) ++ [s.documents.size] := by
    rw [hsize, Nat.succ_sub hle, List.range'_1_concat, Nat.add_sub_of_le hle]
  rw [hgiven, ← List.append_assoc]
  exact { hs.like with documents := hs.like.documents.hideNext hd }

theorem preserves_beside_giveOrNone {found : Option Document}
    (hfound : ∀ d ∈ found, d.lease.access = .readOnly) :
    Preserves (Beside hidden start s') (giveOrNone found) := by
  cases found with
  | none => exact preserves_pure _ _
  | some d => exact (preserves_beside_give (hfound d rfl)).bind fun _ => preserves_pure _ _

theorem preserves_beside_pullDocuments {batch : Batch Document} (pulls : List Pull)
    (hbatch : ∀ d ∈ batch.items, d.lease.access = .readOnly) :
    Preserves (Beside hidden start s') (pullDocuments batch pulls) := by
  have hrelease (batch : Batch Document) : Preserves (Beside hidden start s') (releaseBatch batch) := by
    intro s hs
    have hstore : (batch.items.foldl (fun s d => d.release s) s.store).Like .reading s'.store :=
      (Store.keptByLookups_reading s'.store).releaseAll hs.like.store
    exact ⟨hs.start_le, { hs.like with store := hstore }⟩
  induction pulls generalizing batch with
  | nil => exact (hrelease batch).bind fun _ => preserves_pure _ _
  | cons pull rest ih =>
    obtain ⟨items⟩ := batch
    cases pull with
    | close =>
      refine (hrelease _).bind fun _ => (ih ?_).bind fun _ => preserves_pure _ _
      exact fun d hd => absurd hd List.not_mem_nil
    | next =>
      cases items with
      | nil => exact (ih hbatch).bind fun _ => preserves_pure _ _
      | cons d items =>
        refine (preserves_beside_give (hbatch d List.mem_cons_self)).bind fun _ => ?_
        refine (ih fun u hu => ?_).bind fun _ => preserves_pure _ _
        exact hbatch u (List.mem_cons_of_mem d hu)

theorem preserves_beside_stepCollection (c : Collection) (f : Faults) {command : CollectionCommand}
    (hc : command.access? = some .readOnly) :
    Preserves (Beside hidden start s') (stepCollection c f command) := by
  have hQ := Store.keptByLookups_reading s'.store
  cases command with
  | atRevision revision access =>
    cases hc
    refine (preserves_ofExcept _).bind fun revision => ?_
    refine (preserves_beside_observing (c.keeps_atRevision hQ f revision) _).bind_gives
      (gives_observing (c.gives_atRevision f .readOnly revision) _) fun d hd => ?_
    exact preserves_beside_giveOrNone fun u hu => Option.some.inj hu ▸ hd
  | namedRevision name revision access =>
    cases hc
    refine (preserves_ofExcept _).bind fun revision => ?_
    refine (preserves_beside_observing (c.keeps_namedRevision hQ f name revision) _).bind_gives
      (gives_observing (c.gives_namedRevision f .readOnly name revision) _) fun d hd => ?_
    exact preserves_beside_giveOrNone fun u hu => Option.some.inj hu ▸ hd
  | asOf time access =>
    cases hc
    exact (preserves_beside_observing (c.keeps_namedAsOf hQ f c.name time) _).bind_gives
      (gives_observing (c.gives_namedAsOf f .readOnly c.name time) _) fun _ =>
        preserves_beside_giveOrNone
  | namedAsOf name time access =>
    cases hc
    exact (preserves_beside_observing (c.keeps_namedAsOf hQ f name time) _).bind_gives
      (gives_observing (c.gives_namedAsOf f .readOnly name time) _) fun _ =>
        preserves_beside_giveOrNone
  | all access pulls =>
    cases hc
    refine (preserves_beside_observing (c.keeps_all hQ f) _).bind_gives
      (gives_observing (c.gives_all f .readOnly) _) fun found hfound => ?_
    exact (preserves_beside_pullDocuments pulls hfound).bind fun _ => preserves_pure _ _
  | _ => cases hc

theorem preserves_beside_giveLease (place : Nat) {lease : Lease} (h : lease.access = .readOnly) :
    Preserves (Beside hidden start s') (giveLease place lease) := by
  refine preserves_get_bind fun s hs => ?_
  exact ((preserves_resourceAt place).bind fun r => (preserves_beside_give h).bind fun _ =>
    preserves_pure _ _) s hs

theorem preserves_beside_stepResource (place : Nat) (f : Faults) {command : ResourceCommand}
    (hc : command.access? = some .readOnly) :
    Preserves (Beside hidden start s') (stepResource place f command) := by
  have hkeeps {α : Type} {x : Action (Observed Resource) StoreError α}
      (hx : ∀ {P : Resource → Prop},
        (∀ {r r' : Resource}, P r → r.LookupStep .readOnly r' → P r') → Observed.Keeps P x)
      (registry : Nat) : Preserves (Beside hidden start s') (onResource place registry x) :=
    preserves_beside_observing
      (((Store.keptByLookups_reading s'.store).onResource (fun _ => trivial) hx).mapError _) registry
  have hgives {α : Type} {A : α → Prop} {x : Action (Observed Resource) StoreError α} (hx : Gives A x)
      (registry : Nat) : Gives A (onResource place registry x) :=
    gives_observing ((gives_onResource hx place).mapError _) registry
  cases command with
  | startReader target =>
    refine (hkeeps (fun hP => ?_) 0).bind fun trx => preserves_beside_giveLease place rfl
    exact keeps_newReader (fun _ hr => hP hr .countOpen) f target
  | take registry access target =>
    cases hc
    exact (hkeeps (fun hP => keeps_takeLease hP f target) registry).bind_gives
      (hgives (gives_takeLease f .readOnly target) registry) fun _ => preserves_beside_giveLease place
  | asOf registry time access =>
    cases hc
    refine (hkeeps (fun hP => keeps_snapshotAsOf (keeps_leaseAsOf hP f time)) registry).bind_gives
      (hgives (gives_snapshotAsOf f .readOnly time) registry) fun found hfound => ?_
    cases found with
    | none => exact preserves_pure _ _
    | some lease => exact preserves_beside_giveLease place (hfound lease rfl)
  | atRevision registry revision access =>
    cases hc
    refine (preserves_ofExcept _).bind fun revision => ?_
    refine (hkeeps (fun hP => ?_) registry).bind_gives
      (hgives (gives_snapshotOf f .readOnly revision) registry) fun _ => preserves_beside_giveLease place
    exact keeps_snapshotOf fun target mostRecent => keeps_leaseRevision hP f target mostRecent
  | _ => cases hc

/-! ### Documents that were found for reading -/

/-- The session is like another one, and gave out so many documents. -/
structure StillBeside (hidden : List Nat) (size : Nat) (s' s : Session) : Prop where
  size_eq : s.documents.size = size
  like : s.Like .reading hidden s'

/-- A hidden slot gets another document that was found for reading, or none. -/
theorem StillBeside.set {size : Nat} {store : Store} {registries : Array Registry} {journal : Journal}
    {d' : Option Document} (hs : StillBeside hidden size s' s) (hslot : slot ∈ hidden)
    (hstore : store.Like .reading s'.store)
    (hregistries : Pointwise (fun r r' => r'.settings = r.settings ∧ True) registries s'.registries)
    (hd : ∀ d ∈ d', d.lease.access = .readOnly) :
    StillBeside hidden size s'
      { s with store, registries, journal, documents := s.documents.setIfInBounds slot d' } where
  size_eq := Array.size_setIfInBounds.trans hs.size_eq
  like :=
    { hs.like with
      store := hstore
      registries := hregistries
      documents := hs.like.documents.setHidden hslot hd
      journal := trivial }

/-- What was found for reading is a read transaction of its own. -/
theorem exists_reader (hd : d.lease.access = .readOnly) : ∃ trx, d.lease = .reader trx := by
  cases hlease : d.lease with
  | reader trx => exact ⟨trx, rfl⟩
  | writer handle =>
    rw [hlease] at hd
    cases hd

theorem put_of_reader (hd : d.lease.access = .readOnly) (u : Store) (t : Transaction) :
    (d.put u t).2 = u ∧ (d.put u t).1.lease.access = .readOnly := by
  obtain ⟨trx, hlease⟩ := exists_reader hd
  have hput : d.put u t = ({ d with lease := .reader t }, u) := by rw [Document.put, hlease]
  rw [hput]
  exact ⟨rfl, rfl⟩

theorem endReader_of_reader (hd : d.lease.access = .readOnly) (u : Store) :
    (d.endReader u).1.lease.access = .readOnly := by
  obtain ⟨trx, hlease⟩ := exists_reader hd
  simp only [Document.endReader, hlease]
  split
  · exact hd
  · rfl

theorem stillBeside_stepDocument {size : Nat} (hs : StillBeside hidden size s' s)
    (hslot : slot ∈ hidden) (hd : d.lease.access = .readOnly) (command : DocumentCommand) :
    StillBeside hidden size s' (stepDocument slot d command s).2 := by
  -- Wherever the cursor moves, it is the document that changes and not the store.
  have hput {registries : Array Registry} {journal : Journal} (t : Transaction)
      (hregistries : Pointwise (fun r r' => r'.settings = r.settings ∧ True) registries s'.registries) :
      StillBeside hidden size s'
        { s with
          store := (d.put s.store t).2
          registries
          journal
          documents := s.documents.setIfInBounds slot (some (d.put s.store t).1) } := by
    obtain ⟨hstore, haccess⟩ := put_of_reader hd s.store t
    refine hs.set hslot ?_ hregistries fun u hu => Option.some.inj hu ▸ haccess
    rw [hstore]
    exact hs.like.store
  have hstreaming {α : Type} (groups : List (Option (List Nat)))
      (x : Action (Observed ItemStream) StoreError α) :
      StillBeside hidden size s' (streaming slot d groups x s).2 := by
    refine hput _ (hs.like.registries.modify_left ?_ 0)
    exact fun hr => ⟨hr.1, trivial⟩
  have hended {d' : Option Document} (hd' : ∀ d ∈ d', d.lease.access = .readOnly) :
      StillBeside hidden size s'
        { s with
          store := (d.endReader s.store).2
          documents := s.documents.setIfInBounds slot d' } :=
    hs.set hslot ((Store.keptByLookups_reading s'.store).endReader hs.like.store) hs.like.registries hd'
  cases command with
  | info | describe => exact hs
  | items groups =>
    refine holds_bind (hstreaming groups _) fun p => ?_
    cases p.1 with
    | ok items => exact preserves_pure _ _
    | error e => exact preserves_fail _
  | stream groups pulls => exact holds_bind (hstreaming groups _) fun p => preserves_pure _ _
  | cursor moves => exact hput _ hs.like.registries
  | write edits =>
    obtain ⟨trx, hlease⟩ := exists_reader hd
    have hwriter : d.writerRef? = none := by rw [Document.writerRef?, hlease]
    unfold stepDocument
    rw [hwriter]
    exact hs
  | sameWriter other => exact ((preserves_document other).bind fun _ => preserves_pure _ _) s hs
  | endReader => exact hended fun u hu => Option.some.inj hu ▸ endReader_of_reader hd s.store
  | release => exact hended fun u hu => nomatch hu

theorem StillBeside.step_document {size : Nat} (hs : StillBeside hidden size s' s)
    (hslot : slot ∈ hidden) (command : DocumentCommand) :
    StillBeside hidden size s' (step (.document slot command) s).2 := by
  show StillBeside hidden size s'
    ((orClosed s.documents[slot]?.join >>= fun d => stepDocument slot d command) s).2
  cases hd : s.documents[slot]?.join with
  | none => exact hs
  | some d =>
    have hreads := hs.like.documents.reads slot hslot d (Option.join_eq_some_iff.mp hd)
    exact stillBeside_stepDocument hs hslot hreads command

/-! ### One command -/

theorem preserves_beside_step {c : Command} (hc : c.access? = some .readOnly) :
    Preserves (Beside hidden start s') (step c) := by
  cases c with
  | collection n command =>
    refine Preserves.bind (preserves_get_bind fun s hs => preserves_orClosed _ s hs) fun c => ?_
    exact preserves_get_bind fun s hs => preserves_beside_stepCollection c s.faults hc s hs
  | resource n command =>
    refine Preserves.bind (preserves_get_bind fun s hs => preserves_orClosed _ s hs) fun place => ?_
    exact preserves_get_bind fun s hs => preserves_beside_stepResource place s.faults hc s hs
  | _ => cases hc

theorem StillBeside.step_of_slot {c : Command} {size : Nat} (hs : StillBeside hidden size s' s)
    (hc : ∃ slot ∈ c.slots, slot ∈ hidden) : StillBeside hidden size s' (step c s).2 := by
  obtain ⟨named, hnamed, hhidden⟩ := hc
  cases c with
  | document slot command =>
    by_cases hslot : slot ∈ hidden
    · exact hs.step_document hslot command
    · cases command with
      | sameWriter other =>
        refine Preserves.bind (preserves_document slot) (fun d => ?_) s hs
        exact (preserves_document other).bind fun _ => preserves_pure _ _
      | _ =>
        obtain rfl := List.mem_singleton.mp hnamed
        exact absurd hhidden hslot
  | _ => exact absurd hnamed List.not_mem_nil

/-- A command that is left out leaves the session like the other one, where what it gives out is hidden. -/
theorem like_step_of_reading {c : Command} (h : s.Like .reading hidden s') (hc : c.IsReading hidden) :
    (step c s).2.Like .reading
      (hidden ++ List.range' s.documents.size ((step c s).2.documents.size - s.documents.size)) s' := by
  rcases hc with hc | hc
  · exact (preserves_beside_step hc s h.beside).like
  · have hstill : StillBeside hidden s.documents.size s' s := ⟨rfl, h⟩
    obtain ⟨hsize, hlike⟩ := hstill.step_of_slot hc
    rw [hsize, Nat.sub_self, List.range'_zero, List.append_nil]
    exact hlike

/-- A command that remains names slots that are shown. -/
theorem matches_step_of_remaining {c : Command} (hc : ¬c.IsReading hidden) :
    Matches (Like .reading hidden) (Answer.Like .reading hidden) (step c)
      (step (c.renumbered hidden)) :=
  matches_step_of_strict Leeway.strict_reading c fun slot hslot hhidden =>
    hc (.inr ⟨slot, hslot, hhidden⟩)

end Session

/-- Answers that are alike with other slots are so with these slots in them. -/
theorem Answer.Like.renumbered {L : Leeway} {hidden : List Nat} {a a' : Answer}
    (h : a.Like L hidden a') : (a.renumbered hidden).Like L [] a' := by
  cases h with
  | same h => exact .same (h.trans (Answer.renumbered_nil _).symm)
  | counters h => exact .counters h
  | resource h => exact .resource h

/-! ### A run -/

namespace Session

variable {hidden : List Nat} {s s' : Session} {c : Command}

theorem withoutReading_cons_of_reading (hc : c.IsReading hidden) (rest : List Command) :
    s.withoutReading hidden (c :: rest) = (step c s).2.withoutReading
      (hidden ++ List.range' s.documents.size ((step c s).2.documents.size - s.documents.size)) rest := by
  simp only [withoutReading, if_pos hc]

theorem withoutReading_cons_of_remaining (hc : ¬c.IsReading hidden) (rest : List Command) :
    s.withoutReading hidden (c :: rest) =
      ((c.renumbered hidden, (step c s).1.map (·.renumbered hidden)) ::
        ((step c s).2.withoutReading hidden rest).1, ((step c s).2.withoutReading hidden rest).2) := by
  simp only [withoutReading, if_neg hc]

/-- What remains of a run is answered by a session as it was in the run, and leaves the session like the
one behind the run. -/
theorem Like.withoutReading (h : s.Like .reading hidden s') (commands : List Command) :
    let remaining := s.withoutReading hidden commands
    let without := s'.play (remaining.1.map (·.1))
    List.Forall₂ (fun was now => SameResult (Answer.Like .reading []) was.2 now.1)
        remaining.1 without.1 ∧
      (s.play commands).2.Like .reading remaining.2 without.2 := by
  induction commands generalizing hidden s s' with
  | nil => exact ⟨.nil, h⟩
  | cons c rest ih =>
    by_cases hc : c.IsReading hidden
    · rw [withoutReading_cons_of_reading hc]
      exact ih (like_step_of_reading h hc)
    · rw [withoutReading_cons_of_remaining hc]
      obtain ⟨ha, hs⟩ := matches_step_of_remaining hc s s' h
      obtain ⟨hrest, hend⟩ := ih hs
      refine ⟨.cons ?_ hrest, hend⟩
      show SameResult (Answer.Like .reading []) ((step c s).1.map (·.renumbered hidden))
        (step (c.renumbered hidden) s').1
      generalize (step c s).1 = a, (step (c.renumbered hidden) s').1 = a' at ha
      cases ha with
      | ok h => exact .ok h.renumbered
      | error e => exact .error e

end Session

/-- **Read-only traffic is not seen.** Take a session and whatever is asked of it, and leave out all that
looks something up for reading, be it found or not, and all that names a document which was found so. What
remains, where it names documents by the slots in which they are now, is answered as before, but for
statistics about read transactions, and counts. In the end the sessions hold the same, but for these, for
journals, and for the documents that are missing: the same databases with the same sealed histories, the
same write transactions with their revisions, trees and cursors. -/
theorem reading_unseen (clock : Instant) (lastId : Nat) (threshold : Severity)
    (commands : List Command) :
    let s := Session.begin clock lastId threshold
    let remaining := s.withoutReading [] commands
    let without := s.play (remaining.1.map (·.1))
    List.Forall₂ (fun was now => SameResult (Answer.Like .reading []) was.2 now.1)
        remaining.1 without.1 ∧
      (s.play commands).2.Like .reading remaining.2 without.2 := by
  intro s
  have hbegin : s.Like .reading [] s :=
    { store := ⟨rfl, .refl .refl_reading, .refl fun _ => .mk rfl⟩
      lastId_eq := rfl
      registries := .refl fun _ => ⟨rfl, trivial⟩
      collections_eq := rfl
      resources_eq := rfl
      documents := .refl _
      faults_eq := rfl
      faults := trivial
      journal := trivial }
  exact hbegin.withoutReading commands

/-- A document is looked up for reading, and its cursor moves. What is looked up next was in the slot behind
it, and is in its slot where it is left out. -/
example :
    let s := Session.begin (.second 10) 0 .info
    let remaining := s.withoutReading []
      [.session (.addDatabase "log" .floor), .session (.openCollection 0 0 "log"),
        .collection 0 (.addAs "log" []), .collection 0 (.namedRevision "log" 1 .readOnly),
        .document 1 (.cursor [.toRoot]), .collection 0 (.namedRevision "log" 1 .updatable),
        .document 2 .info]
    remaining.2 = [1] ∧ remaining.1.map (·.1.slots) = [[], [], [], [], [1]] := by
  decide +kernel

end AsOf
