import AsOf.Collection.Basic
import AsOf.Proofs.Store.Account
import AsOf.Proofs.Store.Keep

/-!
# What collections keep and enter

Finding, making and removing documents keeps whatever events of the store keep, and every account of its
resources.

## Main results

* `Collection.keeps_locate_bind`: what is done with a resource that is handed out
* `Collection.keeps_namedRevision`, `Collection.keeps_namedAsOf`, `Collection.keeps_all`: finding
* `Collection.keeps_addAs`: making
* `Collection.keeps_remove`, `Collection.keeps_clear`, `Collection.keeps_close`: removing
* `Collection.accounts_namedRevision`, `Collection.accounts_namedAsOf`, `Collection.accounts_all`: finding
* `Collection.accounts_addAs`: making
-/

namespace AsOf

/-! ## What collections keep

Finding, making and removing documents keeps whatever events of the store keep; finding them keeps even what
only lookups keep. Only making a document commits. A collection opens write transactions of resources only
that its database hands out. -/

namespace Collection

open Observed Store

variable {α : Type} {commits : Prop} {opens : Nat → Prop} {Q : Store → Prop}

/-! ### Removing -/

section Removing

variable (hglobal : ∀ {s : Store} {e : StoreEvent}, Q s → e.IsGlobal → Q (s.after e)) (f : Faults)
  (c : Collection)
include hglobal

theorem keeps_removeNamed (name : String) : Keeps Q (removeNamed f c name) := by
  refine (keeps_ofExcept _).bind fun _ => keeps_update fun {s found s'} hs h => ?_
  have hafter : s.after (.remove c.database name) = s' := by
    simp only [Store.after, h]
  exact hafter ▸ hglobal hs trivial

theorem keeps_remove (id : Int) : Keeps Q (remove f c id) := by
  refine keeps_current.bind fun s => ?_
  split
  · exact keeps_pure false
  · next name _ =>
    refine ((keeps_removeNamed hglobal f c name).mapError _).bind fun removed => ?_
    split
    · exact (keeps_report _ _).bind fun _ => keeps_pure removed
    · exact keeps_pure removed

theorem keeps_clear : Keeps Q (clear f c) := by
  have hclear : Keeps Q (Action.modify fun o => { o with state := o.state.clear c.database } :
      Action (Observed Store) CollectionError Unit) :=
    fun o ho => hglobal (e := .clear c.database) ho trivial
  exact ((keeps_ofExcept _).mapError _).bind fun _ => hclear.bind fun _ => keeps_report _ _

theorem keeps_close : Keeps Q (close f c) := by
  have hclose : Keeps Q (Action.modify fun o => { o with state := o.state.close c.database } :
      Action (Observed Store) CollectionError Unit) :=
    fun o ho => hglobal (e := .close c.database) ho trivial
  exact ((keeps_ofExcept _).mapError _).bind fun _ => hclose.bind fun _ => keeps_report _ _

omit f in
theorem keeps_create (name : String) :
    Keeps Q (Observed.update fun s => return ((), ← s.create c.database name c.settings.resource) :
      Action (Observed Store) StoreError Unit) := by
  refine keeps_update fun {s a s'} hs h => ?_
  obtain ⟨u, hu, h⟩ := except_bind_eq_ok_iff.mp h
  cases h
  have hafter : s.after (.create c.database name c.settings.resource) = s' := by
    simp only [Store.after, hu]
  exact hafter ▸ hglobal hs trivial

end Removing

/-! ### Finding -/

section Finding

variable {access : Access} (hQ : KeptByLookups access opens Q) (f : Faults) (c : Collection)

theorem keeps_locate (name : String) : Keeps Q (locate f c name) :=
  (keeps_ofExcept _).bind fun _ => keeps_current.bind fun _ => keeps_ofExcept _

theorem locate_eq_ok {name : String} {place : Nat} {o o' : Observed Store}
    (h : locate f c name o = (.ok place, o')) :
    o.state.locate c.database name = .ok place ∧ o' = o := by
  rw [locate, Action.bind_run] at h
  cases hcheck : f.check .locate with
  | error e =>
    rw [Action.ofExcept, hcheck] at h
    cases h
  | ok u =>
    rw [Action.ofExcept, hcheck] at h
    obtain ⟨hlocate, rfl⟩ := Prod.mk.inj h
    exact ⟨hlocate, rfl⟩

theorem keeps_soleName : Keeps Q (soleName c) := by
  refine keeps_current.bind fun s => ?_
  split
  · exact keeps_fail _
  · exact keeps_pure _
  · exact (keeps_report _ _).bind fun _ => keeps_fail _

include hQ

/-- A resource that is handed out may be opened for writing. -/
theorem keeps_locate_bind {name : String} {g : Nat → Action (Observed Store) StoreError α}
    (hg : ∀ place, opens place → Keeps Q (g place)) : Keeps Q (locate f c name >>= g) := by
  intro o ho
  have ho' := keeps_locate (Q := Q) f c name o ho
  rw [Action.bind_run]
  split
  · next place o' h =>
    obtain ⟨hplace, rfl⟩ := locate_eq_ok f c h
    exact hg place (hQ.located ho hplace) o' ho
  · next h => rwa [h] at ho'

theorem keeps_namedRevision (name : String) (revision : RevisionChoice) :
    Keeps Q (namedRevision f c name revision access) := by
  refine Keeps.mapError (keeps_locate_bind hQ f c fun place hplace => ?_) _
  refine (hQ.onResource (fun _ => hplace) fun hP => ?_).bind fun _ => keeps_pure _
  exact keeps_snapshotOf fun target mostRecent => keeps_leaseRevision hP f target mostRecent

theorem keeps_namedAsOf (name : String) (time : Instant) :
    Keeps Q (namedAsOf f c name time access) := by
  refine Keeps.mapError (keeps_locate_bind hQ f c fun place hplace => ?_) _
  refine (hQ.onResource (fun _ => hplace) fun hP => ?_).bind fun _ => keeps_pure _
  exact keeps_snapshotAsOf (keeps_leaseAsOf hP f time)

theorem keeps_atRevision (revision : RevisionChoice) :
    Keeps Q (atRevision f c revision access) :=
  (keeps_soleName c).bind fun name => keeps_namedRevision hQ f c name revision

theorem keeps_latestOf (found : List Document) (names : List String) :
    Keeps Q (latestOf f c access found names) := by
  induction names generalizing found with
  | nil => exact keeps_pure found
  | cons name names ih =>
    refine (keeps_namedRevision hQ f c name .latest).attempt.bind fun result => ?_
    cases result with
    | ok document => exact ih (found ++ [document])
    | error e =>
      have hrelease : Keeps Q (releaseAll found) := fun o ho => hQ.releaseAll ho
      exact hrelease.bind fun _ => keeps_fail e

theorem keeps_all : Keeps Q (all f c access) :=
  keeps_current.bind fun _ => keeps_latestOf hQ f c [] _

end Finding

/-! ### Making -/

variable (hQ : Kept commits opens Q) (f : Faults) (c : Collection) (hcommits : commits)
include hQ hcommits

theorem keeps_fill (name : String) (edits : List Edit) : Keeps Q (fill f c name edits) := by
  refine keeps_locate_bind (hQ.steps.lookups .updatable) f c fun place hplace => ?_
  have htake : Keeps Q (onResource place (takeWriter f)) :=
    (hQ.steps.lookups .updatable).onResource (fun _ => hplace) fun hP =>
      keeps_takeWriter (fun hr h => hP hr (.writer rfl h)) f
  refine htake.bind fun handle => ?_
  have hscript (w : WriterRef) (edits : List Edit) : Keeps Q (script w edits) := fun o ho =>
    show Q (o.state.runScript w edits).2 from hQ.runScript ho fun _ => hcommits
  exact (hscript _ _).bind fun _ => keeps_pure _

theorem keeps_make (name : String) (edits : List Edit) : Keeps Q (make f c name edits) := by
  refine (keeps_ofExcept _).bind fun _ => (keeps_create hQ.global c name).bind fun _ => ?_
  refine (keeps_fill hQ f c hcommits name edits).attempt.bind fun result => ?_
  cases result with
  | ok document => exact keeps_pure document
  | error e => exact (keeps_removeNamed hQ.global f c name).bind fun _ => keeps_fail e

theorem keeps_addAs (name : String) (edits : List Edit) : Keeps Q (addAs f c name edits) := by
  refine (keeps_within _ _ (keeps_make hQ f c hcommits name edits)).attempt.bind fun result => ?_
  cases result with
  | ok document =>
    refine keeps_current.bind fun s => (keeps_record _).bind fun _ => (keeps_count _).bind fun _ => ?_
    exact (keeps_report _ _).bind fun _ => keeps_pure document
  | error e => exact (keeps_count _).bind fun _ => (keeps_report _ _).bind fun _ => keeps_fail _

theorem keeps_add (edits : List Edit) : Keeps Q (add f c edits) :=
  keeps_current.bind fun _ => keeps_addAs hQ f c hcommits _ edits

end Collection

/-! ## What collections enter

The documents that a collection finds or makes are the only leases that it leaves out: if it finds several
and is refused one, it gives up those that it found before, and whoever cannot make a document has no share
in its write transaction. -/

namespace Collection

open Observed Store

variable {R : List Lease → Resource → Prop} (hR : Resource.Account R) {hs : List Hold} (f : Faults)
  (c : Collection)
include hR

/-! ### Finding -/

theorem accounts_namedRevision (name : String) (revision : RevisionChoice) (access : Access) :
    Ensures (Accounts R hs) (namedRevision f c name revision access)
      (fun d => Accounts R (d.hold :: hs)) (Accounts R hs) := by
  refine Action.Ensures.mapError ?_ _
  refine (keeps_locate f c name).bind_ensures fun place => ?_
  have hfound : Ensures (Accounts R hs) (Observed.onResource place (snapshotOf f revision access)) _ _ :=
    Accounts.ensures_onResource (g := fun lease => [lease])
      (fun ls => hR.ensures_snapshotOf f revision access) place hs
  exact hfound.bind fun lease => ensures_pure fun s ha => ha

theorem accounts_namedAsOf (name : String) (time : Instant) (access : Access) :
    Ensures (Accounts R hs) (namedAsOf f c name time access)
      (fun d => Accounts R (d.toList.map Document.hold ++ hs)) (Accounts R hs) := by
  refine Action.Ensures.mapError ?_ _
  refine (keeps_locate f c name).bind_ensures fun place => ?_
  have hfound : Ensures (Accounts R hs) (Observed.onResource place (snapshotAsOf f time access)) _ _ :=
    Accounts.ensures_onResource (g := Option.toList)
      (fun ls => hR.ensures_snapshotAsOf f time access) place hs
  refine hfound.bind fun lease => ensures_pure fun s ha => ?_
  cases lease <;> exact ha

theorem accounts_atRevision (revision : RevisionChoice) (access : Access) :
    Ensures (Accounts R hs) (atRevision f c revision access) (fun d => Accounts R (d.hold :: hs))
      (Accounts R hs) :=
  (keeps_soleName c).bind_ensures fun name => accounts_namedRevision hR f c name revision access

/-- The documents that were found before are given up if one is refused. -/
theorem accounts_latestOf (access : Access) (found : List Document) (names : List String) :
    Ensures (Accounts R (found.map Document.hold ++ hs)) (latestOf f c access found names)
      (fun ds => Accounts R (ds.map Document.hold ++ hs)) (Accounts R hs) := by
  induction names generalizing found with
  | nil => exact ensures_pure fun s ha => ha
  | cons name names ih =>
    refine Action.Ensures.attempt_bind (accounts_namedRevision hR f c name .latest access)
      (fun d => ?_) fun e => ?_
    · intro o ha
      refine ih (found ++ [d]) o (Accounts.perm (s := o.state) hR ha ?_)
      rw [List.map_append, List.append_assoc]
      exact List.perm_middle.symm
    · have hrelease : Ensures (Accounts R (found.map Document.hold ++ hs)) (releaseAll found)
          (fun _ => Accounts R hs) (Accounts R hs) := fun o ha => Accounts.releaseAll hR ha
      exact hrelease.bind fun _ => ensures_fail fun s ha => ha

theorem accounts_all (access : Access) :
    Ensures (Accounts R hs) (all f c access) (fun ds => Accounts R (ds.map Document.hold ++ hs))
      (Accounts R hs) :=
  keeps_current.bind_ensures fun s => accounts_latestOf hR f c access [] (s.names c.database)

/-! ### Making -/

theorem accounts_fill (name : String) (edits : List Edit) :
    Ensures (Accounts R hs) (fill f c name edits) (fun d => Accounts R (d.hold :: hs))
      (Accounts R hs) := by
  refine (keeps_locate f c name).bind_ensures fun place => ?_
  have htake : Ensures (Accounts R hs) (Observed.onResource place (takeWriter f))
      (fun handle => Accounts R (⟨place, .writer handle⟩ :: hs)) (Accounts R hs) :=
    Accounts.ensures_onResource (g := fun handle => [.writer handle])
      (fun ls => hR.ensures_takeWriter f) place hs
  refine htake.bind fun handle => ?_
  have hscript (w : WriterRef) (edits : List Edit) :
      Keeps (Accounts R (⟨place, .writer handle⟩ :: hs)) (script w edits) :=
    fun o ha => show (o.state.runScript w edits).2.Accounts R _ from Accounts.runScript hR ha
  have hfilled : Ensures (Accounts R (⟨place, .writer handle⟩ :: hs))
      (script ⟨place, handle⟩ ([.toRoot] ++ edits ++ [.commit, .toRoot]) >>= fun _ =>
        (return ⟨c.id, name, place, .writer handle⟩ : Action (Observed Store) StoreError Document))
      (fun d => Accounts R (d.hold :: hs)) (Accounts R (⟨place, .writer handle⟩ :: hs)) :=
    (hscript _ _).bind_ensures fun _ => ensures_pure fun s ha => ha
  exact hfilled.imp_error fun s ha => ha.struck hR rfl

theorem accounts_make (name : String) (edits : List Edit) :
    Ensures (Accounts R hs) (make f c name edits) (fun d => Accounts R (d.hold :: hs))
      (Accounts R hs) := by
  have hglobal {s : Store} {e : StoreEvent} (ha : s.Accounts R hs) (he : e.IsGlobal) :
      (s.after e).Accounts R hs := ha.global hR he
  refine (keeps_ofExcept _).bind_ensures fun _ => (keeps_create hglobal c name).bind_ensures fun _ => ?_
  refine Action.Ensures.attempt_bind (accounts_fill hR f c name edits) (fun d => ?_) fun e => ?_
  · exact ensures_pure fun s ha => ha
  · exact (keeps_removeNamed hglobal f c name).bind_ensures fun _ => ensures_fail fun s ha => ha

theorem accounts_addAs (name : String) (edits : List Edit) :
    Ensures (Accounts R hs) (addAs f c name edits) (fun d => Accounts R (d.hold :: hs))
      (Accounts R hs) := by
  refine Action.Ensures.attempt_bind ((accounts_make hR f c name edits).within _ _) (fun d => ?_)
    fun e => ?_
  · exact fun o ha => ha
  · exact fun o ha => ha

theorem accounts_add (edits : List Edit) :
    Ensures (Accounts R hs) (add f c edits) (fun d => Accounts R (d.hold :: hs)) (Accounts R hs) :=
  keeps_current.bind_ensures fun s => accounts_addAs hR f c (c.nextName s) edits

end Collection

end AsOf
