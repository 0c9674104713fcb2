import AsOf.Document.Basic
import AsOf.Proofs.Store.Event
import AsOf.Store.Database

/-!
# What events keep

Everything that is done to a store through handles and documents comes down to events: opening,
moving, going back and closing are events of a resource, an edit is one too, and the clock of the store
is set by another. So what all events keep is kept by whatever is done. If nothing is committed, it
suffices that it is kept by the events that are no commits, and if a write transaction is opened in some
resources only, by those that open none elsewhere.

## Main definitions

* `StoreEvent.Allowed`: the events that are left when commits and openings are restricted
* `Store.Kept`: a property of stores that these events keep
* `Store.KeptBySteps`: a property of stores that is kept where nothing is sealed
* `Store.KeptByLookups`: a property of stores that finding documents keeps
* `Transaction.Visits`: a transaction moved its cursor, if anything

## Main results

* `Store.Kept.steps`: what events keep is kept by what an operation can do to a resource
* `Store.KeptByLookups.onResource`: lookups of a resource keep what finding documents keeps
* `Store.KeptBySteps.lookups`, `Store.KeptBySteps.put`, `Store.KeptBySteps.endReader`: so do documents that
  are found, moved and closed
* `Store.Kept.edit`, `Store.Kept.runScript`: what events keep is kept by edits and scripts
-/

namespace AsOf

/-- The event is a commit only if there may be commits, and opens a write transaction only where one may
be opened. -/
structure StoreEvent.Allowed (commits : Prop) (opens : Nat → Prop) (e : StoreEvent) : Prop where
  commits : e.IsCommit → commits
  opens : ∀ place, e.Opens place → opens place

theorem StoreEvent.IsGlobal.allowed {commits : Prop} {opens : Nat → Prop} {e : StoreEvent}
    (he : e.IsGlobal) : e.Allowed commits opens := by
  cases e with
  | resource => exact he.elim
  | _ => exact ⟨False.elim, fun _ => False.elim⟩

/-- A property of stores whose resources arose from new ones. Every event that is allowed keeps it, and
where a database hands a resource out, a write transaction may be opened. -/
structure Store.Kept (commits : Prop) (opens : Nat → Prop) (Q : Store → Prop) : Prop where
  arose : ∀ {s : Store}, Q s → s.Arose
  after : ∀ {s : Store} {e : StoreEvent}, Q s → e.Allowed commits opens → Q (s.after e)
  located : ∀ {s : Store} {db place : Nat} {name : String}, Q s → s.locate db name = .ok place →
    opens place

/-- A property of stores that is kept by whatever a resource may do without sealing anything, if that opens
no write transaction or one may be opened, as it may where a database hands the resource out. -/
structure Store.KeptBySteps (opens : Nat → Prop) (Q : Store → Prop) : Prop where
  step : ∀ {s : Store} {place : Nat} {r r' : Resource}, Q s → s.resource? place = some r → r.Step r' →
    r'.history = r.history → (r.running = none → r'.running ≠ none → opens place) →
    Q (s.setResource place r')
  located : ∀ {s : Store} {db place : Nat} {name : String}, Q s → s.locate db name = .ok place →
    opens place

/-- A property of stores that finding documents keeps: a resource may do what a lookup does to it, if that
opens no write transaction or one may be opened, as it may where a database hands the resource out; and
what was found may be given up. -/
structure Store.KeptByLookups (access : Access) (opens : Nat → Prop) (Q : Store → Prop) : Prop where
  step : ∀ {s : Store} {place : Nat} {r r' : Resource}, Q s → s.resource? place = some r →
    r.LookupStep access r' → (access = .updatable → opens place) → Q (s.setResource place r')
  located : ∀ {s : Store} {db place : Nat} {name : String}, Q s → s.locate db name = .ok place →
    opens place
  endReader : ∀ {s : Store} {d : Document}, Q s → Q (d.endReader s).2

/-! ## Cursors that move -/

namespace Transaction

/-- The transaction with its cursor on some node, or the same one. -/
inductive Visits (t : Transaction) : Transaction → Prop
  | stay : Visits t t
  | moveTo {key : Nat} {t' : Transaction} (h : t.moveTo key = .ok t') : Visits t t'

variable {t t' t'' : Transaction}

theorem Visits.trans (h : t.Visits t') (h' : t'.Visits t'') : t.Visits t'' := by
  cases h' with
  | stay => exact h
  | @moveTo key _ h' =>
    cases h with
    | stay => exact .moveTo h'
    | moveTo h =>
      obtain ⟨hopen, -, rfl⟩ := moveTo_eq_ok_iff.mp h
      obtain ⟨-, hkey, rfl⟩ := moveTo_eq_ok_iff.mp h'
      exact .moveTo (moveTo_of_contains hopen hkey)

/-- Only the cursor is another one. -/
theorem Visits.eq (h : t.Visits t') : t' = { t with cursor := t'.cursor } := by
  cases h with
  | stay => rfl
  | moveTo h =>
    obtain ⟨-, -, rfl⟩ := moveTo_eq_ok_iff.mp h
    rfl

end Transaction

namespace Store

variable {s s' : Store} {place : Nat} {r r' : Resource}

theorem setResource_self (hr : s.resource? place = some r) : s.setResource place r = s := by
  simp only [setResource, setIfInBounds_self hr]

theorem setResource_setResource (s : Store) (place : Nat) (r r' : Resource) :
    (s.setResource place r).setResource place r' = s.setResource place r' := by
  simp only [setResource, Array.setIfInBounds_setIfInBounds]

/-- What replacing the transaction of a document does to the store, if that only moved its cursor: a
write transaction moves, and a read transaction is not in the store. -/
theorem step_of_put {d : Document} {t : Transaction} (h : (d.transaction s).Visits t) :
    (d.put s t).2 = s ∨ ∃ r r', s.resource? d.place = some r ∧ r.Step r' ∧ r'.history = r.history ∧
      r'.running = r.running ∧ r'.tally = r.tally ∧ (d.put s t).2 = s.setResource d.place r' := by
  unfold Document.put
  split
  · exact .inl rfl
  · next handle hlease =>
    split
    · exact .inl rfl
    · next r hr =>
      have ht : d.transaction s = (r.writer? handle).getD default := by
        simp only [Document.transaction, hlease, hr, Option.bind_some]
      cases hw : r.writer? handle with
      | none =>
        have hkeep : r.setWriter handle t = r := by
          have hle := Array.getElem?_eq_none_iff.mp hw
          simp only [Resource.setWriter, Array.setIfInBounds, Nat.not_lt.mpr hle, dif_neg,
            not_false_eq_true]
        exact .inl (hkeep.symm ▸ setResource_self hr)
      | some u =>
        rw [ht, hw, Option.getD_some] at h
        cases h with
        | stay =>
          have hkeep : r.setWriter handle t = r := by
            simp only [Resource.setWriter, setIfInBounds_self hw]
          exact .inl (hkeep.symm ▸ setResource_self hr)
        | moveTo h =>
          obtain ⟨hopen, -, -⟩ := Transaction.moveTo_eq_ok_iff.mp h
          have live := Resource.liveWriter_eq_ok_iff.mpr ⟨hw, hopen⟩
          exact .inr ⟨r, _, hr, .moved live (Transaction.moves_of_moveTo h), rfl, rfl, rfl, rfl⟩

namespace KeptByLookups

variable {access : Access} {opens : Nat → Prop} {Q : Store → Prop} (hQ : KeptByLookups access opens Q)
include hQ

/-- An action on a resource that takes no other steps than lookups. -/
theorem onResource {α : Type} {x : Action (Observed Resource) StoreError α} {place : Nat}
    (hopens : access = .updatable → opens place) (hx : ∀ {P : Resource → Prop},
      (∀ {r r' : Resource}, P r → r.LookupStep access r' → P r') → Observed.Keeps P x) :
    Observed.Keeps Q (Observed.onResource place x) := by
  intro o ho
  have ho : Q o.state := ho
  unfold Observed.onResource
  split
  · exact ho
  · next r hr =>
    refine hx (P := fun u => Q (o.state.setResource place u)) (fun {u u'} hu h => ?_)
      ⟨r, o.counters, o.journal⟩ ?_
    · rw [← setResource_setResource o.state place u u']
      refine hQ.step hu ?_ h hopens
      rw [resource?_setResource hr, if_pos rfl]
    · show Q (o.state.setResource place r)
      rwa [setResource_self hr]

theorem releaseAll {documents : List Document} (hs : Q s) :
    Q (documents.foldl (fun s d => d.release s) s) := by
  induction documents generalizing s with
  | nil => exact hs
  | cons d rest ih => exact ih (hQ.endReader hs)

end KeptByLookups

namespace KeptBySteps

variable {opens : Nat → Prop} {Q : Store → Prop} (hQ : KeptBySteps opens Q)
include hQ

/-- A document whose transaction moved its cursor. -/
theorem put {d : Document} {t : Transaction} (hs : Q s) (h : (d.transaction s).Visits t) :
    Q (d.put s t).2 := by
  rcases step_of_put h with hput | ⟨r, r', hr, hstep, hhistory, hrunning, -, hput⟩
  · rw [hput]
    exact hs
  · rw [hput]
    exact hQ.step hs hr hstep hhistory fun hidle hbusy => absurd (hrunning.trans hidle) hbusy

theorem endReader {d : Document} (hs : Q s) : Q (d.endReader s).2 := by
  unfold Document.endReader
  split
  · exact hs
  · next trx _ =>
    split
    · exact hs
    · next r hr =>
      have hrest : (r.endReader trx).2.history = r.history ∧ (r.endReader trx).2.running = r.running := by
        unfold Resource.endReader
        split <;> exact ⟨rfl, rfl⟩
      exact hQ.step hs hr (Resource.step_endReader r trx) hrest.1 fun hidle hbusy =>
        absurd (hrest.2.trans hidle) hbusy

/-- Finding documents seals nothing. -/
theorem lookups (access : Access) : KeptByLookups access opens Q where
  step hs hr h hopens := hQ.step hs hr h.step h.history_eq fun hidle hbusy =>
    hopens (h.access_of_opened hidle hbusy)
  located := hQ.located
  endReader := hQ.endReader

end KeptBySteps

namespace Kept

variable {commits : Prop} {opens : Nat → Prop} {Q : Store → Prop} (hQ : Kept commits opens Q)
include hQ

theorem global {e : StoreEvent} (hs : Q s) (he : e.IsGlobal) : Q (s.after e) := hQ.after hs he.allowed

/-- What an operation can do to a resource without sealing anything, an event can do. -/
theorem steps : KeptBySteps opens Q where
  step {s place r r'} hs hr h hh hopens := by
    obtain ⟨event, hcommit, hopen, hafter⟩ := ((hQ.arose hs).sound hr).exists_event h hh
    have hset : s.after (.resource place event) = s.setResource place r' := by
      simp only [Store.after, hr, hafter]
    refine hset ▸ hQ.after hs ⟨fun h => absurd h hcommit, ?_⟩
    rintro _ ⟨rfl, hevent⟩
    obtain ⟨hidle, hbusy⟩ := hopen hevent
    exact hopens hidle hbusy
  located := hQ.located

/-! ## Edits -/

theorem edit {w : WriterRef} {e : Edit} {answer : EditAnswer} (hs : Q s)
    (h : s.edit w e = .ok (answer, s')) (he : e = .commit → commits) : Q s' := by
  have hcommit : (StoreEvent.resource w.resource (.edit w.handle .epoch e)).IsCommit → commits := by
    intro hc
    cases e <;> first | exact he rfl | exact hc.elim
  have hkept : Q (s.after (.resource w.resource (.edit w.handle .epoch e))) :=
    hQ.after hs ⟨hcommit, fun _ h => h.2.elim⟩
  rw [← run_events_of_edit h]
  cases e with
  | setClock time => exact hQ.global (e := .setClock time) hkept trivial
  | _ => exact hkept

theorem runScript {w : WriterRef} {edits : List Edit} (hs : Q s)
    (he : Edit.commit ∈ edits → commits) : Q (s.runScript w edits).2 := by
  induction edits generalizing s with
  | nil => exact hs
  | cons e rest ih =>
    unfold Store.runScript
    split
    · next a s' h =>
      have hs' : Q s' := hQ.edit hs h fun heq => he (heq ▸ List.mem_cons_self)
      exact ih hs' fun hmem => he (List.mem_cons_of_mem e hmem)
    · exact hs

end Kept

end Store

end AsOf
