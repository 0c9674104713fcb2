import AsOf.Proofs.Collection.Add
import AsOf.Proofs.Lookup.Told

/-!
# How operations are told

Making a document is told in the journal as a lookup is: that it begins, what happens on its way, how
it ends, and at last its outcome, which is here told of a failure too. Whichever way an operation takes
through the store, and whatever the store does, it ends once.

## Main definitions

* `Collection.ingestion`, `Collection.addAsGuarded`: the scope of making a document, and how its guard fares
* `Collection.ending`, `Collection.outcome`: the record that ends it, and the event that tells its outcome

## Main results

* `Collection.obeys_make`: on its way, making a document reports no outcome
* `Collection.addAsGuarded_eq`: making a document lets go of the guard of its scope once its end is told
* `operations_are_bracketed`: what lookups and new documents write is bracketed
-/

namespace AsOf

open Observed

/-- With no threshold every record is kept. -/
theorem Journal.writeAll_trace (before ws : List Record) :
    (⟨.trace, before⟩ : Journal).writeAll ws = ⟨.trace, before ++ ws⟩ := by
  induction ws generalizing before with
  | nil => rw [List.append_nil]; rfl
  | cons w ws ih =>
    have hkept : (⟨.trace, before⟩ : Journal).write w = ⟨.trace, before ++ [w]⟩ :=
      if_pos (decide_eq_true (Nat.zero_le _))
    rw [writeAll, List.foldl_cons, hkept]
    exact (ih _).trans (by rw [List.append_assoc]; rfl)

namespace Collection

variable (f : Faults) (c : Collection) (name : String) (edits : List Edit)

/-! ## On the way -/

theorem obeys_locate : Obeys (Quiet (σ := Store)) (locate f c name) :=
  .bind law_quiet (obeys_ofExcept law_quiet _) fun _ =>
    .bind law_quiet (obeys_current law_quiet) fun _ => obeys_ofExcept law_quiet _

theorem obeys_script (w : WriterRef) : Obeys (Quiet (σ := Store)) (script w edits) :=
  fun s => ⟨_, _, [], [], does_script (Prod.ext rfl rfl), by simp [Quiet]⟩

/-- On one resource of a store, nothing more is told than on the resource alone. -/
theorem obeys_onResource {α : Type} {x : Action (Observed Resource) StoreError α}
    (hx : Obeys (Quiet (σ := Resource)) x) (place : Nat) :
    Obeys (Quiet (σ := Store)) (Observed.onResource place x) := by
  intro s
  cases hr : s.resource? place with
  | none =>
    refine ⟨.error .trxClosed, s, [], [], fun counters j => ?_, law_quiet.refl s⟩
    simp only [Observed.onResource, hr]
    rfl
  | some r =>
    obtain ⟨a, r', ks, es, hdoes, hquiet⟩ := hx r
    exact ⟨a, _, ks, es, hdoes.onResource hr, hquiet⟩

theorem obeys_fill : Obeys (Quiet (σ := Store)) (fill f c name edits) := by
  refine .bind law_quiet (obeys_locate f c name) fun place => ?_
  have htake : Obeys (Quiet (σ := Resource)) (takeWriter f) := (obeys_takeWriter f).imp (·.reported)
  refine .bind law_quiet (obeys_onResource htake place) fun handle => ?_
  exact .bind law_quiet (obeys_script _ _) fun _ => obeys_pure law_quiet _

theorem obeys_removeNamed : Obeys (Quiet (σ := Store)) (removeNamed f c name) :=
  .bind law_quiet (obeys_ofExcept law_quiet _) fun _ =>
    obeys_update law_quiet fun {s _ _} _ => law_quiet.refl s

/-- On its way, making a document reports no outcome, whatever it comes to. -/
theorem obeys_make : Obeys (Quiet (σ := Store)) (make f c name edits) := by
  refine .bind law_quiet (obeys_ofExcept law_quiet _) fun _ => ?_
  refine .bind law_quiet (obeys_update law_quiet fun {s _ _} _ => law_quiet.refl s) fun _ => ?_
  refine .bind law_quiet (obeys_fill f c name edits).attempt fun result => ?_
  cases result with
  | ok document => exact obeys_pure law_quiet document
  | error e => exact .bind law_quiet (obeys_removeNamed f c name) fun _ => obeys_fail law_quiet e

/-! ## From the beginning to the outcome -/

/-- The scope of making a document. -/
def ingestion : Scope := ⟨"INGEST", [("collection", c.name), ("resource", name)]⟩

/-- A new document with a name, with the guard of the operation: its end is told, in whichever way it comes
about, and that lets go of the guard. -/
def addAsGuarded : Action (Observed Store) CollectionError Document := do
  let guard ← Guard.start (c.ingestion name)
  match ← (make f c name edits).attempt with
  | .ok document =>
    let bound := ("revision", (document.base (← current)).number.text)
    guard.complete [bound]
    count .documentsAdded
    report .documentAdded ((c.ingestion name).fields ++ [bound])
    return document
  | .error e =>
    guard.fail e.message
    count .ingestionFailures
    report .ingestionFailed ((c.ingestion name).fields ++ [("code", e.code)])
    Action.fail (.ingestion name e)

/-- The guard adds nothing to what is told of a new document. -/
theorem addAsGuarded_eq : c.addAsGuarded f name edits = c.addAs f name edits := by
  simp only [addAsGuarded, Guard.start, Guard.complete_eq, Guard.fail_eq, bind_assoc, pure_bind]
  funext o
  simp only [addAs, within, ingestion, Action.bind_run, Action.attempt, record, Action.modify]
  generalize make f c name edits _ = made
  rcases made with ⟨e | document, o'⟩
  · rfl
  · rfl

/-- The field that tells the revision of a new document. -/
def bound (s : Store) (document : Document) : String × String :=
  ("revision", (document.base s).number.text)

/-- The record that ends making a document: it is complete, on the revision of the document, or it
failed for the reason that the store gave. -/
def ending (s : Store) : Except StoreError Document → Record
  | .ok document => (c.ingestion name).completed [bound s document]
  | .error e => (c.ingestion name).failed e.message

/-- The event that tells the outcome: a document, with its revision, or the code of the error. -/
def outcome (s : Store) : Except StoreError Document → Event × Fields
  | .ok document => (.documentAdded, (c.ingestion name).fields ++ [bound s document])
  | .error e => (.ingestionFailed, (c.ingestion name).fields ++ [("code", e.code)])

/-- Whatever making a document comes to, it writes its beginning, events that are no outcome, its end,
and the outcome. -/
theorem exists_does_addAs (s : Store) : ∃ made s' ks es, (∀ e ∈ es, e.1 ∉ Event.outcomes) ∧
    Does (addAs f c name edits) s (made.mapError (.ingestion name)) s' ks
      ((c.ingestion name).began :: eventRecords es ++
        c.ending name s' made :: eventRecords [c.outcome name s' made]) := by
  obtain ⟨made, s', ks, es, hmake, hquiet⟩ := obeys_make f c name edits s
  have hwithin := hmake.within (c.ingestion name) StoreError.message
  cases made with
  | ok document =>
    -- The scope leaves its end open, which tells the revision of the document.
    rw [failureRecords, List.append_nil] at hwithin
    exact ⟨.ok document, s', _, es, hquiet, hwithin.attempt.bind <| (does_current s').bind <|
      (does_record s' _).bind <| (does_count s' _).bind <|
      (does_report s' _ _).bind (does_pure s' document)⟩
  | error e =>
    refine ⟨.error e, s', ks ++ [.ingestionFailures], es, hquiet, ?_⟩
    rw [List.append_cons (_ :: eventRecords es)]
    exact hwithin.attempt.bind <| (does_count s' _).bind <| (does_report s' _ _).bind (does_fail s' _)

theorem apart_ingestion : (c.ingestion name).Apart := by
  have hname : Scope.Apart ⟨"INGEST", []⟩ :=
    { event_ne_began := fun e => by cases e <;> decide
      event_not_mem := fun e => by cases e <;> decide
      began_not_mem := by decide }
  exact hname.with_fields _

end Collection

/-- **Operations are bracketed.** With every record kept, take any lookup of a resource, and any new document
of a collection, whatever happens on the way and whether or not calls of the store fail. What the operation
writes begins with the beginning of its scope and has one record that ends it: it is complete, and tells the
revision of what was found or made, or it has failed, for the reason that the answer gives. Behind that, and
nowhere else, the outcome is told: the same revision again, or that nothing was found, or that the document
was not made; of a lookup that fails, no outcome is told. The guard of the operation goes by unnoticed,
because it is let go only where its end was told. -/
theorem operations_are_bracketed (f : Faults) (counters : Counters) (before : List Record) :
    (∀ (q : Query) (access : Access) (r : Resource),
      let answer := q.askGuarded f access ⟨r, counters, ⟨.trace, before⟩⟩
      q.askGuarded f access = q.ask f access ∧
      ∃ written, answer.2.journal = ⟨.trace, before ++ written⟩ ∧
        (q.scope r access).Brackets written (q.ending r access answer.2.state answer.1)
          (eventRecords (q.outcome r access answer.2.state answer.1))) ∧
    ∀ (c : Collection) (name : String) (edits : List Edit) (s : Store),
      let answer := c.addAsGuarded f name edits ⟨s, counters, ⟨.trace, before⟩⟩
      c.addAsGuarded f name edits = c.addAs f name edits ∧
      ∃ made written, answer.1 = made.mapError (.ingestion name) ∧
        answer.2.journal = ⟨.trace, before ++ written⟩ ∧
        (c.ingestion name).Brackets written (c.ending name answer.2.state made)
          (eventRecords [c.outcome name answer.2.state made]) := by
  constructor
  · intro q access r
    rw [q.askGuarded_eq f access]
    intro answer
    refine ⟨rfl, ?_⟩
    obtain ⟨found, r', ks, es, htallies, hdoes⟩ := q.exists_does_ask f access r
    have hanswer : answer = _ := hdoes counters ⟨.trace, before⟩
    rw [hanswer, Journal.writeAll_trace]
    exact ⟨_, rfl, q.brackets_written r access htallies.reported r' found⟩
  · intro c name edits s
    rw [c.addAsGuarded_eq f name edits]
    intro answer
    refine ⟨rfl, ?_⟩
    obtain ⟨made, s', ks, es, hquiet, hdoes⟩ := c.exists_does_addAs f name edits s
    have hanswer : answer = _ := hdoes counters ⟨.trace, before⟩
    rw [hanswer, Journal.writeAll_trace]
    refine ⟨made, _, rfl, rfl, (c.apart_ingestion name).brackets ?_ hquiet ?_⟩
    · cases made with
      | ok document => exact List.mem_cons_self
      | error e => exact List.mem_cons_of_mem _ List.mem_cons_self
    · cases made <;> simp [Collection.outcome, Event.outcomes]

end AsOf
