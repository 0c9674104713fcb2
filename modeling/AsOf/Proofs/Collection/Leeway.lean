import AsOf.Collection.Basic
import AsOf.Proofs.Store.Leeway

/-!
# Documents and collections that differ a little

What documents show, and what collections find, make and remove, makes no other difference than the stores
do.

## Main results

* `Document.transaction_eq`, `Document.base_eq`: what a document shows
* `Document.put_like`, `Document.endReader_like`, `Document.releaseAll_like`: what is done with documents
* `ItemStream.inStep_next`, `ItemStream.inStep_drain`: streams
* `Collection.inStep_namedRevision`, `Collection.inStep_namedAsOf`, `Collection.inStep_all`: finding
* `Collection.inStep_addAs`: making
* `Collection.inStep_remove`, `Collection.inStep_clear`, `Collection.inStep_close`: removing
-/

namespace AsOf

/-! ## Documents and streams within a leeway

A document shows the same in stores that are alike, and leaves them alike when it is moved, closed or given
up. What a stream yields, and what it writes, depends on the stream only. -/

/-! ### Documents -/

namespace Document

variable {L : Leeway} {s s' : Store}

theorem base_eq (h : s.Like L s') (d : Document) : d.base s' = d.base s := by
  unfold Document.base
  rcases h.resource?_cases d.place with ⟨hr, hr'⟩ | ⟨r, r', hr, hr', hlike⟩ <;> rw [hr, hr']
  cases d.lease with
  | reader trx => rfl
  | writer handle => exact hlike.writerBase_eq handle

theorem transaction_eq (h : s.Like L s') (d : Document) : d.transaction s' = d.transaction s := by
  unfold Document.transaction
  cases d.lease with
  | reader trx => rfl
  | writer handle =>
    rcases h.resource?_cases d.place with ⟨hr, hr'⟩ | ⟨r, r', hr, hr', hlike⟩ <;> rw [hr, hr']
    simp only [Option.bind_some, hlike.writer?_eq]

theorem put_like (h : s.Like L s') (d : Document) (t : Transaction) :
    (d.put s' t).1 = (d.put s t).1 ∧ (d.put s t).2.Like L (d.put s' t).2 := by
  unfold Document.put
  cases d.lease with
  | reader trx => exact ⟨rfl, h⟩
  | writer handle =>
    rcases h.resource?_cases d.place with ⟨hr, hr'⟩ | ⟨r, r', hr, hr', hlike⟩ <;> rw [hr, hr']
    · exact ⟨rfl, h⟩
    · exact ⟨rfl, h.setResource (hlike.setWriter handle t) d.place⟩

theorem endReader_like (h : s.Like L s') (d : Document) :
    (d.endReader s').1 = (d.endReader s).1 ∧ (d.endReader s).2.Like L (d.endReader s').2 := by
  unfold Document.endReader
  cases d.lease with
  | writer handle => exact ⟨rfl, h⟩
  | reader trx =>
    rcases h.resource?_cases d.place with ⟨hr, hr'⟩ | ⟨r, r', hr, hr', hlike⟩ <;> rw [hr, hr']
    · exact ⟨rfl, h⟩
    · obtain ⟨htrx, hu⟩ := hlike.endReader trx
      exact ⟨by simp only [htrx], h.setResource hu d.place⟩

theorem releaseAll_like (h : s.Like L s') (documents : List Document) :
    (documents.foldl (fun s d => d.release s) s).Like L
      (documents.foldl (fun s d => d.release s) s') := by
  induction documents generalizing s s' with
  | nil => exact h
  | cons d rest ih => exact ih (d.endReader_like h).2

theorem describe_eq (h : s.Like L s') (d : Document) : d.describe s' = d.describe s := by
  unfold Document.describe
  rw [d.base_eq h]

end Document

/-! ### Streams -/

namespace ItemStream

open AsOf.Action Leeway

variable {L : Leeway}

theorem inStep_advance : InStep (L.Related Eq) advance advance := by
  rintro ⟨s, c, j⟩ ⟨s', c', j'⟩ h
  obtain rfl : s = s' := h.state
  unfold advance
  dsimp only
  cases s.keys with
  | nil => exact ⟨rfl, h⟩
  | cons key rest =>
    dsimp only
    rcases serve { s with keys := rest } key with ⟨_ | _, _⟩ <;> exact ⟨rfl, rfl, h.counters, h.journal⟩

theorem inStep_finish : InStep (L.Related Eq) finish finish := by
  rintro ⟨s, c, j⟩ ⟨s', c', j'⟩ h
  obtain rfl : s = s' := h.state
  exact ⟨rfl, rfl, h.counters, L.journal_write h.journal _⟩

theorem inStep_next : InStep (L.Related Eq) next next := by
  rintro ⟨s, c, j⟩ ⟨s', c', j'⟩ h
  obtain rfl : s = s' := h.state
  have hwith (u : ItemStream) : L.Related Eq ⟨u, c, j⟩ ⟨u, c', j'⟩ := ⟨rfl, h.counters, h.journal⟩
  unfold next
  dsimp only
  by_cases hexhausted : s.exhausted = true
  · simp only [if_pos hexhausted, true_and]
    exact h
  · by_cases hkeys : s.keys.isEmpty = true
    · simp only [if_neg hexhausted, if_pos hkeys]
      rcases s.groups with _ | ⟨_ | keys, groups⟩
      · exact inStep_finish _ _ (hwith _)
      · exact inStep_finish _ _ (hwith _)
      · exact inStep_advance _ _ (hwith _)
    · simp only [if_neg hexhausted, if_neg hkeys]
      exact inStep_advance _ _ h

/-- Draining is taking the next item and draining what is left. -/
theorem drain_eq (o : Observed ItemStream) :
    drain o = if o.state.exhausted = false then
        (do return (← next).toList ++ (← drain) : Action (Observed ItemStream) StoreError (List Item)) o
      else (.ok [], o) := by
  fun_cases drain o with
  | case1 h e u hnext => rw [if_pos h, Action.bind_run_error hnext]
  | case2 h item u hnext hless items v hdrain =>
    rw [if_pos h, Action.bind_run_ok hnext, Action.bind_run_ok hdrain]
    rfl
  | case3 h item u hnext hless e v hdrain =>
    rw [if_pos h, Action.bind_run_ok hnext, Action.bind_run_error hdrain]
  | case4 h => rw [if_neg h]

theorem inStep_drain : InStep (L.Related Eq) drain drain := by
  intro o o' h
  -- The induction is on the work that is ahead.
  induction hn : o.state.stepsAhead using Nat.strongRecOn generalizing o o' with
  | ind n ih =>
    rw [drain_eq o, drain_eq o', ← h.state]
    by_cases hmore : o.state.exhausted = false
    · rw [if_pos hmore, if_pos hmore, Action.bind_run, Action.bind_run]
      have hless := stepsAhead_next hmore
      obtain ⟨ha, hu⟩ := inStep_next o o' h
      generalize next o = x, next o' = y at ha hu hless
      rcases x with ⟨e | item, u⟩ <;> rcases y with ⟨e' | item', u'⟩ <;> cases ha
      · exact ⟨rfl, hu⟩
      · obtain ⟨hb, hv⟩ := ih _ (hn ▸ hless) u u' hu rfl
        simp only [Action.bind_run]
        generalize drain u = x, drain u' = y at hb hv
        rcases x with ⟨_ | _, v⟩ <;> rcases y with ⟨_ | _, v'⟩ <;> cases hb <;> exact ⟨rfl, hv⟩
    · rw [if_neg hmore, if_neg hmore]
      exact ⟨rfl, h⟩

end ItemStream

/-! ## Collections within a leeway

On stores that are the same but for a leeway, collections make, find and remove documents in step. What
is found as of a time is the same if the policies are. -/

namespace Collection

open AsOf.Action Leeway

variable {L : Leeway} (f : Faults) (c : Collection)

theorem describe_eq {s s' : Store} (h : s.Like L s') : c.describe s' = c.describe s := by
  unfold Collection.describe
  rcases h.database?_cases c.database with ⟨hd, hd'⟩ | ⟨d, lookup, hd, hd', hlookup⟩
  · rw [hd, hd']
  · rw [hd, hd']
    rfl

/-! ### Finding -/

theorem inStep_locate (name : String) :
    InStep (L.Related (Store.Like L)) (locate f c name) (locate f c name) := by
  refine (inStep_ofExcept _).bind fun _ => inStep_current_bind fun h => ?_
  rw [h.locate_eq]
  exact inStep_ofExcept _

theorem inStep_soleName : InStep (L.Related (Store.Like L)) (soleName c) (soleName c) := by
  refine inStep_current_bind fun h => ?_
  rw [h.names_eq]
  split
  · exact inStep_fail _
  · exact inStep_pure _
  · exact (inStep_report _ _).bind fun _ => inStep_fail _

theorem inStep_namedRevision (name : String) (revision : RevisionChoice) (access : Access) :
    InStep (L.Related (Store.Like L)) (namedRevision f c name revision access)
      (namedRevision f c name revision access) := by
  refine InStep.mapError ((inStep_locate f c name).bind fun place => ?_) _
  exact (Store.inStep_onResource (Resource.inStep_snapshotOf f revision access) place).bind fun _ =>
    inStep_pure _

theorem inStep_namedAsOf (hL : L.Strict) (name : String) (time : Instant) (access : Access) :
    InStep (L.Related (Store.Like L)) (namedAsOf f c name time access)
      (namedAsOf f c name time access) := by
  refine InStep.mapError ((inStep_locate f c name).bind fun place => ?_) _
  exact (Store.inStep_onResource (Resource.inStep_snapshotAsOf f hL time access) place).bind fun _ =>
    inStep_pure _

theorem inStep_atRevision (revision : RevisionChoice) (access : Access) :
    InStep (L.Related (Store.Like L)) (atRevision f c revision access)
      (atRevision f c revision access) :=
  (inStep_soleName c).bind fun name => inStep_namedRevision f c name revision access

theorem inStep_latestOf (access : Access) (found : List Document) (names : List String) :
    InStep (L.Related (Store.Like L)) (latestOf f c access found names)
      (latestOf f c access found names) := by
  induction names generalizing found with
  | nil => exact inStep_pure found
  | cons name names ih =>
    refine (inStep_namedRevision f c name .latest access).attempt.bind fun result => ?_
    cases result with
    | ok document => exact ih (found ++ [document])
    | error e =>
      have hrelease : InStep (L.Related (Store.Like L)) (releaseAll found) (releaseAll found) :=
        fun _ _ h => ⟨rfl, Document.releaseAll_like h.state found, h.counters, h.journal⟩
      exact hrelease.bind fun _ => inStep_fail e

theorem inStep_all (access : Access) :
    InStep (L.Related (Store.Like L)) (all f c access) (all f c access) := by
  refine inStep_current_bind fun h => ?_
  rw [h.names_eq]
  exact inStep_latestOf f c access [] _

/-! ### Removing -/

theorem inStep_removeNamed (name : String) :
    InStep (L.Related (Store.Like L)) (removeNamed f c name) (removeNamed f c name) :=
  (inStep_ofExcept _).bind fun _ => inStep_update fun h => h.remove c.database name

theorem nameOf?_eq {s s' : Store} (h : s.Like L s') (id : Int) : c.nameOf? s' id = c.nameOf? s id := by
  unfold nameOf?
  rcases h.database?_cases c.database with ⟨hd, hd'⟩ | ⟨d, lookup, hd, hd', -⟩
  · rw [hd, hd']
  · rw [hd, hd']
    rfl

theorem inStep_remove (id : Int) : InStep (L.Related (Store.Like L)) (remove f c id) (remove f c id) := by
  refine inStep_current_bind fun h => ?_
  rw [nameOf?_eq c h]
  split
  · exact inStep_pure false
  · next name _ =>
    refine InStep.bind ((inStep_removeNamed f c name).mapError _) fun removed => ?_
    split
    · exact (inStep_report _ _).bind fun _ => inStep_pure removed
    · exact inStep_pure removed

theorem inStep_clear : InStep (L.Related (Store.Like L)) (clear f c) (clear f c) := by
  refine InStep.bind ((inStep_ofExcept _).mapError _) fun _ => ?_
  refine InStep.bind (fun _ _ h => ?_) fun _ => inStep_report _ _
  exact ⟨rfl, h.state.clear c.database, h.counters, h.journal⟩

theorem inStep_close : InStep (L.Related (Store.Like L)) (close f c) (close f c) := by
  refine InStep.bind ((inStep_ofExcept _).mapError _) fun _ => ?_
  refine InStep.bind (fun _ _ h => ?_) fun _ => inStep_report _ _
  exact ⟨rfl, h.state.close c.database, h.counters, h.journal⟩

/-! ### Making -/

theorem inStep_fill (name : String) (edits : List Edit) :
    InStep (L.Related (Store.Like L)) (fill f c name edits) (fill f c name edits) := by
  refine (inStep_locate f c name).bind fun place => ?_
  refine (Store.inStep_onResource (Resource.inStep_takeWriter f) place).bind fun handle => ?_
  have hscript (w : WriterRef) (edits : List Edit) :
      InStep (L.Related (Store.Like L)) (script w edits) (script w edits) := by
    intro o o' h
    obtain ⟨ha, hs⟩ := h.state.runScript w edits
    exact ⟨ha, hs, h.counters, h.journal⟩
  exact (hscript _ _).bind fun _ => inStep_pure _

theorem inStep_make (name : String) (edits : List Edit) :
    InStep (L.Related (Store.Like L)) (make f c name edits) (make f c name edits) := by
  refine (inStep_ofExcept _).bind fun _ => ?_
  refine (inStep_update fun h => h.create c.database name c.settings.resource).bind fun _ => ?_
  refine (inStep_fill f c name edits).attempt.bind fun result => ?_
  cases result with
  | ok document => exact inStep_pure document
  | error e => exact (inStep_removeNamed f c name).bind fun _ => inStep_fail e

theorem inStep_addAs (name : String) (edits : List Edit) :
    InStep (L.Related (Store.Like L)) (addAs f c name edits) (addAs f c name edits) := by
  refine (inStep_within (inStep_make f c name edits) _ _).attempt.bind fun result => ?_
  cases result with
  | ok document =>
    refine inStep_current_bind fun h => ?_
    dsimp only
    rw [document.base_eq h]
    exact (inStep_record _).bind fun _ => (inStep_count _).bind fun _ =>
      (inStep_report _ _).bind fun _ => inStep_pure document
  | error e =>
    exact (inStep_count _).bind fun _ => (inStep_report _ _).bind fun _ => inStep_fail _

theorem inStep_add (edits : List Edit) :
    InStep (L.Related (Store.Like L)) (add f c edits) (add f c edits) := by
  refine inStep_current_bind fun h => ?_
  rw [nextName, nextName, h.names_eq]
  exact inStep_addAs f c _ edits

end Collection

end AsOf
