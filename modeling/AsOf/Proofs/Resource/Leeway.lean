import AsOf.Proofs.Journal.InStep
import AsOf.Store.Database

/-!
# Resources that differ a little

Two resources may differ in how times are looked up, in statistics or in what is written down. What is done to
both then makes no other difference.

## Main definitions

* `Leeway`: how far policies, statistics, counts and journals may differ, and which faults there may be
* `Leeway.Related`: observed states whose states are related, within a leeway
* `Resource.Like`: resources that are the same but for a leeway
* `Leeway.policies`: policies and statistics may differ at will, and so may what is counted and written
* `Resource.Agrees`: two resources differ in their policies and statistics only

## Main results

* `Leeway.inStep_update`, `Leeway.inStep_within`: actions in step within a leeway
* `Resource.Like.startWriter`, `Resource.Like.startReader`, `Resource.Like.revert`: opening
  transactions, and going back
* `Resource.Like.edit`: edits
* `Resource.agrees_iff_like`: to agree is to differ within this leeway
-/

namespace AsOf

/-! ## What two runs may differ in

Two runs that answer alike need not leave the same behind: policies, statistics, counts and journals
may differ, each as far as some relation allows. Nothing that is done to both adds to the difference
if the relations outlive what a run adds to either side: statistics and counts that go up, and records
that are written. So one pass over all operations says of every such leeway that what is done to both
is refused with the same error, or yields the same and stays within the leeway.

Only a lookup of a time asks for the policy, so it is in step only where the policies are the same. -/

/-- The statistics with those of a further span added. -/
def ResourceTally.plus (t span : ResourceTally) : ResourceTally where
  readOpened := t.readOpened + span.readOpened
  readClosed := t.readClosed + span.readClosed
  writeOpened := t.writeOpened + span.writeOpened
  writeClosed := t.writeClosed + span.writeClosed
  reverts := t.reverts + span.reverts
  commits := t.commits + span.commits

/-- How far two runs may differ. What both add to statistics, counts and journals keeps them related. -/
structure Leeway where
  lookup : LookupPolicy → LookupPolicy → Prop
  tally : ResourceTally → ResourceTally → Prop
  counters : Counters → Counters → Prop
  journal : Journal → Journal → Prop
  faults : Faults → Prop
  lookup_refl : ∀ policy, lookup policy policy
  tally_new : tally {} {}
  tally_plus : ∀ {t t'}, tally t t' → ∀ span, tally (t.plus span) (t'.plus span)
  counters_new : counters {} {}
  counters_count : ∀ {c c'}, counters c c' → ∀ k, counters (c.count k) (c'.count k)
  journal_write : ∀ {j j'}, journal j j' → ∀ w, journal (j.write w) (j'.write w)

namespace Leeway

open Observed AsOf.Action

/-- Observed states whose states are related, and whose counts and journals differ within the leeway. -/
structure Related {σ : Type} (L : Leeway) (R : σ → σ → Prop) (o o' : Observed σ) : Prop where
  state : R o.state o'.state
  counters : L.counters o.counters o'.counters
  journal : L.journal o.journal o'.journal

/-- The leeway leaves the policies no room, and allows every fault. -/
structure Strict (L : Leeway) : Prop where
  lookup_eq : ∀ {policy policy'}, L.lookup policy policy' → policy' = policy
  faults : ∀ f, L.faults f

variable {σ ε α β : Type} {L : Leeway} {R : σ → σ → Prop}

theorem inStep_current_bind {f g : σ → Action (Observed σ) ε β}
    (h : ∀ {s s'}, R s s' → InStep (L.Related R) (f s) (g s')) :
    InStep (L.Related R) (current >>= f) (current >>= g) :=
  fun o o' ho => h ho.state o o' ho

theorem inStep_record (w : Record) :
    InStep (L.Related R) (record w : Action (Observed σ) ε Unit) (record w) :=
  fun _ _ h => ⟨rfl, h.state, h.counters, L.journal_write h.journal w⟩

theorem inStep_report (e : Event) (fields : Fields) :
    InStep (L.Related R) (report e fields : Action (Observed σ) ε Unit) (report e fields) :=
  inStep_record _

theorem inStep_count (k : Counter) :
    InStep (L.Related R) (count k : Action (Observed σ) ε Unit) (count k) :=
  fun _ _ h => ⟨rfl, h.state, L.counters_count h.counters k, h.journal⟩

theorem inStep_update {f g : σ → Except ε (α × σ)}
    (h : ∀ {s s'}, R s s' → SameChange R (f s) (g s')) :
    InStep (L.Related R) (Observed.update f) (Observed.update g) := by
  intro o o' ho
  have h := h ho.state
  unfold Observed.update
  generalize f o.state = x, g o'.state = y at h
  cases h with
  | ok hs => exact ⟨rfl, hs, ho.counters, ho.journal⟩
  | error e => exact ⟨rfl, ho⟩

theorem inStep_within {x y : Action (Observed σ) ε α} (hx : InStep (L.Related R) x y) (scope : Scope)
    (reason : ε → String) : InStep (L.Related R) (within scope reason x) (within scope reason y) := by
  refine (inStep_record _).bind fun _ => hx.attempt.bind fun a => ?_
  cases a with
  | ok a => exact inStep_pure a
  | error e => exact (inStep_record _).bind fun _ => inStep_fail e

end Leeway

namespace Resource

/-- The resources are the same but for their policies and statistics, which differ within the leeway. -/
inductive Like (L : Leeway) (r : Resource) : Resource → Prop
  | mk {lookup : LookupPolicy} {tally : ResourceTally} (hlookup : L.lookup r.lookup lookup)
      (htally : L.tally r.tally tally) : Like L r { r with lookup, tally }

variable {L : Leeway} {r r' : Resource}

theorem like_iff :
    r.Like L r' ↔ (r'.name = r.name ∧ r'.history = r.history ∧ r'.writers = r.writers ∧
      r'.running = r.running) ∧ L.lookup r.lookup r'.lookup ∧ L.tally r.tally r'.tally := by
  constructor
  · rintro ⟨hlookup, htally⟩
    exact ⟨⟨rfl, rfl, rfl, rfl⟩, hlookup, htally⟩
  · obtain ⟨name, lookup, history, writers, running, tally⟩ := r'
    rintro ⟨⟨rfl, rfl, rfl, rfl⟩, hlookup, htally⟩
    exact .mk hlookup htally

theorem Like.name_eq (h : r.Like L r') : r'.name = r.name := (like_iff.mp h).1.1

theorem Like.history_eq (h : r.Like L r') : r'.history = r.history := (like_iff.mp h).1.2.1

theorem Like.hasRunning_eq (h : r.Like L r') (f : Faults) : f.hasRunning r' = f.hasRunning r := by
  obtain ⟨-, -⟩ := h
  rfl

theorem Like.runningHandle_eq (h : r.Like L r') (f : Faults) :
    f.runningHandle r' = f.runningHandle r := by
  obtain ⟨-, -⟩ := h
  rfl

theorem Like.writer?_eq (h : r.Like L r') (handle : Nat) : r'.writer? handle = r.writer? handle := by
  obtain ⟨-, -⟩ := h
  rfl

theorem Like.liveWriter_eq (h : r.Like L r') (handle : Nat) :
    r'.liveWriter handle = r.liveWriter handle := by
  obtain ⟨-, -⟩ := h
  rfl

theorem Like.writerBase_eq (h : r.Like L r') (handle : Nat) :
    r'.writerBase handle = r.writerBase handle := by
  obtain ⟨-, -⟩ := h
  rfl

/-- Under the same policy the same revision stands for a time. -/
theorem Like.candidate_eq (h : r.Like L r') (hL : L.Strict) (f : Faults) (time : Instant) :
    f.candidate r' time = f.candidate r time := by
  obtain ⟨hlookup, -⟩ := h
  obtain rfl := hL.lookup_eq hlookup
  rfl

/-! ### Opening and closing transactions -/

theorem Like.startWriter (h : r.Like L r') :
    SameChange (Like L) r.startWriter r'.startWriter := by
  obtain ⟨hlookup, htally⟩ := h
  unfold Resource.startWriter
  cases hrun : r.running with
  | some handle =>
    simp only [Option.isSome_some, if_true]
    exact .error _
  | none =>
    simp only [Option.isSome_none, Bool.false_eq_true, if_false, mostRecent]
    cases r.history.revision? r.history.latest.number with
    | none => exact .error _
    | some found => exact .ok (.mk hlookup (L.tally_plus htally { writeOpened := 1 }))

theorem Like.endWriter (h : r.Like L r') :
    r'.endWriter.1 = r.endWriter.1 ∧ r.endWriter.2.Like L r'.endWriter.2 := by
  obtain ⟨hlookup, htally⟩ := h
  unfold Resource.endWriter
  cases hrun : r.running with
  | none => exact ⟨rfl, like_iff.mpr ⟨⟨rfl, rfl, rfl, hrun.symm⟩, hlookup, htally⟩⟩
  | some handle => exact ⟨rfl, .mk hlookup (L.tally_plus htally { writeClosed := 1 })⟩

theorem Like.startReader (h : r.Like L r') (number : RevisionNumber) :
    SameChange (Like L) (r.startReader number) (r'.startReader number) := by
  obtain ⟨hlookup, htally⟩ := h
  unfold Resource.startReader
  cases hs : r.history.revision? number with
  | none => exact .error _
  | some found => exact .ok (.mk hlookup (L.tally_plus htally { readOpened := 1 }))

theorem Like.endReader (h : r.Like L r') (t : Transaction) :
    (r'.endReader t).1 = (r.endReader t).1 ∧ (r.endReader t).2.Like L (r'.endReader t).2 := by
  obtain ⟨hlookup, htally⟩ := h
  unfold Resource.endReader
  split
  · exact ⟨rfl, .mk hlookup htally⟩
  · exact ⟨rfl, .mk hlookup (L.tally_plus htally { readClosed := 1 })⟩

/-! ### Edits -/

theorem Like.setWriter (h : r.Like L r') (handle : Nat) (t : Transaction) :
    (r.setWriter handle t).Like L (r'.setWriter handle t) := by
  obtain ⟨hlookup, htally⟩ := h
  exact .mk hlookup htally

theorem Like.revert (h : r.Like L r') (handle : Nat) (target : RevisionNumber) :
    SameChange (Like L) (do return ((), ← r.revert handle target))
      (do return ((), ← r'.revert handle target)) := by
  obtain ⟨hlookup, htally⟩ := h
  unfold Resource.revert
  show SameChange (Like L) ((r.liveWriter handle >>= fun t => _) >>= fun p => _)
    ((r.liveWriter handle >>= fun t => _) >>= fun p => _)
  cases r.liveWriter handle with
  | error e => exact .error e
  | ok t =>
    simp only [bind, Except.bind, mostRecent]
    by_cases hle : r.history.latest.number ≤ target
    · simp only [hle, if_true]
      exact .error _
    · simp only [hle, if_false]
      cases r.history.revision? target with
      | none => exact .error _
      | some found => exact .ok (.mk hlookup (L.tally_plus htally { reverts := 1 }))

theorem Like.commit (h : r.Like L r') (handle : Nat) (now : Instant) :
    SameChange (Like L) (r.commit handle now) (r'.commit handle now) := by
  obtain ⟨hlookup, htally⟩ := h
  unfold Resource.commit
  exact .bind (x := r.liveWriter handle) fun _ =>
    .ok (.mk hlookup (L.tally_plus htally { commits := 1 }))

/-- An edit is refused by both, or leaves resources that are alike. -/
theorem Like.edit (h : r.Like L r') (handle : Nat) (now : Instant) (e : Edit) :
    SameChange (Like L) (r.edit handle now e) (r'.edit handle now e) := by
  have hset (t : Transaction) := h.setWriter handle t
  have hcommit := h.commit handle now
  unfold Resource.edit
  cases e with
  | toRoot | toParent | moveTo key | insert kind =>
    rw [h.liveWriter_eq]
    exact .bind fun _ => .bind fun _ => .ok (hset _)
  | commit =>
    show SameChange (Like L) (r.commit handle now >>= fun p => _) (r'.commit handle now >>= fun p => _)
    generalize r.commit handle now = x, r'.commit handle now = y at hcommit
    cases hcommit with
    | ok hr => exact .ok hr
    | error e => exact .error e
  | revert target =>
    have hrevert := h.revert handle target
    show SameChange (Like L) (r.revert handle target >>= fun p => _)
      (r'.revert handle target >>= fun p => _)
    generalize r.revert handle target = x, r'.revert handle target = y at hrevert
    cases x <;> cases y <;> cases hrevert
    · exact .error _
    · next hr => exact .ok hr
  | readNode =>
    rw [h.liveWriter_eq]
    exact .bind fun _ => .bind fun _ => .ok h
  | readClosed =>
    obtain ⟨hlookup, htally⟩ := h
    exact .ok (.mk hlookup htally)
  | readResource =>
    obtain ⟨hlookup, htally⟩ := h
    exact .ok (.mk hlookup htally)
  | setClock time => exact .ok h
  | giveUp reason => exact .error reason

end Resource

/-! ## Resources that agree

Two resources agree if they differ in nothing but their policies and their statistics. Only the question
which revision stands for a time sees the difference; everything else that is done to both stays within
this leeway. -/

/-- Policies, statistics, counts and journals may differ at will, as long as the store behaves. -/
def Leeway.policies : Leeway where
  lookup _ _ := True
  tally _ _ := True
  counters _ _ := True
  journal _ _ := True
  faults f := f = .none
  lookup_refl _ := trivial
  tally_new := trivial
  tally_plus _ _ := trivial
  counters_new := trivial
  counters_count _ _ := trivial
  journal_write _ _ := trivial

namespace Resource

/-- The resources differ in their policies and statistics only. -/
inductive Agrees (r : Resource) : Resource → Prop
  | mk (lookup : LookupPolicy) (tally : ResourceTally) : Agrees r { r with lookup, tally }

variable {r r' : Resource}

theorem Agrees.refl (r : Resource) : r.Agrees r := .mk r.lookup r.tally

theorem agrees_iff :
    r.Agrees r' ↔ r'.name = r.name ∧ r'.history = r.history ∧ r'.writers = r.writers ∧
      r'.running = r.running := by
  constructor
  · rintro ⟨lookup, tally⟩
    exact ⟨rfl, rfl, rfl, rfl⟩
  · obtain ⟨name, lookup, history, writers, running, tally⟩ := r'
    rintro ⟨rfl, rfl, rfl, rfl⟩
    exact .mk lookup tally

theorem agrees_iff_like : r.Agrees r' ↔ r.Like .policies r' := by
  rw [agrees_iff, like_iff]
  exact ⟨fun h => ⟨h, trivial, trivial⟩, fun h => h.1⟩

theorem Agrees.history_eq (h : r.Agrees r') : r'.history = r.history := (agrees_iff.mp h).2.1

theorem Agrees.writers_eq (h : r.Agrees r') : r'.writers = r.writers := (agrees_iff.mp h).2.2.1

theorem Agrees.mostRecent_eq (h : r.Agrees r') : r'.mostRecent = r.mostRecent := by
  rw [mostRecent, mostRecent, h.history_eq]

theorem Agrees.liveWriter_eq (h : r.Agrees r') (handle : Nat) :
    r'.liveWriter handle = r.liveWriter handle := by
  rw [liveWriter, liveWriter, writer?, writer?, h.writers_eq]

end Resource

end AsOf
