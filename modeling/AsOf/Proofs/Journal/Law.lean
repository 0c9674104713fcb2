import AsOf.Proofs.Journal.Ensure

/-!
# Laws of the journal

What every operation writes to the journal, and that scopes are closed by the records that bracket them.

## Main definitions

* `Observed.Law`: a relation of states, counts and events that lasts along sequences
* `Observed.Obeys`: an action keeps a law, from every state and whatever it comes to
* `Event.outcomes`: the events that tell how an operation came out
* `Observed.Quiet`: no such event is reported
* `Scope.closings`: the names of the records that end a scope
* `Scope.Brackets`: one beginning, one end, and the outcome behind it

## Main results

* `Observed.Obeys.bind`, `Observed.Obeys.attempt`: sequences, and actions whose failure is caught
* `Observed.obeys_update_bind`: a change of the state together with what is counted for it
* `Scope.Apart.brackets`: what is written in order is bracketed, if the names are apart
-/

namespace AsOf

open Observed

/-! ## Laws of actions

What an action leaves of a state, what it counts and which events it reports can be related whatever
the action comes to: an action that is refused may have counted before, and then the state has to show
it as well. A relation that lasts along sequences is a law, and a sequence of actions obeys it if its
parts do. -/

namespace Observed

variable {σ ε ε' α β : Type} {R : σ → σ → List Counter → List (Event × Fields) → Prop}
  {x : Action (Observed σ) ε α} {f : α → Action (Observed σ) ε β}

theorem eventRecords_append (es es' : List (Event × Fields)) :
    eventRecords (es ++ es') = eventRecords es ++ eventRecords es' :=
  List.map_append

/-- A relation between the state before, the state behind, what was counted and what was reported,
which holds where nothing happens and lasts along sequences. -/
structure Law (R : σ → σ → List Counter → List (Event × Fields) → Prop) : Prop where
  refl (s : σ) : R s s [] []
  trans {s s' s'' : σ} {ks ls : List Counter} {es es' : List (Event × Fields)}
    (h : R s s' ks es) (h' : R s' s'' ls es') : R s s'' (ks ++ ls) (es ++ es')

/-- From every state, the action counts and reports something, and this and the state that it leaves
are as the relation says, also if the action fails. -/
def Obeys (R : σ → σ → List Counter → List (Event × Fields) → Prop) (x : Action (Observed σ) ε α) :
    Prop :=
  ∀ s, ∃ a s' ks es, Does x s a s' ks (eventRecords es) ∧ R s s' ks es

/-! ### Single actions -/

section

variable (hR : Law R)
include hR

theorem obeys_pure (a : α) : Obeys R (pure a : Action (Observed σ) ε α) :=
  fun s => ⟨_, s, [], [], does_pure s a, hR.refl s⟩

theorem obeys_current : Obeys R (current : Action (Observed σ) ε σ) :=
  fun s => ⟨_, s, [], [], does_current s, hR.refl s⟩

theorem obeys_ofExcept (a : Except ε α) : Obeys R (Action.ofExcept a : Action (Observed σ) ε α) :=
  fun s => ⟨a, s, [], [], does_ofExcept s a, hR.refl s⟩

theorem obeys_fail (e : ε) : Obeys R (Action.fail e : Action (Observed σ) ε α) :=
  fun s => ⟨.error e, s, [], [], does_fail s e, hR.refl s⟩

/-- A change of the state, and what is done about it. -/
theorem obeys_update_bind {g : σ → Except ε (α × σ)}
    (h : ∀ {s a s'}, g s = .ok (a, s') →
      ∃ b s'' ks es, Does (f a) s' b s'' ks (eventRecords es) ∧ R s s'' ks es) :
    Obeys R (update g >>= f) := by
  intro s
  cases hg : g s with
  | error e => exact ⟨.error e, s, [], [], (does_update_error hg).bind_error, hR.refl s⟩
  | ok p =>
    obtain ⟨a, s'⟩ := p
    obtain ⟨b, s'', ks, es, hf, hr⟩ := h hg
    exact ⟨b, s'', ks, es, (does_update hg).bind hf, hr⟩

theorem obeys_update {g : σ → Except ε (α × σ)} (h : ∀ {s a s'}, g s = .ok (a, s') → R s s' [] []) :
    Obeys R (update g) := by
  intro s
  cases hg : g s with
  | error e => exact ⟨.error e, s, [], [], does_update_error hg, hR.refl s⟩
  | ok p => exact ⟨_, _, [], [], does_update hg, h hg⟩

end

theorem obeys_report {e : Event} {fields : Fields} (h : ∀ s, R s s [] [(e, fields)]) :
    Obeys R (report e fields : Action (Observed σ) ε Unit) :=
  fun s => ⟨_, s, [], [(e, fields)], does_report s e fields, h s⟩

theorem obeys_count {k : Counter} (h : ∀ s, R s s [k] []) :
    Obeys R (count k : Action (Observed σ) ε Unit) :=
  fun s => ⟨_, s, [k], [], does_count s k, h s⟩

/-! ### Sequences -/

theorem Obeys.bind (hR : Law R) (hx : Obeys R x) (hf : ∀ a, Obeys R (f a)) : Obeys R (x >>= f) := by
  intro s
  obtain ⟨a, s', ks, es, hx, hr⟩ := hx s
  cases a with
  | error e => exact ⟨.error e, s', ks, es, hx.bind_error, hr⟩
  | ok a =>
    obtain ⟨b, s'', ls, es', hf, hr'⟩ := hf a s'
    refine ⟨b, s'', ks ++ ls, es ++ es', ?_, hR.trans hr hr'⟩
    rw [eventRecords_append]
    exact hx.bind hf

theorem Obeys.attempt (hx : Obeys R x) : Obeys R (x.attempt : Action (Observed σ) ε' (Except ε α)) := by
  intro s
  obtain ⟨a, s', ks, es, hx, hr⟩ := hx s
  exact ⟨.ok a, s', ks, es, hx.attempt, hr⟩

/-- Whoever keeps a law keeps every law that follows from it. -/
theorem Obeys.imp {R' : σ → σ → List Counter → List (Event × Fields) → Prop} (hx : Obeys R x)
    (h : ∀ {s s' ks es}, R s s' ks es → R' s s' ks es) : Obeys R' x := by
  intro s
  obtain ⟨a, s', ks, es, hx, hr⟩ := hx s
  exact ⟨a, s', ks, es, hx, h hr⟩

end Observed

/-! ## Operations that are bracketed

An operation in a scope leaves one record of its beginning and one of its end in the journal, in front
of and behind whatever it does, and how it came out is told behind the latter. The records of scopes
and those of events are told apart by their names. -/

namespace Event

/-- The events that tell how an operation came out, and not what happened on its way. -/
def outcomes : List Event := [snapshotResolved, snapshotAbsent, documentAdded, ingestionFailed]

/-- The names of these events. -/
def outcomeNames : List String := outcomes.map name

theorem name_inj {e e' : Event} (h : e.name = e'.name) : e = e' := by
  revert h
  cases e <;> cases e' <;> decide

theorem name_mem_outcomeNames {e : Event} : e.name ∈ outcomeNames ↔ e ∈ outcomes := by
  rw [outcomeNames, List.mem_map]
  constructor
  · rintro ⟨e', he', hname⟩
    exact name_inj hname ▸ he'
  · exact fun he => ⟨e, he, rfl⟩

end Event

theorem Observed.exists_of_mem_eventRecords {es : List (Event × Fields)} {r : Record}
    (h : r ∈ eventRecords es) : ∃ e ∈ es, r.event = e.1.name := by
  obtain ⟨e, he, rfl⟩ := List.mem_map.mp h
  exact ⟨e, he, rfl⟩

/-- Nothing is told of how an operation came out. -/
def Observed.Quiet {σ : Type} (_ _ : σ) (_ : List Counter) (es : List (Event × Fields)) : Prop :=
  ∀ e ∈ es, e.1 ∉ Event.outcomes

theorem Observed.law_quiet {σ : Type} : Law (Quiet (σ := σ)) where
  refl _ := by simp [Quiet]
  trans h h' := fun e he => (List.mem_append.mp he).elim (h e) (h' e)

namespace Scope

/-- The names of the records that end a scope, in whichever way. -/
def closings (s : Scope) : List String :=
  [s.name ++ "_COMPLETE", s.name ++ "_FAILED", s.name ++ "_INCOMPLETE"]

/-- What was written begins with the one record of the beginning of a scope, has one record that ends
it, and behind that the records of the outcome, which is told nowhere else. -/
structure Brackets (s : Scope) (written : List Record) (closing : Record) (outcome : List Record) :
    Prop where
  begins : written.head? = some s.began
  begins_once : written.filter (fun r => r.event = s.name ++ "_BEGIN") = [s.began]
  closes_once : written.filter (fun r => r.event ∈ s.closings) = [closing]
  ends : ∃ before, written = before ++ closing :: outcome
  told_once : written.filter (fun r => r.event ∈ Event.outcomeNames) = outcome

/-- No event can be taken for a record of the scope, nor the beginning of the scope for its end. -/
structure Apart (s : Scope) : Prop where
  event_ne_began (e : Event) : e.name ≠ s.name ++ "_BEGIN"
  event_not_mem (e : Event) : e.name ∉ s.closings
  began_not_mem : s.name ++ "_BEGIN" ∉ s.closings

variable {s : Scope}

/-- Only the name of a scope is of account. -/
theorem Apart.with_fields {name : String} (h : Apart ⟨name, []⟩) (fields : Fields) :
    Apart ⟨name, fields⟩ :=
  ⟨h.event_ne_began, h.event_not_mem, h.began_not_mem⟩

theorem Apart.not_mem_outcomeNames (hs : s.Apart) {name : String}
    (hname : name = s.name ++ "_BEGIN" ∨ name ∈ s.closings) : name ∉ Event.outcomeNames := by
  intro h
  obtain ⟨e, -, rfl⟩ := List.mem_map.mp h
  rcases hname with hname | hname
  · exact hs.event_ne_began e hname
  · exact hs.event_not_mem e hname

/-- What an operation writes in order is bracketed: its beginning, events that are no outcome, one end,
and then the outcome. -/
theorem Apart.brackets (hs : s.Apart) {closing : Record} (hclosing : closing.event ∈ s.closings)
    {es outcome : List (Event × Fields)} (hes : ∀ e ∈ es, e.1 ∉ Event.outcomes)
    (houtcome : ∀ e ∈ outcome, e.1 ∈ Event.outcomes) :
    s.Brackets (s.began :: eventRecords es ++ closing :: eventRecords outcome) closing
      (eventRecords outcome) := by
  have hbegan : s.began.event = s.name ++ "_BEGIN" := rfl
  have hne : closing.event ≠ s.name ++ "_BEGIN" := fun h => hs.began_not_mem (h ▸ hclosing)
  have hbegin (es : List (Event × Fields)) :
      (eventRecords es).filter (fun r => r.event = s.name ++ "_BEGIN") = [] := by
    refine List.filter_eq_nil_iff.mpr fun r hr => ?_
    obtain ⟨e, -, hname⟩ := exists_of_mem_eventRecords hr
    simpa [hname] using hs.event_ne_began e.1
  have hclose (es : List (Event × Fields)) :
      (eventRecords es).filter (fun r => r.event ∈ s.closings) = [] := by
    refine List.filter_eq_nil_iff.mpr fun r hr => ?_
    obtain ⟨e, -, hname⟩ := exists_of_mem_eventRecords hr
    simpa [hname] using hs.event_not_mem e.1
  have hquiet : (eventRecords es).filter (fun r => r.event ∈ Event.outcomeNames) = [] := by
    refine List.filter_eq_nil_iff.mpr fun r hr => ?_
    obtain ⟨e, he, hname⟩ := exists_of_mem_eventRecords hr
    simpa [hname, Event.name_mem_outcomeNames] using hes e he
  have htold : (eventRecords outcome).filter (fun r => r.event ∈ Event.outcomeNames) =
      eventRecords outcome := by
    refine List.filter_eq_self.mpr fun r hr => ?_
    obtain ⟨e, he, hname⟩ := exists_of_mem_eventRecords hr
    simpa [hname, Event.name_mem_outcomeNames] using houtcome e he
  refine ⟨rfl, ?_, ?_, ⟨_, rfl⟩, ?_⟩
  · simp [hbegin, hbegan, hne]
  · simp [hclose, hbegan, hs.began_not_mem, hclosing]
  · simp [hquiet, htold, hs.not_mem_outcomeNames (.inl hbegan), hs.not_mem_outcomeNames (.inr hclosing)]

end Scope

end AsOf
