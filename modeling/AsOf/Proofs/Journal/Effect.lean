import AsOf.Journal.Observed

/-!
# What actions do

An action is told by its answer, the state behind it, what it counts and what it writes. An operation in a
scope can be ended but once.

## Main definitions

* `Counters.countAll`: the counts with one more of each counter in a list
* `Observed.Does`: what an action does from a state
* `Observed.Reports`: what an action does that writes nothing but events
* `Observed.Yields`, `Observed.Answers`: what an action yields and leaves, and what it yields
* `Observed.Keeps`: a property of the state holds behind an action if it holds before
* `Guard`: the scope of an operation that goes on
* `Guard.start`, `Guard.complete`, `Guard.fail`, `Guard.drop`: its life

## Main results

* `Observed.Reports.bind`, `Observed.Reports.bind_error`: what a sequence of actions does
* `Observed.Reports.within`: what an action in a scope does
* `Observed.keeps_update`, `Observed.keeps_within`: properties of the state that actions keep
* `Guard.complete_eq`, `Guard.fail_eq`: the end is told once
-/

namespace AsOf

open Observed AsOf.Action

/-! ## What actions do

What an action on an observed state yields, which state it leaves, what it counts and what it writes
does not depend on what was counted and written before. So it is said once what an action does from
a state, and what a sequence of actions does follows from what its parts do.

Most actions write nothing but events. Only an operation in a scope writes other records, and those
stand around its events. -/

namespace Counters

/-- The counts with one more of each counter in a list. -/
def countAll (c : Counters) (ks : List Counter) : Counters := ks.foldl count c

theorem countAll_append (c : Counters) (ks ls : List Counter) :
    c.countAll (ks ++ ls) = (c.countAll ks).countAll ls :=
  List.foldl_append

theorem get_countAll (c : Counters) (ks : List Counter) (l : Counter) :
    (c.countAll ks).get l = c.get l + ks.count l := by
  induction ks generalizing c with
  | nil => rfl
  | cons k ks ih =>
    have hk := ih (c.count k)
    rw [get_count] at hk
    rw [List.count_cons]
    refine hk.trans ?_
    by_cases h : l = k
    · simp only [h, if_true, beq_self_eq_true]
      omega
    · have h' : k ≠ l := fun e => h e.symm
      simp only [h, beq_iff_eq, h', if_false]
      omega

end Counters

theorem Journal.writeAll_append (j : Journal) (ws vs : List Record) :
    j.writeAll (ws ++ vs) = (j.writeAll ws).writeAll vs :=
  List.foldl_append

namespace Observed

variable {σ ε α β : Type} {x : Action (Observed σ) ε α} {f : α → Action (Observed σ) ε β}
  {s s' s'' : σ} {a : α} {e : ε} {b : Except ε β} {ks ls : List Counter}

/-- From a state, and whatever was counted and written before, the action yields a result, leaves a
state, counts and writes. -/
def Does (x : Action (Observed σ) ε α) (s : σ) (a : Except ε α) (s' : σ) (counted : List Counter)
    (written : List Record) : Prop :=
  ∀ c j, x ⟨s, c, j⟩ = (a, ⟨s', c.countAll counted, j.writeAll written⟩)

theorem Does.bind {ws vs : List Record} (hx : Does x s (.ok a) s' ks ws)
    (hf : Does (f a) s' b s'' ls vs) : Does (x >>= f) s b s'' (ks ++ ls) (ws ++ vs) := by
  intro c j
  rw [Action.bind_run_ok (hx c j), hf, Counters.countAll_append, Journal.writeAll_append]

theorem Does.bind_error {ws : List Record} (hx : Does x s (.error e) s' ks ws) :
    Does (x >>= f) s (.error e) s' ks ws :=
  fun c j => Action.bind_run_error (hx c j)

theorem does_pure (s : σ) (a : α) : Does (pure a : Action (Observed σ) ε α) s (.ok a) s [] [] :=
  fun _ _ => rfl

theorem does_current (s : σ) : Does (current : Action (Observed σ) ε σ) s (.ok s) s [] [] :=
  fun _ _ => rfl

theorem does_count (s : σ) (k : Counter) :
    Does (count k : Action (Observed σ) ε Unit) s (.ok ()) s [k] [] :=
  fun _ _ => rfl

theorem does_record (s : σ) (r : Record) :
    Does (record r : Action (Observed σ) ε Unit) s (.ok ()) s [] [r] :=
  fun _ _ => rfl

theorem does_report (s : σ) (e : Event) (fields : Fields) :
    Does (report e fields : Action (Observed σ) ε Unit) s (.ok ()) s [] [e.record fields] :=
  does_record s (e.record fields)

theorem does_ofExcept (s : σ) (a : Except ε α) :
    Does (Action.ofExcept a : Action (Observed σ) ε α) s a s [] [] :=
  fun _ _ => rfl

theorem does_fail (s : σ) (e : ε) :
    Does (Action.fail e : Action (Observed σ) ε α) s (.error e) s [] [] :=
  fun _ _ => rfl

theorem does_update {g : σ → Except ε (α × σ)} (h : g s = .ok (a, s')) :
    Does (update g) s (.ok a) s' [] [] := by
  intro c j
  simp only [update, h]
  rfl

theorem does_update_error {g : σ → Except ε (α × σ)} (h : g s = .error e) :
    Does (update g) s (.error e) s [] [] := by
  intro c j
  simp only [update, h]
  rfl

theorem Does.attempt {ε' : Type} {a : Except ε α} {ws : List Record} (hx : Does x s a s' ks ws) :
    Does (x.attempt : Action (Observed σ) ε' (Except ε α)) s (.ok a) s' ks ws := by
  intro c j
  simp only [Action.attempt, hx c j]

theorem Does.mapError {ε' : Type} {a : Except ε α} {ws : List Record} (hx : Does x s a s' ks ws)
    (g : ε → ε') : Does (x.mapError g) s (a.mapError g) s' ks ws := by
  intro c j
  rw [Action.mapError, hx]
  cases a <;> rfl

/-- The records of events with their fields. -/
def eventRecords (events : List (Event × Fields)) : List Record :=
  events.map fun (e, fields) => e.record fields

/-- From a state, and whatever was counted and written before, the action yields a result, leaves a
state, counts, and writes nothing but events. -/
def Reports (x : Action (Observed σ) ε α) (s : σ) (a : Except ε α) (s' : σ)
    (counted : List Counter) : Prop :=
  ∃ events, Does x s a s' counted (eventRecords events)

/-! ### Single actions -/

theorem reports_pure (s : σ) (a : α) :
    Reports (pure a : Action (Observed σ) ε α) s (.ok a) s [] :=
  ⟨[], does_pure s a⟩

theorem reports_current (s : σ) : Reports (current : Action (Observed σ) ε σ) s (.ok s) s [] :=
  ⟨[], does_current s⟩

theorem reports_ofExcept (s : σ) (a : Except ε α) :
    Reports (Action.ofExcept a : Action (Observed σ) ε α) s a s [] :=
  ⟨[], does_ofExcept s a⟩

theorem reports_report (s : σ) (e : Event) (fields : Fields) :
    Reports (report e fields : Action (Observed σ) ε Unit) s (.ok ()) s [] :=
  ⟨[(e, fields)], does_report s e fields⟩

theorem reports_count (s : σ) (k : Counter) :
    Reports (count k : Action (Observed σ) ε Unit) s (.ok ()) s [k] :=
  ⟨[], does_count s k⟩

theorem reports_update {g : σ → Except ε (α × σ)} (h : g s = .ok (a, s')) :
    Reports (update g) s (.ok a) s' [] :=
  ⟨[], does_update h⟩

theorem reports_update_error {g : σ → Except ε (α × σ)} (h : g s = .error e) :
    Reports (update g) s (.error e) s [] :=
  ⟨[], does_update_error h⟩

/-! ### Sequences and scopes -/

theorem Reports.bind (hx : Reports x s (.ok a) s' ks) (hf : Reports (f a) s' b s'' ls) :
    Reports (x >>= f) s b s'' (ks ++ ls) := by
  obtain ⟨es, hx⟩ := hx
  obtain ⟨es', hf⟩ := hf
  refine ⟨es ++ es', ?_⟩
  rw [eventRecords, List.map_append]
  exact hx.bind hf

theorem Reports.bind_error (hx : Reports x s (.error e) s' ks) :
    Reports (x >>= f) s (.error e) s' ks :=
  let ⟨es, hx⟩ := hx
  ⟨es, hx.bind_error⟩

theorem Reports.attempt {ε' : Type} {a : Except ε α} (hx : Reports x s a s' ks) :
    Reports (x.attempt : Action (Observed σ) ε' (Except ε α)) s (.ok a) s' ks :=
  let ⟨es, hx⟩ := hx
  ⟨es, hx.attempt⟩

/-- What is made of the result of an action is of no account to the state. -/
theorem Does.bind_pure {ws : List Record} (hx : Does x s (.ok a) s' ks ws) (g : α → β) :
    Does (x >>= fun a => pure (g a)) s (.ok (g a)) s' ks ws :=
  fun c j => Action.bind_run_ok (hx c j)

theorem Reports.bind_pure (hx : Reports x s (.ok a) s' ks) (g : α → β) :
    Reports (x >>= fun a => pure (g a)) s (.ok (g a)) s' ks :=
  let ⟨es, hx⟩ := hx
  ⟨es, hx.bind_pure g⟩

/-- What is written behind an action in a scope: its failure, if it fails. -/
def failureRecords (scope : Scope) (reason : ε → String) : Except ε α → List Record
  | .ok _ => []
  | .error e => [scope.failed (reason e)]

/-- An action in a scope does what it does without; its beginning is written in front of what it
writes, and its failure behind. -/
theorem Does.within {a : Except ε α} {ws : List Record} (hx : Does x s a s' ks ws) (scope : Scope)
    (reason : ε → String) :
    Does (within scope reason x) s a s' ks (scope.began :: ws ++ failureRecords scope reason a) := by
  intro c j
  have hx := hx c (j.write scope.began)
  simp only [Observed.within, record, Action.modify, Action.bind_run, Action.attempt, hx]
  cases a with
  | ok a =>
    rw [failureRecords, List.append_nil]
    rfl
  | error e =>
    rw [Journal.writeAll_append]
    rfl

theorem Reports.within {a : Except ε α} (hx : Reports x s a s' ks) (scope : Scope)
    (reason : ε → String) :
    ∃ events, Does (within scope reason x) s a s' ks
      (scope.began :: eventRecords events ++ failureRecords scope reason a) :=
  let ⟨es, hx⟩ := hx
  ⟨es, hx.within scope reason⟩

/-! ### Results -/

/-- From a state, the action yields a result and leaves a state, whatever is counted and written. -/
def Yields (x : Action (Observed σ) ε α) (s : σ) (a : Except ε α) (s' : σ) : Prop :=
  ∀ c j, ∃ c' j', x ⟨s, c, j⟩ = (a, ⟨s', c', j'⟩)

theorem Does.yields {a : Except ε α} {ws : List Record} (hx : Does x s a s' ks ws) :
    Yields x s a s' :=
  fun c j => ⟨_, _, hx c j⟩

theorem Reports.yields {a : Except ε α} (hx : Reports x s a s' ks) : Yields x s a s' :=
  let ⟨_, hx⟩ := hx
  hx.yields

theorem yields_pure (s : σ) (a : α) : Yields (pure a : Action (Observed σ) ε α) s (.ok a) s :=
  (does_pure s a).yields

theorem yields_current (s : σ) : Yields (current : Action (Observed σ) ε σ) s (.ok s) s :=
  (does_current s).yields

theorem yields_ofExcept (s : σ) (a : Except ε α) :
    Yields (Action.ofExcept a : Action (Observed σ) ε α) s a s :=
  (does_ofExcept s a).yields

theorem yields_fail (s : σ) (e : ε) :
    Yields (Action.fail e : Action (Observed σ) ε α) s (.error e) s :=
  (does_fail s e).yields

theorem yields_report (s : σ) (e : Event) (fields : Fields) :
    Yields (report e fields : Action (Observed σ) ε Unit) s (.ok ()) s :=
  (does_report s e fields).yields

theorem Yields.bind (hx : Yields x s (.ok a) s') (hf : Yields (f a) s' b s'') :
    Yields (x >>= f) s b s'' := by
  intro c j
  obtain ⟨c', j', hx⟩ := hx c j
  rw [Action.bind_run_ok hx]
  exact hf c' j'

theorem Yields.bind_pure (hx : Yields x s (.ok a) s') (g : α → β) :
    Yields (x >>= fun a => pure (g a)) s (.ok (g a)) s' :=
  hx.bind (yields_pure s' (g a))

theorem Yields.bind_error (hx : Yields x s (.error e) s') : Yields (x >>= f) s (.error e) s' := by
  intro c j
  obtain ⟨c', j', hx⟩ := hx c j
  exact ⟨c', j', Action.bind_run_error hx⟩

theorem Yields.attempt {ε' : Type} {a : Except ε α} (hx : Yields x s a s') :
    Yields (x.attempt : Action (Observed σ) ε' (Except ε α)) s (.ok a) s' := by
  intro c j
  obtain ⟨c', j', hrun⟩ := hx c j
  exact ⟨c', j', by simp only [Action.attempt, hrun]⟩

theorem Yields.mapError {ε' : Type} {a : Except ε α} (hx : Yields x s a s') (g : ε → ε') :
    Yields (x.mapError g) s (a.mapError g) s' := by
  intro c j
  obtain ⟨c', j', hx⟩ := hx c j
  refine ⟨c', j', ?_⟩
  rw [Action.mapError, hx]
  cases a <;> rfl

/-- From a state, the action yields a result, whatever is counted and written. -/
def Answers (x : Action (Observed σ) ε α) (s : σ) (a : Except ε α) : Prop :=
  ∀ c j, (x ⟨s, c, j⟩).1 = a

theorem Yields.answers {a : Except ε α} (hx : Yields x s a s') : Answers x s a := by
  intro c j
  obtain ⟨c', j', hx⟩ := hx c j
  exact congrArg Prod.fst hx

theorem Yields.bind_answers (hx : Yields x s (.ok a) s') (hf : Answers (f a) s' b) :
    Answers (x >>= f) s b := by
  intro c j
  obtain ⟨c', j', hx⟩ := hx c j
  rw [Action.bind_run_ok hx]
  exact hf c' j'

/-! ### Properties of the state -/

/-- What holds of the state before the action holds of it behind, also if the action fails. -/
def Keeps (Q : σ → Prop) (x : Action (Observed σ) ε α) : Prop :=
  Action.Preserves (fun o => Q o.state) x

variable {Q : σ → Prop}

theorem Keeps.bind (hx : Keeps Q x) (hf : ∀ a, Keeps Q (f a)) : Keeps Q (x >>= f) :=
  Action.Preserves.bind hx hf

theorem keeps_pure (a : α) : Keeps Q (pure a : Action (Observed σ) ε α) :=
  Action.preserves_pure _ a

theorem keeps_current : Keeps Q (current : Action (Observed σ) ε σ) := fun _ h => h

theorem keeps_ofExcept (a : Except ε α) : Keeps Q (Action.ofExcept a : Action (Observed σ) ε α) :=
  fun _ h => h

theorem keeps_record (r : Record) : Keeps Q (record r : Action (Observed σ) ε Unit) :=
  fun _ h => h

theorem keeps_report (e : Event) (fields : Fields) :
    Keeps Q (report e fields : Action (Observed σ) ε Unit) :=
  keeps_record _

theorem keeps_count (k : Counter) : Keeps Q (count k : Action (Observed σ) ε Unit) :=
  fun _ h => h

theorem keeps_update {g : σ → Except ε (α × σ)}
    (h : ∀ {s a s'}, Q s → g s = .ok (a, s') → Q s') : Keeps Q (update g) := by
  intro o ho
  unfold update
  split
  · next hg => exact h ho hg
  · exact ho

theorem keeps_fail (e : ε) : Keeps Q (Action.fail e : Action (Observed σ) ε α) := fun _ h => h

theorem Keeps.attempt {ε' : Type} (hx : Keeps Q x) :
    Keeps Q (x.attempt : Action (Observed σ) ε' (Except ε α)) :=
  fun o ho => hx o ho

theorem Keeps.mapError {ε' : Type} (hx : Keeps Q x) (g : ε → ε') : Keeps Q (x.mapError g) := by
  intro o ho
  have hx := hx o ho
  unfold Action.mapError
  split <;> next h => rwa [h] at hx

theorem keeps_within (scope : Scope) (reason : ε → String) (hx : Keeps Q x) :
    Keeps Q (within scope reason x) := by
  refine (keeps_record _).bind fun _ => hx.attempt.bind fun a => ?_
  cases a with
  | ok a => exact keeps_pure a
  | error e => exact (keeps_record _).bind fun _ => keeps_fail e

end Observed

/-! ## Guards of scopes

While an operation goes on, a guard stands for its scope and remembers whether the end of the operation was
told. Whoever lets go of a guard has this checked, and what was not told leaves a record of that. The two ways
of telling the end let go of the guard as well. They have seen to it before, so nothing is added to what they
tell. -/

/-- The scope of an operation that goes on, and whether its end was told. -/
structure Guard where
  scope : Scope
  told : Bool := false

namespace Guard

variable {σ ε : Type}

/-- The guard of an operation that begins. -/
def start (scope : Scope) : Action (Observed σ) ε Guard := do
  record scope.began
  return { scope }

/-- A guard is let go. If no end was told, this is. -/
def drop (g : Guard) : Action (Observed σ) ε Unit :=
  if g.told then return () else record g.scope.abandoned

/-- The end of an operation is told, and its guard let go. -/
def close (g : Guard) (closing : Record) : Action (Observed σ) ε Unit := do
  let g := { g with told := true }
  record closing
  g.drop

/-- The operation has come to its end, with further fields. -/
def complete (g : Guard) (extra : Fields) : Action (Observed σ) ε Unit :=
  g.close (g.scope.completed extra)

/-- The operation has failed for a reason. -/
def fail (g : Guard) (reason : String) : Action (Observed σ) ε Unit := g.close (g.scope.failed reason)

/-- Where the end was told, letting go of the guard adds nothing to it. -/
theorem close_eq (g : Guard) (closing : Record) :
    (g.close closing : Action (Observed σ) ε Unit) = record closing := rfl

theorem complete_eq (g : Guard) (extra : Fields) :
    (g.complete extra : Action (Observed σ) ε Unit) = record (g.scope.completed extra) :=
  g.close_eq _

theorem fail_eq (g : Guard) (reason : String) :
    (g.fail reason : Action (Observed σ) ε Unit) = record (g.scope.failed reason) :=
  g.close_eq _

end Guard

end AsOf
