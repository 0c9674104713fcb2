import AsOf.Proofs.Journal.Effect

/-!
# Before and behind actions

What holds behind an action may depend on what the action yielded: a lease that was given out counts as
held only if it was given out. So a condition behind an action has two parts, one for each result, and
one for the failure of the action.

## Main definitions

* `Action.Ensures`: what holds before an action, behind its success and behind its failure
* `Observed.Ensures`: the same of the state alone
* `Action.Gives`: what holds of all that an action yields, from whatever state

## Main results

* `Action.Ensures.bind`, `Action.Ensures.attempt_bind`: sequences, and actions whose failure is caught
* `Observed.Keeps.ensures`: what is kept is ensured either way
* `Action.Gives.bind`: what is yielded depends on what was yielded before
-/

namespace AsOf

namespace Action

variable {σ ε ε' α β : Type} {P P' : σ → Prop} {Q Q' : α → σ → Prop} {R : β → σ → Prop}
  {E E' : σ → Prop} {x : Action σ ε α} {f : α → Action σ ε β}

/-- From a state with a property, the action leaves a state with another one that depends on what it
yields, or fails and leaves a state with a third one. -/
def Ensures (P : σ → Prop) (x : Action σ ε α) (Q : α → σ → Prop) (E : σ → Prop) : Prop :=
  ∀ s, P s → match x s with
    | (.ok a, s') => Q a s'
    | (.error _, s') => E s'

theorem ensures_pure {a : α} (h : ∀ s, P s → Q a s) : Ensures P (pure a : Action σ ε α) Q E :=
  fun s hs => h s hs

theorem ensures_fail {e : ε} (h : ∀ s, P s → E s) : Ensures P (fail e : Action σ ε α) Q E :=
  fun s hs => h s hs

theorem Ensures.bind (hx : Ensures P x Q E) (hf : ∀ a, Ensures (Q a) (f a) R E) :
    Ensures P (x >>= f) R E := by
  intro s hs
  have hx := hx s hs
  rw [bind_run]
  rcases h : x s with ⟨e | a, s'⟩
  · rw [h] at hx
    exact hx
  · rw [h] at hx
    exact hf a s' hx

/-- An action whose failure is caught goes on either way. -/
theorem Ensures.attempt_bind {g : Except ε α → Action σ ε' β} (hx : Ensures P x Q E)
    (hok : ∀ a, Ensures (Q a) (g (.ok a)) R E') (herror : ∀ e, Ensures E (g (.error e)) R E') :
    Ensures P (x.attempt >>= g) R E' := by
  intro s hs
  have hx := hx s hs
  rw [bind_run, attempt]
  rcases h : x s with ⟨e | a, s'⟩
  · rw [h] at hx
    exact herror e s' hx
  · rw [h] at hx
    exact hok a s' hx

/-- What holds behind a failure implies what is asked for. -/
theorem Ensures.imp_error (hx : Ensures P x Q E) (h : ∀ s, E s → E' s) : Ensures P x Q E' := by
  intro s hs
  have hx := hx s hs
  split
  · next heq => rwa [heq] at hx
  · next heq =>
    rw [heq] at hx
    exact h _ hx

theorem Ensures.mapError (hx : Ensures P x Q E) (g : ε → ε') : Ensures P (x.mapError g) Q E := by
  intro s hs
  have hx := hx s hs
  rw [Action.mapError]
  rcases h : x s with ⟨e | a, s'⟩
  · rw [h] at hx
    exact hx
  · rw [h] at hx
    exact hx

/-- What an action preserves is ensured either way. -/
theorem Preserves.ensures (hx : Preserves P x) : Ensures P x (fun _ => P) P := by
  intro s hs
  have hx := hx s hs
  split <;> next h => rwa [h] at hx

/-- What is ensured either way is preserved. -/
theorem Ensures.preserves (hx : Ensures P x (fun _ => P) P) : Preserves P x := by
  intro s hs
  have hx := hx s hs
  split at hx <;> next h => rwa [h]

/-- Whatever the action yields has a property. -/
def Gives (A : α → Prop) (x : Action σ ε α) : Prop := ∀ s a, (x s).1 = .ok a → A a

variable {A : α → Prop} {B : β → Prop}

theorem gives_pure {a : α} (h : A a) : Gives A (pure a : Action σ ε α) := by
  intro s b hb
  cases hb
  exact h

theorem gives_fail (e : ε) : Gives A (fail e : Action σ ε α) := fun _ _ h => nomatch h

theorem Gives.bind (hx : Gives A x) (hf : ∀ a, A a → Gives B (f a)) : Gives B (x >>= f) := by
  intro s b hb
  rw [bind_run] at hb
  rcases h : x s with ⟨e | a, s'⟩
  · rw [h] at hb
    cases hb
  · rw [h] at hb
    exact hf a (hx s a (by rw [h])) s' b hb

/-- What is yielded before may be of no account. -/
theorem gives_bind (hf : ∀ a, Gives B (f a)) : Gives B (x >>= f) :=
  Gives.bind (A := fun _ => True) (fun _ _ _ => trivial) fun a _ => hf a

theorem Gives.mapError (hx : Gives A x) (g : ε → ε') : Gives A (x.mapError g) := by
  intro s a ha
  refine hx s a ?_
  rw [Action.mapError] at ha
  rcases h : x s with ⟨e | b, s'⟩
  · rw [h] at ha
    cases ha
  · rw [h] at ha
    cases ha
    rfl

/-- An action whose failure is caught yields the property if it succeeded. -/
theorem Gives.attempt_bind {g : Except ε α → Action σ ε' β} (hx : Gives A x)
    (hok : ∀ a, A a → Gives B (g (.ok a))) (herror : ∀ e, Gives B (g (.error e))) :
    Gives B (x.attempt >>= g) := by
  intro s b hb
  rw [bind_run, attempt] at hb
  rcases h : x s with ⟨e | a, s'⟩
  · rw [h] at hb
    exact herror e s' b hb
  · rw [h] at hb
    exact hok a (hx s a (by rw [h])) s' b hb

/-- What follows may depend on what was yielded. -/
theorem Preserves.bind_gives (hx : Preserves P x) (hA : Gives A x) (hf : ∀ a, A a → Preserves P (f a)) :
    Preserves P (x >>= f) := by
  intro s hs
  have hx := hx s hs
  rw [bind_run]
  rcases h : x s with ⟨e | a, s'⟩
  · rw [h] at hx
    exact hx
  · rw [h] at hx
    exact hf a (hA s a (by rw [h])) s' hx

end Action

namespace Observed

variable {σ ε ε' α β : Type} {P : σ → Prop} {Q : α → σ → Prop} {R : β → σ → Prop} {E : σ → Prop}
  {x : Action (Observed σ) ε α} {f : α → Action (Observed σ) ε β}

/-- What holds of the state before the action, behind its success, and behind its failure. -/
def Ensures (P : σ → Prop) (x : Action (Observed σ) ε α) (Q : α → σ → Prop) (E : σ → Prop) : Prop :=
  Action.Ensures (fun o => P o.state) x (fun a o => Q a o.state) fun o => E o.state

theorem Ensures.bind (hx : Ensures P x Q E) (hf : ∀ a, Ensures (Q a) (f a) R E) :
    Ensures P (x >>= f) R E :=
  Action.Ensures.bind hx hf

theorem Keeps.ensures (hx : Keeps P x) : Ensures P x (fun _ => P) P := Action.Preserves.ensures hx

/-- An action that keeps what holds before another one changes nothing about that one. -/
theorem Keeps.bind_ensures (hx : Keeps P x) (hf : ∀ a, Ensures P (f a) R P) :
    Ensures P (x >>= f) R P :=
  hx.ensures.bind hf

/-- What follows may rely on the state that was asked for. -/
theorem ensures_current_bind {g : σ → Action (Observed σ) ε β}
    (hg : ∀ s, P s → Ensures (· = s) (g s) R E) : Ensures P (current >>= g) R E :=
  fun o ho => hg o.state ho o rfl

theorem Ensures.imp_error {E' : σ → Prop} (hx : Ensures P x Q E) (h : ∀ s, E s → E' s) :
    Ensures P x Q E' :=
  Action.Ensures.imp_error hx fun o => h o.state

theorem ensures_pure {a : α} (h : ∀ s, P s → Q a s) :
    Ensures P (pure a : Action (Observed σ) ε α) Q E :=
  Action.ensures_pure fun o => h o.state

theorem ensures_fail {e : ε} (h : ∀ s, P s → E s) :
    Ensures P (Action.fail e : Action (Observed σ) ε α) Q E :=
  Action.ensures_fail fun o => h o.state

theorem ensures_update {g : σ → Except ε (α × σ)}
    (hQ : ∀ {s a s'}, P s → g s = .ok (a, s') → Q a s')
    (hE : ∀ {s e}, P s → g s = .error e → E s) : Ensures P (update g) Q E := by
  intro o ho
  rw [update]
  cases h : g o.state with
  | ok p => exact hQ ho h
  | error e => exact hE ho h

theorem ensures_record (r : Record) :
    Ensures P (record r : Action (Observed σ) ε Unit) (fun _ => P) E :=
  fun _ h => h

theorem Ensures.within (hx : Ensures P x Q E) (scope : Scope) (reason : ε → String) :
    Ensures P (within scope reason x) Q E := by
  refine (ensures_record _).bind fun _ => Action.Ensures.attempt_bind hx (fun a => ?_) fun e => ?_
  · exact ensures_pure fun _ h => h
  · exact (ensures_record _).bind fun _ => ensures_fail fun _ h => h

theorem gives_within {A : α → Prop} (hx : Action.Gives A x) (scope : Scope) (reason : ε → String) :
    Action.Gives A (within scope reason x) :=
  Action.gives_bind fun _ => hx.attempt_bind (fun _ ha => Action.gives_pure ha) fun e =>
    Action.gives_bind fun _ => Action.gives_fail e

end Observed

end AsOf
