import AsOf.Proofs.Journal.Effect

/-!
# Two runs in step

What two runs have in common can be said without saying what they do: from states that are alike they
answer the same, and the states that they leave are alike again. A sequence of actions does so if its
parts do.

States may differ in something that an action sees when it asks for the state. Then it is up to what
follows to make the same of both. Where answers refer to what the states differ in, they cannot be the
same, but they can still be related.

## Main definitions

* `Action.InStep`: two actions answer the same from states that are alike, and leave such
* `Action.Matches`: their answers are related, and they leave states that are alike
* `SameChange`: two changes of a state are refused alike, or leave states that are alike
* `SameResult`: two results are the same error, or what they yield is related

## Main results

* `Action.InStep.bind`, `Action.Matches.bind`: sequences of actions
-/

namespace AsOf

/-- Two changes of a state are refused with the same error, or yield the same and leave states that are
alike. -/
inductive SameChange {σ ε α : Type} (R : σ → σ → Prop) : Except ε (α × σ) → Except ε (α × σ) → Prop
  | ok {a : α} {s s' : σ} (h : R s s') : SameChange R (.ok (a, s)) (.ok (a, s'))
  | error (e : ε) : SameChange R (.error e) (.error e)

/-- What both changes ask for first is of no account. -/
theorem SameChange.bind {σ ε α β : Type} {R : σ → σ → Prop} {x : Except ε β}
    {f g : β → Except ε (α × σ)} (h : ∀ b, SameChange R (f b) (g b)) :
    SameChange R (x >>= f) (x >>= g) := by
  cases x with
  | error e => exact .error e
  | ok b => exact h b

namespace Action

variable {σ ε α β : Type} {R : σ → σ → Prop}

/-- From states that are alike, two actions answer the same and leave states that are alike. -/
def InStep (R : σ → σ → Prop) (x y : Action σ ε α) : Prop :=
  ∀ s s', R s s' → (x s).1 = (y s').1 ∧ R (x s).2 (y s').2

/-- What follows two actions that answer the same, and leave states that are alike. -/
theorem bind_inStep {x y : Action σ ε α} {f g : α → Action σ ε β} {s s' : σ}
    (hx : (x s).1 = (y s').1 ∧ R (x s).2 (y s').2) (hf : ∀ a, InStep R (f a) (g a)) :
    ((x >>= f) s).1 = ((y >>= g) s').1 ∧ R ((x >>= f) s).2 ((y >>= g) s').2 := by
  obtain ⟨ha, hr⟩ := hx
  rw [bind_run, bind_run]
  generalize x s = a, y s' = b at ha hr
  rcases a with ⟨_ | a, u⟩ <;> rcases b with ⟨_ | b, v⟩ <;> cases ha
  · exact ⟨rfl, hr⟩
  · exact hf a u v hr

theorem InStep.bind {x y : Action σ ε α} {f g : α → Action σ ε β} (hx : InStep R x y)
    (hf : ∀ a, InStep R (f a) (g a)) : InStep R (x >>= f) (y >>= g) :=
  fun s s' hs => bind_inStep (hx s s' hs) hf

theorem inStep_pure (a : α) : InStep R (pure a : Action σ ε α) (pure a) := fun _ _ h => ⟨rfl, h⟩

theorem inStep_fail (e : ε) : InStep R (fail e : Action σ ε α) (fail e) := fun _ _ h => ⟨rfl, h⟩

theorem inStep_ofExcept (a : Except ε α) :
    InStep R (ofExcept a : Action σ ε α) (ofExcept a) := fun _ _ h => ⟨rfl, h⟩

theorem inStep_modify {f g : σ → σ} (h : ∀ {s s'}, R s s' → R (f s) (g s')) :
    InStep R (modify f : Action σ ε Unit) (modify g) := fun _ _ hs => ⟨rfl, h hs⟩

theorem inStep_get_bind {f g : σ → Action σ ε β} (h : ∀ {s s'}, R s s' → InStep R (f s) (g s')) :
    InStep R (get >>= f) (get >>= g) := fun s s' hs => h hs s s' hs

theorem InStep.attempt {ε' : Type} {x y : Action σ ε α} (hx : InStep R x y) :
    InStep R (x.attempt : Action σ ε' (Except ε α)) y.attempt :=
  fun s s' hs => ⟨congrArg Except.ok (hx s s' hs).1, (hx s s' hs).2⟩

theorem InStep.mapError {ε' : Type} {x y : Action σ ε α} (hx : InStep R x y) (f : ε → ε') :
    InStep R (x.mapError f) (y.mapError f) := by
  intro s s' hs
  obtain ⟨ha, hr⟩ := hx s s' hs
  unfold Action.mapError
  generalize x s = a, y s' = b at ha hr
  rcases a with ⟨_ | a, u⟩ <;> rcases b with ⟨_ | b, v⟩ <;> cases ha <;> exact ⟨rfl, hr⟩

end Action

/-- Two results are the same error, or what they yield is related. -/
inductive SameResult {ε α β : Type} (A : α → β → Prop) : Except ε α → Except ε β → Prop
  | ok {a : α} {b : β} (h : A a b) : SameResult A (.ok a) (.ok b)
  | error (e : ε) : SameResult A (.error e) (.error e)

namespace Action

variable {σ ε α α' β β' : Type} {R : σ → σ → Prop} {A : α → α' → Prop} {B : β → β' → Prop}

/-- From states that are alike, the results of two actions are related, and they leave states that are
alike. -/
def Matches (R : σ → σ → Prop) (A : α → α' → Prop) (x : Action σ ε α) (y : Action σ ε α') : Prop :=
  ∀ s s', R s s' → SameResult A (x s).1 (y s').1 ∧ R (x s).2 (y s').2

theorem Matches.bind {x : Action σ ε α} {y : Action σ ε α'} {f : α → Action σ ε β}
    {g : α' → Action σ ε β'} (hx : Matches R A x y) (hf : ∀ {a b}, A a b → Matches R B (f a) (g b)) :
    Matches R B (x >>= f) (y >>= g) := by
  intro s s' hs
  obtain ⟨ha, hr⟩ := hx s s' hs
  rw [bind_run, bind_run]
  generalize x s = a, y s' = b at ha hr
  rcases a with ⟨_ | a, u⟩ <;> rcases b with ⟨_ | b, v⟩ <;> cases ha
  · exact ⟨.error _, hr⟩
  · next h => exact hf h u v hr

theorem Matches.mono {B : α → α' → Prop} {x : Action σ ε α} {y : Action σ ε α'} (hx : Matches R A x y)
    (h : ∀ {a b}, A a b → B a b) : Matches R B x y := by
  intro s s' hs
  obtain ⟨ha, hr⟩ := hx s s' hs
  generalize (x s).1 = a, (y s').1 = b at ha
  cases ha with
  | ok hab => exact ⟨.ok (h hab), hr⟩
  | error e => exact ⟨.error e, hr⟩

/-- Actions in step answer what is related to itself. -/
theorem InStep.matches {A : α → α → Prop} {x y : Action σ ε α} (hx : InStep R x y) (hA : ∀ a, A a a) :
    Matches R A x y := by
  intro s s' hs
  obtain ⟨ha, hr⟩ := hx s s' hs
  rw [← ha]
  cases (x s).1 with
  | ok a => exact ⟨.ok (hA a), hr⟩
  | error e => exact ⟨.error e, hr⟩

theorem InStep.bind_matches {x y : Action σ ε α} {f : α → Action σ ε β} {g : α → Action σ ε β'}
    (hx : InStep R x y) (hf : ∀ a, Matches R B (f a) (g a)) : Matches R B (x >>= f) (y >>= g) :=
  Matches.bind (hx.matches (@rfl α)) fun h => h ▸ hf _

theorem matches_pure {a : α} {b : α'} (h : A a b) : Matches R A (pure a : Action σ ε α) (pure b) :=
  fun _ _ hs => ⟨.ok h, hs⟩

theorem matches_fail (e : ε) : Matches R A (fail e : Action σ ε α) (fail e) :=
  fun _ _ hs => ⟨.error e, hs⟩

theorem matches_get_bind {f : σ → Action σ ε β} {g : σ → Action σ ε β'}
    (h : ∀ {s s'}, R s s' → Matches R B (f s) (g s')) : Matches R B (get >>= f) (get >>= g) :=
  fun s s' hs => h hs s s' hs

end Action

end AsOf
