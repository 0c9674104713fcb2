/-!
# Actions

A computation that reads and changes a state and may fail. When it fails, the changes that it made
before remain.

## Main definitions

* `Action`: from a state to a result and a state
* `Action.update`: an all-or-nothing change
* `Action.attempt`: a failure as a result
* `Action.Preserves`: what holds before holds behind
-/

namespace AsOf

/-- A computation on a state of type `σ` that yields an `α` or fails with an `ε`. -/
def Action (σ ε α : Type) : Type := σ → Except ε α × σ

namespace Action

variable {σ ε α β : Type}

instance : Monad (Action σ ε) where
  pure a := fun s => (.ok a, s)
  bind x f := fun s =>
    match x s with
    | (.ok a, s') => f a s'
    | (.error e, s') => (.error e, s')

/-- The result of an action and the state that it leaves. -/
def run (x : Action σ ε α) (s : σ) : Except ε α × σ := x s

/-- The state. -/
def get : Action σ ε σ := fun s => (.ok s, s)

/-- A change of the state. -/
def modify (f : σ → σ) : Action σ ε Unit := fun s => (.ok (), f s)

/-- A failure. -/
def fail (e : ε) : Action σ ε α := fun s => (.error e, s)

/-- A result that does not depend on the state. -/
def ofExcept (x : Except ε α) : Action σ ε α := fun s => (x, s)

/-- A change of the state that takes place as a whole or not at all. -/
def update (f : σ → Except ε (α × σ)) : Action σ ε α := fun s =>
  match f s with
  | .ok (a, s') => (.ok a, s')
  | .error e => (.error e, s)

/-- The action with its failure as a result. -/
def attempt {ε' : Type} (x : Action σ ε α) : Action σ ε' (Except ε α) := fun s =>
  let (r, s') := x s
  (.ok r, s')

/-- The action with another form of failure. -/
def mapError {ε' : Type} (f : ε → ε') (x : Action σ ε α) : Action σ ε' α := fun s =>
  match x s with
  | (.ok a, s') => (.ok a, s')
  | (.error e, s') => (.error (f e), s')

/-- Whatever the action does, a property of the state that holds before holds behind it. -/
def Preserves (P : σ → Prop) (x : Action σ ε α) : Prop := ∀ s, P s → P (x s).2

/-! ## Actions are a monad -/

@[simp]
theorem pure_run (a : α) (s : σ) : (pure a : Action σ ε α) s = (.ok a, s) := rfl

theorem bind_run (x : Action σ ε α) (f : α → Action σ ε β) (s : σ) :
    (x >>= f) s = match x s with
      | (.ok a, s') => f a s'
      | (.error e, s') => (.error e, s') := rfl

theorem bind_run_ok {x : Action σ ε α} {f : α → Action σ ε β} {s s' : σ} {a : α}
    (h : x s = (.ok a, s')) : (x >>= f) s = f a s' := by
  rw [bind_run, h]

theorem bind_run_error {x : Action σ ε α} {f : α → Action σ ε β} {s s' : σ} {e : ε}
    (h : x s = (.error e, s')) : (x >>= f) s = (.error e, s') := by
  rw [bind_run, h]

theorem id_map_run (x : Action σ ε α) : id <$> x = x := by
  funext s
  show (match x s with
    | (.ok a, s') => (.ok a, s')
    | (.error e, s') => (.error e, s')) = x s
  rcases x s with ⟨_ | _, _⟩ <;> rfl

theorem bind_assoc_run {γ : Type} (x : Action σ ε α) (f : α → Action σ ε β)
    (g : β → Action σ ε γ) : x >>= f >>= g = x >>= fun a => f a >>= g := by
  funext s
  simp only [bind_run]
  rcases x s with ⟨_ | _, _⟩ <;> rfl

instance : LawfulMonad (Action σ ε) :=
  LawfulMonad.mk' (Action σ ε) id_map_run (fun _ _ => rfl) bind_assoc_run

/-! ## What actions preserve -/

theorem preserves_pure (P : σ → Prop) (a : α) : Preserves P (pure a : Action σ ε α) :=
  fun _ h => h

theorem Preserves.bind {P : σ → Prop} {x : Action σ ε α} {f : α → Action σ ε β}
    (hx : Preserves P x) (hf : ∀ a, Preserves P (f a)) : Preserves P (x >>= f) := by
  intro s hs
  have := hx s hs
  rw [bind_run]
  split
  · next a s' h =>
    rw [h] at this
    exact hf a s' this
  · next e s' h =>
    rw [h] at this
    exact this

end Action

end AsOf
