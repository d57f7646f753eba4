import ObjectWire.Error

/-!
# Actions

An action works on a state and ends with a result or with a reason to stop.  What it did to the state
before it stopped stays done: a failed write leaves its bytes behind, and it is for the caller to
rewind.
-/

namespace ObjectWire

/-- A computation on a state that may stop early and leaves a state either way. -/
def Action (σ : Type) (α : Type) : Type := σ → Except Stop α × σ

namespace Action

variable {σ τ α β : Type}

/-- The result of an action and the state it leaves. -/
@[inline] def run (x : Action σ α) (s : σ) : Except Stop α × σ := x s

/-- Actions with the same runs are the same. -/
@[ext] theorem ext {x y : Action σ α} (h : ∀ s, x.run s = y.run s) : x = y := funext h

@[always_inline] instance : Monad (Action σ) where
  pure a := fun s => (.ok a, s)
  bind x f := fun s =>
    match x s with
    | (.ok a, s) => f a s
    | (.error e, s) => (.error e, s)

/-- A result at once leaves the state alone. -/
@[simp] theorem run_pure (a : α) (s : σ) : (pure a : Action σ α).run s = (.ok a, s) := rfl

/-- The second action runs on the result and in the state of the first one, if there is a result. -/
theorem run_bind (x : Action σ α) (f : α → Action σ β) (s : σ) :
    (x >>= f).run s =
      match x.run s with
      | (.ok a, s) => (f a).run s
      | (.error e, s) => (.error e, s) := rfl

instance : LawfulMonad (Action σ) := LawfulMonad.mk' (Action σ)
  (by
    intro α x
    apply Action.ext
    intro s
    show (x >>= pure).run s = x.run s
    rw [run_bind]
    rcases x.run s with ⟨_ | _, _⟩ <;> rfl)
  (by intro α β a f; rfl)
  (by
    intro α β γ x f g
    apply Action.ext
    intro s
    simp only [run_bind]
    rcases x.run s with ⟨_ | _, _⟩ <;> rfl)

/-- Stops. -/
@[inline] def stop (e : Stop) : Action σ α := fun s => (.error e, s)

/-- Stops with an error. -/
@[inline] def fail (e : Error) : Action σ α := stop (.error e)

/-- The result of a computation that needs no state. -/
@[inline] def ofExcept (r : Except Error α) : Action σ α := fun s => (r.mapError .error, s)

/-- Reads from the state. -/
@[inline] def read (f : σ → α) : Action σ α := fun s => (.ok (f s), s)

/-- Changes the state. -/
@[inline] def update (f : σ → σ) : Action σ Unit := fun s => (.ok (), f s)

/-- Runs an action and, if it fails, goes on with its error and the state it left.  Other reasons to
    stop are passed on. -/
@[inline] def attempt (x : Action σ α) : Action σ (Except Error α) := fun s =>
  match x s with
  | (.ok a, s) => (.ok (.ok a), s)
  | (.error (.error e), s) => (.ok (.error e), s)
  | (.error e, s) => (.error e, s)

/-- Runs an action on each item of a list, in order. -/
def forEach (f : α → Action σ Unit) : List α → Action σ Unit
  | [] => pure ()
  | a :: as => do
    f a
    forEach f as

end Action

end ObjectWire
