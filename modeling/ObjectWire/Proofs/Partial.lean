import Mathlib.Data.Option.Basic
import ObjectWire.Bytes

/-!
# Computations that may give up

Readers and images are computed in `StateT σ Option`: a computation carries a state along and may give
up.  `Gives x s a s'` says that `x` does not give up in the state `s`, and the lemmas take it apart
along the ways in which such computations are composed.
-/

namespace ObjectWire

variable {σ α β : Type}

/-- The computation started in `s` ends with the result `a` in the state `s'`. -/
def Gives (x : StateT σ Option α) (s : σ) (a : α) (s' : σ) : Prop := x s = some (a, s')

@[simp] theorem gives_pure (a b : α) (s s' : σ) :
    Gives (pure a : StateT σ Option α) s b s' ↔ a = b ∧ s = s' := by
  show some (a, s) = some (b, s') ↔ _
  rw [Option.some.injEq, Prod.mk.injEq]

/-- One computation behind another gives what both give, one after the other. -/
@[simp] theorem gives_bind (x : StateT σ Option α) (f : α → StateT σ Option β) (s s'' : σ) (b : β) :
    Gives (x >>= f) s b s'' ↔ ∃ a s', Gives x s a s' ∧ Gives (f a) s' b s'' := by
  show ((x s).bind fun r => f r.1 r.2) = _ ↔ _
  rw [Option.bind_eq_some_iff]
  constructor
  · intro hparts
    obtain ⟨r, hx, hf⟩ := hparts
    exact ⟨r.1, r.2, hx, hf⟩
  · intro hparts
    obtain ⟨a, s', hx, hf⟩ := hparts
    exact ⟨(a, s'), hx, hf⟩

@[simp] theorem gives_map (f : α → β) (x : StateT σ Option α) (s s' : σ) (b : β) :
    Gives (f <$> x) s b s' ↔ ∃ a, Gives x s a s' ∧ f a = b := by
  rw [← bind_pure_comp, gives_bind]
  simp only [gives_pure]
  constructor
  · intro hparts
    obtain ⟨a, _, hx, hf, rfl⟩ := hparts
    exact ⟨a, hx, hf⟩
  · intro hparts
    obtain ⟨a, hx, hf⟩ := hparts
    exact ⟨a, s', hx, hf, rfl⟩

/-- What gives up gives nothing. -/
@[simp] theorem gives_failure (s s' : σ) (a : α) :
    ¬ Gives (failure : StateT σ Option α) s a s' := by
  show ¬ none = some (a, s')
  exact (Option.some_ne_none _).symm

@[simp] theorem gives_get (s s' t : σ) :
    Gives (get : StateT σ Option σ) s t s' ↔ s = t ∧ s = s' := by
  show some (s, s) = some (t, s') ↔ _
  rw [Option.some.injEq, Prod.mk.injEq]

@[simp] theorem gives_set (t s s' : σ) (u : PUnit) :
    Gives (set t : StateT σ Option PUnit) s u s' ↔ t = s' := by
  show some ((), t) = some (u, s') ↔ _
  rw [Option.some.injEq, Prod.mk.injEq]
  exact ⟨And.right, fun h => ⟨rfl, h⟩⟩

@[simp] theorem gives_modify (f : σ → σ) (s s' : σ) (u : PUnit) :
    Gives (modify f : StateT σ Option PUnit) s u s' ↔ f s = s' := by
  show some ((), f s) = some (u, s') ↔ _
  rw [Option.some.injEq, Prod.mk.injEq]
  exact ⟨And.right, fun h => ⟨rfl, h⟩⟩

/-- A guard lets pass only what meets it. -/
@[simp] theorem gives_guard (c : Prop) [Decidable c] (s s' : σ) (u : Unit) :
    Gives (guard c : StateT σ Option Unit) s u s' ↔ c ∧ s = s' := by
  unfold guard
  split
  · simp [*]
  · simp [*]

/-- A computation gives one result at most. -/
theorem Gives.unique {x : StateT σ Option α} {s s₁ s₂ : σ} {a b : α} (h₁ : Gives x s a s₁)
    (h₂ : Gives x s b s₂) : a = b ∧ s₁ = s₂ := by
  have h := Option.some.inj (Eq.trans (Eq.symm h₁) h₂)
  exact Prod.mk.inj h

/-- Whatever `x` gives, `y` gives as well. -/
def Refines (x y : StateT σ Option α) : Prop := ∀ ⦃s a s'⦄, Gives x s a s' → Gives y s a s'

namespace Refines

theorem refl (x : StateT σ Option α) : Refines x x := fun _ _ _ h => h

theorem failure (x : StateT σ Option α) : Refines failure x := by
  intro s a s' h
  exact absurd h (gives_failure s s' a)

/-- If a computation refines another one, so does what goes on from it in the same way. -/
theorem bind {x y : StateT σ Option α} {f g : α → StateT σ Option β} (h : Refines x y)
    (hf : ∀ a, Refines (f a) (g a)) : Refines (x >>= f) (y >>= g) := by
  intro s b s' hb
  -- What is in between is the result that `x` gave, and `y` gives the same.
  obtain ⟨a, s₁, hx, hfa⟩ := (gives_bind ..).mp hb
  exact (gives_bind ..).mpr ⟨a, s₁, h hx, hf a hfa⟩

end Refines

end ObjectWire
