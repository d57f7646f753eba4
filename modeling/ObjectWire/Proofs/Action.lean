import ObjectWire.Session

/-!
# Actions that end with a result

`Yields x s a s'` says that the action `x`, started in the state `s`, ends with the result `a` and
leaves the state `s'`.  The lemmas below take the success of a composed action apart into the successes
of its parts, one lemma for each way in which actions are composed, so that later proofs can follow a
write step by step without opening the definition of the steps.
-/

namespace ObjectWire

namespace Action

variable {σ τ α β : Type}

/-- The action started in `s` ends with the result `a` and leaves `s'`. -/
def Yields (x : Action σ α) (s : σ) (a : α) (s' : σ) : Prop := x s = (.ok a, s')

/-- A result read off a run. -/
theorem yields_of_toOption {x : Action σ α} {s : σ} {a : α} (h : (x s).1.toOption = some a) :
    x.Yields s a (x s).2 := by
  unfold Yields
  generalize x s = run at h ⊢
  obtain ⟨_ | b, s'⟩ := run
  · cases h
  · cases h
    rfl

/-- A result at once is that result, in the same state. -/
@[simp] theorem yields_pure (a b : α) (s s' : σ) :
    (pure a : Action σ α).Yields s b s' ↔ a = b ∧ s = s' := by
  simp [Yields, pure]

/-- A sequence of two actions succeeds if and only if both do, one after the other. -/
@[simp] theorem yields_bind (x : Action σ α) (f : α → Action σ β) (s s'' : σ) (b : β) :
    (x >>= f).Yields s b s'' ↔ ∃ a s', x.Yields s a s' ∧ (f a).Yields s' b s'' := by
  show (x >>= f).run s = _ ↔ _
  rw [run_bind]
  constructor
  · intro h
    split at h
    · next a s' hx => exact ⟨a, s', hx, h⟩
    · cases h
  · intro hparts
    obtain ⟨a, s', hx, hf⟩ := hparts
    have hrun : x.run s = (.ok a, s') := hx
    rw [hrun]
    exact hf

/-- An action that stops yields nothing. -/
@[simp] theorem yields_stop (e : Stop) (s s' : σ) (a : α) :
    ¬ (stop e : Action σ α).Yields s a s' := by
  simp [Yields, stop]

/-- Nor does one that fails. -/
@[simp] theorem yields_fail (e : Error) (s s' : σ) (a : α) :
    ¬ (fail e : Action σ α).Yields s a s' := by
  simp [fail]

/-- What is looked at in the state is the result, and the state stays. -/
@[simp] theorem yields_read (f : σ → α) (s s' : σ) (a : α) :
    (read f).Yields s a s' ↔ f s = a ∧ s = s' := by
  simp [Yields, read]

/-- What follows a look at the state runs in that state. -/
theorem run_read_bind (f : σ → α) (k : α → Action σ β) (s : σ) :
    (read f >>= k).run s = (k (f s)).run s := rfl

/-- Nothing runs behind a failure. -/
theorem run_fail_bind (e : Error) (k : α → Action σ β) (s : σ) :
    (fail e >>= k).run s = (.error (.error e), s) := rfl

/-- A change of the state yields the changed state. -/
@[simp] theorem yields_update (f : σ → σ) (s s' : σ) (a : Unit) :
    (update f).Yields s a s' ↔ f s = s' := by
  simp [Yields, update]

/-- An answer is the result, unless it is an error. -/
@[simp] theorem yields_ofExcept (r : Except Error α) (s s' : σ) (a : α) :
    (ofExcept r).Yields s a s' ↔ r = .ok a ∧ s = s' := by
  cases r with
  | error e =>
    show ((Except.error (.error e) : Except Stop α), s) = (.ok a, s') ↔ _
    simp
  | ok b =>
    show ((Except.ok b : Except Stop α), s) = (.ok a, s') ↔ _
    simp

/-- An action behind a guard succeeds only if the guard lets it pass. -/
theorem yields_guard {c : Prop} [Decidable c] {e : Error} {k : Unit → Action σ β} {s s' : σ} {b : β} :
    (if c then (fail e : Action σ Unit) >>= k else k ()).Yields s b s' ↔ ¬ c ∧ (k ()).Yields s b s' := by
  split <;> simp [*]

/-- An action behind another that is taken only if a condition holds. -/
theorem yields_when {c : Prop} [Decidable c] {x : Action σ Unit} {k : Action σ β} {s s' : σ} {b : β} :
    (if c then x >>= fun _ => k else k).Yields s b s' ↔
      ∃ s₁, (if c then x else pure ()).Yields s () s₁ ∧ k.Yields s₁ b s' := by
  split
  · -- Both sides differ in the result of the first action only, and there is one such result.
    rw [yields_bind]
    constructor
    · intro hparts
      obtain ⟨_, s₁, h⟩ := hparts
      exact ⟨s₁, h⟩
    · intro hparts
      obtain ⟨s₁, h⟩ := hparts
      exact ⟨(), s₁, h⟩
  · simp

/-- An action on one part of the state, put back into the whole. -/
theorem yields_part (y : Action σ α) (x : Action τ α) {s s' : σ} {t : τ} {a : α} (back : τ → σ)
    (h : y s = ((x t).1, back (x t).2)) :
    y.Yields s a s' ↔ ∃ t', x.Yields t a t' ∧ back t' = s' := by
  unfold Yields
  rw [h]
  constructor
  · intro hrun
    obtain ⟨hresult, hback⟩ := Prod.mk.inj hrun
    exact ⟨_, Prod.ext hresult rfl, hback⟩
  · intro hparts
    obtain ⟨t', hx, rfl⟩ := hparts
    rw [hx]

/-- A loop without turns leaves the state alone. -/
@[simp] theorem yields_forEach_nil (f : α → Action σ Unit) (s s' : σ) (u : Unit) :
    (forEach f []).Yields s u s' ↔ s = s' := by
  simp [forEach]

/-- A loop yields by its first turn, and then as the loop over the rest. -/
@[simp] theorem yields_forEach_cons (f : α → Action σ Unit) (a : α) (as : List α) (s s'' : σ)
    (u : Unit) :
    (forEach f (a :: as)).Yields s u s'' ↔
      ∃ s', (f a).Yields s () s' ∧ (forEach f as).Yields s' () s'' := by
  rw [forEach, yields_bind]
  constructor
  · intro hparts
    obtain ⟨_, s', h⟩ := hparts
    exact ⟨s', h⟩
  · intro hparts
    obtain ⟨s', h⟩ := hparts
    exact ⟨(), s', h⟩

/-- A loop of one turn is that turn. -/
theorem forEach_singleton (f : α → Action σ Unit) (a : α) : forEach f [a] = f a := by
  simp only [forEach]
  exact bind_pure _

/-- Writing entries one after the other is writing keys and values in turn. -/
theorem forEach_pairs (f : α → Action σ Unit) (entries : List (α × α)) :
    forEach (fun (key, value) => do f key; f value) entries =
      forEach f (entries.flatMap fun (key, value) => [key, value]) := by
  induction entries with
  | nil => rfl
  | cons entry entries ih =>
    simp only [List.flatMap_cons, List.cons_append, List.nil_append, forEach, ih, bind_assoc]

end Action

open ObjectWire.Action

/-- A name resolves to what it is registered as, and any other name to its derived id, whose fields have
    ids from then on. -/
theorem Registry.resolve_cases {name : String} {kind : TypeKind} {failIfUnregistered : Bool}
    {r r' : Registry} {resolved : ResolvedType}
    (h : (resolve name kind failIfUnregistered).Yields r resolved r') :
    (∃ entry, r.types.find? name = some entry ∧ resolved = ⟨entry.typeId, true, entry.userType⟩ ∧
        r' = r) ∨
      ∃ typeId, r.types.find? name = none ∧ failIfUnregistered = false ∧
        derivedId name = .ok typeId ∧ resolved = ⟨typeId, false, kind ≠ .builtin⟩ ∧
        r' = r.addMapped typeId := by
  simp only [resolve, yields_bind, yields_read] at h
  obtain ⟨_, _, ⟨rfl, rfl⟩, h⟩ := h
  split at h
  · next entry hentry =>
    obtain ⟨rfl, rfl⟩ := (yields_pure ..).mp h
    exact .inl ⟨entry, hentry, rfl, rfl⟩
  · next hnone =>
    obtain ⟨hallowed, h⟩ := yields_guard.mp h
    simp only [yields_bind, yields_ofExcept, yields_update, yields_pure] at h
    obtain ⟨typeId, _, ⟨hid, rfl⟩, _, _, rfl, rfl, rfl⟩ := h
    exact .inr ⟨typeId, hnone, eq_false_of_ne_true hallowed, hid, rfl, rfl⟩

/-- A step of the registry changes the registry inside the service. -/
@[simp] theorem TypeService.yields_onRegistry {α : Type} (x : Action Registry α) (s s' : TypeService)
    (a : α) :
    (onRegistry x).Yields s a s' ↔ ∃ r, x.Yields s.registry a r ∧ { s with registry := r } = s' :=
  yields_part (onRegistry x) x (fun registry => { s with registry }) rfl

namespace WriteM

variable {α : Type}

/-- A step of the tape changes the tape inside the session. -/
@[simp] theorem yields_onTape (x : Action Tape α) (s s' : Session) (a : α) :
    (onTape x).Yields s a s' ↔ ∃ t, x.Yields s.tape a t ∧ { s with tape := t } = s' :=
  yields_part (onTape x) x (fun t => { s with tape := t }) rfl

/-- A step of the service changes the service inside the session. -/
@[simp] theorem yields_onService (x : Action TypeService α) (s s' : Session) (a : α) :
    (onService x).Yields s a s' ↔
      ∃ v, x.Yields s.service a v ∧ { s with service := v } = s' :=
  yields_part (onService x) x (fun v => { s with service := v }) rfl

/-- The options are those of the session's service. -/
@[simp] theorem yields_config (s s' : Session) (c : Config) :
    config.Yields s c s' ↔ s.service.config = c ∧ s = s' := by
  simp [config]

/-- The position is the cursor of the session's tape. -/
@[simp] theorem yields_position (s s' : Session) (n : Nat) :
    position.Yields s n s' ↔ s.tape.cursor = n ∧ s = s' := by
  simp [position]

/-- A distance is worked out only between places that are in order. -/
@[simp] theorem yields_distance (start stop n : Nat) (s s' : Session) :
    (distance start stop).Yields s n s' ↔ (start ≤ stop ∧ n = stop - start) ∧ s = s' := by
  unfold distance
  split <;> simp [*, eq_comm]

/-- A write with handles of its own leaves the handles as they were. -/
@[simp] theorem yields_detached (x : WriteM α) (s s' : Session) (a : α) :
    (detached x).Yields s a s' ↔
      ∃ s₁, x.Yields { s with handles := .empty } a s₁ ∧ { s₁ with handles := s.handles } = s' :=
  yields_part (detached x) x (fun s₁ => { s₁ with handles := s.handles }) rfl

end WriteM

end ObjectWire
