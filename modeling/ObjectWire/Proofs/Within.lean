import Mathlib.Order.Defs.Unbundled
import ObjectWire.Proofs.CheckedWrites
import ObjectWire.Write

/-!
# What every outcome keeps

`Within R x` says that, whatever becomes of the action `x`, the states before and behind it are in the
relation `R`: a result, an error and any other reason to stop count alike.  For a relation that is
reflexive and transitive this goes through all ways in which actions are composed.  So it is enough to
look at the few actions that change the state themselves.

The first such relation is `Tape.Onward`: the cursor is not moved back, the storage grows as it may, and
the bytes before the cursor stay up to some place.  Which place that is differs: most writes leave all
of them, but the header of an object is filled in long after it was passed by.
-/

namespace ObjectWire

namespace Action

variable {σ α β : Type}

/-- The states before and behind the action are in the relation. -/
def Within (R : σ → σ → Prop) (x : Action σ α) : Prop := ∀ s, R s (x s).2

namespace Within

/-- What is kept whatever the outcome is kept where there is a result. -/
theorem of_yields {R : σ → σ → Prop} {x : Action σ α} (h : Within R x) {s s' : σ} {a : α}
    (hx : x.Yields s a s') : R s s' := by
  have hs := h s
  rwa [show x s = (.ok a, s') from hx] at hs

variable {R : σ → σ → Prop} [IsPreorder σ R]

/-- An action that does nothing keeps everything. -/
theorem pure (a : α) : Within R (pure a : Action σ α) := fun s => refl_of R s

/-- So does one that stops at once. -/
theorem stop (e : Stop) : Within R (stop e : Action σ α) := fun s => refl_of R s

/-- So does one that fails at once. -/
theorem fail (e : Error) : Within R (fail e : Action σ α) := fun s => refl_of R s

/-- So does one that only looks at the state. -/
theorem read (f : σ → α) : Within R (read f) := fun s => refl_of R s

/-- So does one that only looks at an answer. -/
theorem ofExcept (r : Except Error α) : Within R (ofExcept r : Action σ α) := fun s => refl_of R s

omit [IsPreorder σ R] in
/-- A change of the state has to be in the relation itself. -/
theorem update {f : σ → σ} (h : ∀ s, R s (f s)) : Within R (update f) := h

omit [IsPreorder σ R] in
/-- Only the second action may count on the result of the first one. -/
theorem seq_at {Q : σ → σ → Prop} {x : Action σ α} {f : α → Action σ β} {s : σ}
    (hRQ : ∀ s₁ s', R s s₁ → Q s₁ s' → R s s') (hx : R s (x s).2)
    (hf : ∀ {a s₁}, x.Yields s a s₁ → Q s₁ (f a s₁).2) : R s ((x >>= f) s).2 := by
  show R s ((x >>= f).run s).2
  rw [run_bind]
  change R s (x.run s).2 at hx
  -- Without a result nothing runs behind the first action.
  cases hrun : x.run s with
  | mk result s₁ =>
    rw [hrun] at hx
    cases result with
    | error e => exact hx
    | ok a => exact hRQ _ _ hx (hf hrun)

omit [IsPreorder σ R] in
/-- Two actions one after the other, where the second one keeps something else than the first. -/
theorem seq {Q : σ → σ → Prop} {x : Action σ α} {f : α → Action σ β}
    (hRQ : ∀ s s₁ s', R s s₁ → Q s₁ s' → R s s') (hx : Within R x)
    (hf : ∀ {s a s₁}, x.Yields s a s₁ → Q s₁ (f a s₁).2) : Within R (x >>= f) :=
  fun s => seq_at (hRQ s) (hx s) hf

/-- Two actions one after the other, from one state: the second one runs only on a result of the first. -/
theorem bind_at {x : Action σ α} {f : α → Action σ β} {s : σ} (hx : R s (x s).2)
    (hf : ∀ {a s₁}, x.Yields s a s₁ → R s₁ (f a s₁).2) : R s ((x >>= f) s).2 := by
  have htrans : ∀ s₁ s', R s s₁ → R s₁ s' → R s s' := fun _ _ => trans_of R
  exact seq_at htrans hx hf

/-- Two actions that keep a relation keep it together. -/
theorem bind {x : Action σ α} {f : α → Action σ β} (hx : Within R x) (hf : ∀ a, Within R (f a)) :
    Within R (x >>= f) := fun s => bind_at (hx s) fun _ => hf _ _

/-- A loop keeps what every turn of it keeps, by induction over the turns. -/
theorem forEach {f : α → Action σ Unit} (h : ∀ a, Within R (f a)) (as : List α) :
    Within R (forEach f as) := by
  induction as with
  | nil => exact .pure ()
  | cons a as ih => exact (h a).bind fun _ => ih

omit [IsPreorder σ R] in
/-- A failure that is swallowed leaves the state where it failed. -/
theorem attempt {x : Action σ α} (h : Within R x) : Within R (attempt x) := by
  intro s
  have hx := h s
  unfold Action.attempt
  generalize x s = result at hx ⊢
  -- Of a failure only the result changes, and the state stays where it is.
  obtain ⟨(e | e) | a, s₁⟩ := result
  all_goals exact hx

end Within

end Action

open ObjectWire.Action

namespace Tape

/-- One tape after the other: the cursor is not moved back, the storage is no smaller and no larger than
    it may grow, a cursor inside it is still inside, and the bytes before the cursor and before a place
    are the same. -/
structure Onward (place : Nat) (t t' : Tape) : Prop where
  cursor : t.cursor ≤ t'.cursor
  growth : t'.growth = t.growth
  capacity : t.capacity ≤ t'.capacity
  bounded : t'.capacity ≤ max t.capacity t.growth.largest
  room : t.cursor ≤ t.capacity → t'.cursor ≤ t'.capacity
  below : ∀ i < place, i < t.cursor → t'.byteAt i = t.byteAt i

namespace Onward

variable {place : Nat} {t t₁ t' : Tape}

/-- A tape comes after itself. -/
theorem refl (place : Nat) (t : Tape) : t.Onward place t :=
  ⟨Nat.le_refl _, rfl, Nat.le_refl _, Nat.le_max_left .., id, fun _ _ _ => rfl⟩

/-- The bytes before a place stay over two steps, since the cursor is not moved back in between. -/
theorem trans (h : t.Onward place t₁) (h' : t₁.Onward place t') : t.Onward place t' where
  cursor := Nat.le_trans h.cursor h'.cursor
  growth := h'.growth.trans h.growth
  capacity := Nat.le_trans h.capacity h'.capacity
  bounded := by
    have hfirst := h.bounded
    have hsecond := h'.bounded
    rw [h.growth] at hsecond
    omega
  room := fun hroom => h'.room (h.room hroom)
  below i hi hc := (h'.below i hi (Nat.lt_of_lt_of_le hc h.cursor)).trans (h.below i hi hc)

/-- Up to the cursor is as far as it can be. -/
theorem of_cursor (h : t.Onward t.cursor t') : t.Onward place t' :=
  { h with below := fun i _ hc => h.below i hc hc }

/-- What is known of the bytes may be left out. -/
theorem bare (h : t.Onward place t') : t.Onward 0 t' :=
  { h with below := fun i hi => absurd hi (Nat.not_lt_zero i) }

/-- Room made does not show. -/
theorem of_grown (h : t.Grown t') : t.Onward place t' where
  cursor := Nat.le_of_eq h.cursor.symm
  growth := h.growth
  capacity := h.capacity
  bounded := h.bounded
  room hroom := by
    rw [h.cursor]
    exact Nat.le_trans hroom h.capacity
  below i _ _ := congrFun h.view i

/-- A step over room that was made. -/
theorem of_skip {n : Nat} (h : t.Grown t₁) (hroom : t.cursor + n ≤ t₁.capacity) :
    t.Onward place { t₁ with cursor := t.cursor + n } where
  cursor := Nat.le_add_right ..
  growth := h.growth
  capacity := h.capacity
  bounded := h.bounded
  room _ := hroom
  below i _ _ := congrFun h.view i

end Onward

instance {place : Nat} : IsPreorder Tape (Onward place) where
  refl := .refl place
  trans _ _ _ := .trans

variable {place : Nat}

/-- Making room keeps the tape, whether there is room or not. -/
theorem onward_reserve (n : Nat) : Within (Onward place) (reserve n) := by
  intro t
  cases h : reserve n t with
  | mk result t' =>
    cases result with
    | error e =>
      -- A tape that cannot make room is left as it was.
      rw [(reserve_error h).1]
      exact .refl place t
    | ok u => exact .of_grown (reserve_grown h).1

/-- Bytes put at the cursor go behind all that is before it. -/
theorem onward_put (bs : Bytes) : Within (Onward place) (put bs) := by
  intro t
  unfold put
  simp only
  split
  · next hle =>
    have hsize : (overwrite t.storage t.cursor bs).size = t.storage.size := size_overwrite _ _ _
    have hview := byteAt_overwrite t ⟨overwrite t.storage t.cursor bs, t.cursor + bs.length, t.growth⟩
      t.cursor bs hle rfl
    refine ⟨Nat.le_add_right .., rfl, Nat.le_of_eq hsize.symm, ?_, fun _ => ?_, fun i _ hi => ?_⟩
    · exact Nat.le_trans (Nat.le_of_eq hsize) (Nat.le_max_left ..)
    · exact Nat.le_trans hle (Nat.le_of_eq hsize.symm)
    · -- The bytes go behind all those before the cursor.
      rw [hview, overlay_outside (.inl hi)]
  · exact .refl place t

/-- Bytes replaced at a place or behind it leave those before it alone. -/
theorem onward_patch {offset : Nat} (h : place ≤ offset) (bs : Bytes) :
    Within (Onward place) (patch offset bs) := by
  intro t
  unfold patch
  split
  · next hle =>
    have hsize : (overwrite t.storage offset bs).size = t.storage.size := size_overwrite _ _ _
    have hview := byteAt_overwrite t ⟨overwrite t.storage offset bs, t.cursor, t.growth⟩
      offset bs hle rfl
    refine ⟨Nat.le_refl _, rfl, Nat.le_of_eq hsize.symm, ?_, fun hroom => ?_, fun i hi _ => ?_⟩
    · exact Nat.le_trans (Nat.le_of_eq hsize) (Nat.le_max_left ..)
    · exact Nat.le_trans hroom (Nat.le_of_eq hsize.symm)
    · -- All bytes before the place are before those replaced.
      rw [hview, overlay_outside (.inl (Nat.lt_of_lt_of_le hi h))]
  · exact .refl place t

/-- A checked write keeps what making room and putting bytes keep. -/
theorem onward_write (bs : Bytes) : Within (Onward place) (write bs) :=
  (onward_reserve _).bind fun _ => onward_put _

/-- So does a checked write of many words, also where they are too many to count. -/
theorem onward_writeWords {α : Type} [Word α] (xs : List α) :
    Within (Onward place) (writeWords xs) := by
  unfold writeWords
  simp only
  split
  · exact (Within.fail _).bind fun _ => (onward_reserve _).bind fun _ => onward_put _
  · exact (onward_reserve _).bind fun _ => onward_put _

end Tape

namespace Encode

open Tape

variable {place : Nat}

/-- A tag and its payload are written where the cursor is. -/
theorem onward_tagged {tag : Tag} {payload : Bytes} : Within (Onward place) (tagged tag payload) :=
  (onward_reserve _).bind fun _ => onward_put _

/-- So is the head of a proxy, even where it stops between its tag and the number of its interfaces. -/
theorem onward_proxyHead (interfaces : Nat) : Within (Onward place) (proxyHead interfaces) := by
  apply (onward_reserve _).bind
  intro _
  apply (onward_put _).bind
  intro _
  exact (Within.ofExcept _).bind fun _ => onward_put _

/-- A null in the place of a value is a tag without payload. -/
theorem onward_orNull {α : Type} {write : α → Action Tape Unit}
    (h : ∀ a, Within (Onward place) (write a)) (v : Option α) : Within (Onward place) (orNull write v) := by
  cases v with
  | none => exact onward_tagged
  | some v => exact h v

/-- A text is measured and then written. -/
theorem onward_string (encoding : StringEncoding) (v : String) :
    Within (Onward place) (string encoding v) :=
  (Within.ofExcept _).bind fun _ => onward_tagged

/-- So is a text in units. -/
theorem onward_utf16 (encoding : StringEncoding) (v : List UInt16) :
    Within (Onward place) (utf16 encoding v) := (Within.ofExcept _).bind fun _ => onward_tagged

/-- So is a decimal, by the length of its magnitude. -/
theorem onward_decimal (v : Decimal) : Within (Onward place) (decimal v) :=
  (Within.ofExcept _).bind fun _ => onward_tagged

/-- So is an object encoded before, by its length and by where it starts. -/
theorem onward_encoded (v : EncodedObject) : Within (Onward place) (encoded v) :=
  (Within.ofExcept _).bind fun _ => (Within.ofExcept _).bind fun _ => onward_tagged

/-- The head of an array is a tag and a count. -/
theorem onward_arrayHeader {tag : UInt8} {n : Nat} : Within (Onward place) (arrayHeader tag n) :=
  (Within.ofExcept _).bind fun _ => (onward_reserve _).bind fun _ => onward_put _

/-- An array of words is its head and the words all at once. -/
theorem onward_words {α : Type} [Word α] {tag : Tag} {xs : List α} :
    Within (Onward place) (words tag xs) :=
  onward_arrayHeader.bind fun _ => onward_writeWords xs

/-- An array of other elements is its head and one write for each of them. -/
theorem onward_elements {α : Type} {tag : Tag} {write : α → Action Tape Unit}
    (h : ∀ a, Within (Onward place) (write a)) (xs : List (Option α)) :
    Within (Onward place) (elements tag write xs) :=
  onward_arrayHeader.bind fun _ => .forEach (onward_orNull h) xs

/-- A plain value is written behind the cursor, whether all of it can be written or not. -/
theorem onward_plain (encoding : StringEncoding) (v : Plain) :
    Within (Onward place) (plain encoding v) := by
  cases v with
  | string v => exact onward_string encoding v
  | utf16 v => exact onward_utf16 encoding v
  | decimal v => exact onward_decimal v
  | encoded v => exact onward_encoded v
  | bytes v => exact onward_words
  | shorts v => exact onward_words
  | ints v => exact onward_words
  | longs v => exact onward_words
  | floats v => exact onward_words
  | doubles v => exact onward_words
  | chars v => exact onward_words
  | bools v => exact onward_words
  | strings v => exact onward_elements (onward_string encoding) v
  | uuids v => exact onward_elements (fun _ => onward_tagged) v
  | dates v => exact onward_elements (fun _ => onward_tagged) v
  | timestamps v => exact onward_elements (fun _ => onward_tagged) v
  | times v => exact onward_elements (fun _ => onward_tagged) v
  | decimals v => exact onward_elements onward_decimal v
  -- What is left has a fixed width or none.
  | _ => exact onward_tagged

end Encode

end ObjectWire
