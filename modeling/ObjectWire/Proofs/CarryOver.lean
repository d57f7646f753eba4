import ObjectWire.Proofs.NodeParts
import ObjectWire.Proofs.Strip

/-!
# What was written once can be written elsewhere

A write that succeeded on one tape would have succeeded on another one, begun at another place: nothing
that is written depends on the place, and what is refused is refused for its length, for what is known of
types, or for want of room.  `Carries R Q x y` says this of two actions.  From states in the relation `R`,
where the first one comes to a result, so does the second one, and `Q` holds of the two results; or the
second one goes out of range, which other proofs rule out for whole writes.

`Tape.Ahead` relates the tapes: the first one is some places ahead, it cannot reach farther than a limit,
and the second one has or can make room up to there.  Nothing is said of the bytes.
-/

namespace ObjectWire

/-- The reason is not an error that a caller is told. -/
def Stop.IsFault : Stop → Prop
  | .error _ => False
  | .outOfRange | .tooDeep => True

namespace Action

variable {σ τ α β γ δ : Type}

/-- A run came to a result that goes with another one, or stopped for no error. -/
def Carried (R : σ → τ → Prop) (Q : α → β → Prop) (a : α) (s : σ) (run : Except Stop β × τ) : Prop :=
  (∃ b t, run = (.ok b, t) ∧ Q a b ∧ R s t) ∨ ∃ e t, run = (.error e, t) ∧ e.IsFault

/-- What the first action does can be done by the second one. -/
def Carries (R : σ → τ → Prop) (Q : α → β → Prop) (x : Action σ α) (y : Action τ β) : Prop :=
  ∀ ⦃s a s'⦄, x.Yields s a s' → ∀ ⦃t⦄, R s t → Carried R Q a s' (y t)

variable {R : σ → τ → Prop} {Q : α → β → Prop}

namespace Carries

/-- Results at once go together. -/
theorem pure {a : α} {b : β} (h : Q a b) : Carries R Q (Pure.pure a) (Pure.pure b) := by
  intro s a s' hx t ht
  obtain ⟨rfl, rfl⟩ := (yields_pure ..).mp hx
  exact .inl ⟨b, t, rfl, h, ht⟩

/-- An action that never comes to a result asks for nothing. -/
theorem never {x : Action σ α} {y : Action τ β} (h : ∀ s a s', ¬ x.Yields s a s') :
    Carries R Q x y := fun s a s' hx => (h s a s' hx).elim

/-- An action that stops asks for nothing. -/
theorem stop {e : Stop} {y : Action τ β} : Carries R Q (Action.stop e) y :=
  .never fun _ _ _ => yields_stop _ _ _ _

/-- A second action that stops for no error is not held against it. -/
theorem fault {x : Action σ α} {e : Stop} (he : e.IsFault) : Carries R Q x (Action.stop e) :=
  fun _ _ _ _ t _ => .inr ⟨e, t, rfl, he⟩

/-- The same answer is given in both states. -/
theorem ofExcept (r : Except Error α) : Carries R Eq (ofExcept r) (ofExcept r) := by
  intro s a s' hx t ht
  obtain ⟨rfl, rfl⟩ := (yields_ofExcept ..).mp hx
  exact .inl ⟨a, t, rfl, rfl, ht⟩

/-- What is looked at may differ, if the results go together. -/
theorem read {f : σ → α} {g : τ → β} (h : ∀ ⦃s t⦄, R s t → Q (f s) (g t)) :
    Carries R Q (read f) (read g) := by
  intro s a s' hx t ht
  obtain ⟨rfl, rfl⟩ := (yields_read ..).mp hx
  exact .inl ⟨g t, t, rfl, h ht, ht⟩

/-- Changes that keep the relation can be made on both sides. -/
theorem update {f : σ → σ} {g : τ → τ} (h : ∀ ⦃s t⦄, R s t → R (f s) (g t)) :
    Carries R Eq (update f) (update g) := by
  intro s a s' hx t ht
  obtain rfl := (yields_update ..).mp hx
  exact .inl ⟨a, g t, rfl, rfl, h ht⟩

/-- Two actions one after the other can be done where each of them can, on results that go together. -/
theorem bind {Q' : γ → δ → Prop} {x : Action σ α} {y : Action τ β} {f : α → Action σ γ}
    {g : β → Action τ δ} (hxy : Carries R Q x y) (hfg : ∀ ⦃a b⦄, Q a b → Carries R Q' (f a) (g b)) :
    Carries R Q' (x >>= f) (y >>= g) := by
  intro s c s' h t ht
  obtain ⟨a, s₁, hx, hf⟩ := (yields_bind ..).mp h
  show Carried R Q' c s' ((y >>= g).run t)
  rw [run_bind]
  have hfirst : Carried R Q a s₁ (y.run t) := hxy hx ht
  obtain ⟨b, t₁, hrun, hb, h₁⟩ | ⟨e, t₁, hrun, he⟩ := hfirst
  · rw [hrun]
    exact hfg hb hf h₁
  · rw [hrun]
    exact .inr ⟨e, t₁, rfl, he⟩

/-- Two actions with the same result, when the second parts differ only in what they are given. -/
theorem bindEq {Q' : γ → δ → Prop} {x : Action σ α} {y : Action τ α} {f : α → Action σ γ}
    {g : α → Action τ δ} (hxy : Carries R Eq x y) (hfg : ∀ a, Carries R Q' (f a) (g a)) :
    Carries R Q' (x >>= f) (y >>= g) := hxy.bind fun a _ hab => hab ▸ hfg a

/-- So can a loop, turn by turn. -/
theorem forEach {f : α → Action σ Unit} {g : α → Action τ Unit} {as : List α}
    (h : ∀ a ∈ as, Carries R Eq (f a) (g a)) : Carries R Eq (forEach f as) (forEach g as) := by
  induction as with
  | nil => exact .pure rfl
  | cons a as ih =>
    obtain ⟨ha, has⟩ := List.forall_mem_cons.mp h
    exact ha.bindEq fun _ => ih has

/-- Actions behind others that may be left out, each for itself. -/
theorem optional {c c' : Prop} [Decidable c] [Decidable c'] {x : Action σ Unit} {k : Action σ α}
    {y : Action τ Unit} {l : Action τ β} (hx : ∀ ⦃s s'⦄, x.Yields s () s' → ∀ ⦃t⦄, R s t → R s' t)
    (hy : ∀ ⦃s t⦄, R s t → Carried R Eq () s (y t)) (hkl : Carries R Q k l) :
    Carries R Q (if c then x >>= fun _ => k else k) (if c' then y >>= fun _ => l else l) := by
  -- What the second action does of its own is not seen by the relation.
  have hsecond : Carries R Q k (if c' then y >>= fun _ => l else l) := by
    split
    · intro s a s' hk t ht
      show Carried R Q a s' ((y >>= fun _ => l).run t)
      rw [run_bind]
      have hstep : Carried R Eq () s (y.run t) := hy ht
      obtain ⟨_, t₁, hrun, -, h₁⟩ | ⟨e, t₁, hrun, he⟩ := hstep
      · rw [hrun]
        exact hkl hk h₁
      · rw [hrun]
        exact .inr ⟨e, t₁, rfl, he⟩
    · exact hkl
  split
  · intro s a s' h t ht
    obtain ⟨_, s₁, hfirst, hk⟩ := (yields_bind ..).mp h
    exact hsecond hk (hx hfirst ht)
  · exact hsecond

/-- The second action may stop for an error only if the first one does. -/
theorem whenBind {c : Prop} [Decidable c] {x : Action σ Unit} {y : Action τ Unit} {k : Action σ α}
    {l : Action τ β} (hxy : Carries R Eq x y) (hkl : Carries R Q k l) :
    Carries R Q (if c then x >>= fun _ => k else k) (if c then y >>= fun _ => l else l) := by
  split
  · exact hxy.bindEq fun _ => hkl
  · exact hkl

/-- A guard that lets the first action pass stops the second one at most for a fault. -/
theorem guard {c : Prop} [Decidable c] {e e' : Error} {k : Action σ α} {l : Action τ β}
    (hkl : Carries R Q k l) :
    Carries R Q (if c then (fail e : Action σ Unit) >>= fun _ => k else k)
      (if c then (fail e' : Action τ Unit) >>= fun _ => l else l) :=
  .whenBind .stop hkl

end Carries

end Action

open ObjectWire.Action

namespace Tape

/-- The first tape is `base` places ahead of the second one.  It does not reach beyond the limit, and the
    second one reaches at least as far. -/
structure Ahead (base limit : Nat) (t u : Tape) : Prop where
  cursor : t.cursor = base + u.cursor
  growth : u.growth = .heap
  reach : max t.capacity t.growth.largest ≤ limit
  room : limit ≤ base + max u.capacity Growth.maxCapacity

variable {base limit : Nat} {t t' u : Tape} {n : Nat}

/-- Room that was made on one tape can be made on the other. -/
theorem Ahead.reserve (h : t.Ahead base limit u) (hx : (reserve n).Yields t () t') :
    t'.Ahead base limit u ∧ ∃ u', (Tape.reserve n) u = (.ok (), u') ∧ u.cursor + n ≤ u'.capacity ∧
      t'.Ahead base limit u' ∧ u'.cursor = u.cursor := by
  obtain ⟨hgrown, hroom⟩ := reserve_grown hx
  have hcursor := h.cursor
  have hreach := h.reach
  have hbound := h.room
  have hbounded := hgrown.bounded
  have hcount : ¬ maxPosition < u.cursor + n := by
    intro hlt
    have hbig : maxPosition < t.cursor + n := by omega
    have hrun : Tape.reserve n t = _ := if_pos hbig
    rw [Yields, hrun] at hx
    cases hx
  have hahead : t'.Ahead base limit u := by
    constructor
    case cursor => rw [hgrown.cursor, hcursor]
    case growth => exact h.growth
    case reach =>
      rw [hgrown.growth]
      omega
    case room => exact hbound
  refine ⟨hahead, ?_⟩
  by_cases hcap : u.capacity < u.cursor + n
  · -- The tape has to grow, and can, for the other one has room as far ahead.
    have hfits : u.cursor + n ≤ Growth.maxCapacity := by omega
    have hdoubles : u.growth.Doubles := by
      rw [h.growth]
      trivial
    have hnext : ∃ capacity, u.growth.next u.capacity (u.cursor + n) = .ok capacity := by
      obtain ⟨capacity, -, hok⟩ := hdoubles.next_ok u.capacity hfits
      exact ⟨capacity, hok⟩
    obtain ⟨capacity, hnext⟩ := hnext
    have hrun : Tape.reserve n u = (.ok (), { u with storage := resize u.storage capacity }) := by
      simp only [Tape.reserve, if_neg hcount, if_pos hcap, grow, hnext]
    obtain ⟨hgrown', hroom'⟩ := reserve_grown hrun
    have hcapacity := hgrown'.capacity
    refine ⟨_, hrun, hroom', ?_, hgrown'.cursor⟩
    exact { hahead with
      cursor := hahead.cursor
      room := by omega }
  · refine ⟨u, ?_, Nat.le_of_not_lt hcap, hahead, rfl⟩
    simp only [Tape.reserve, if_neg hcount, if_neg hcap]

/-- So can a write of as many bytes. -/
theorem carries_put {bs bs' : Bytes} (hlen : bs'.length = bs.length) (hn : bs.length = n) :
    Carries (Ahead base limit) Eq (reserve n >>= fun _ => put bs) (Tape.reserve n >>= fun _ => put bs') := by
  intro t a t' hx u h
  obtain ⟨_, t₁, hreserve, hput⟩ := (yields_bind ..).mp hx
  obtain ⟨-, u₁, hrun, hroom, h₁, hcursor⟩ := h.reserve hreserve
  have happended := put_appended hput
  have hkeeps : Onward 0 t₁ t' := (onward_put bs).of_yields hput
  have hbounded := hkeeps.bounded
  have hreach := h₁.reach
  -- The first tape has come so far, and the second one may grow as far at least.
  have hput' : put bs' u₁ = (.ok (), { u₁ with
      storage := overwrite u₁.storage u₁.cursor bs', cursor := u₁.cursor + bs'.length }) :=
    if_pos (by omega)
  have hwrite : (Tape.reserve n >>= fun _ => put bs').run u = put bs' u₁ := by
    rw [run_bind]
    simp only [run, hrun]
  have hsize : (overwrite u₁.storage u₁.cursor bs').size = u₁.capacity := size_overwrite _ _ _
  refine .inl ⟨(), _, hwrite.trans hput', rfl, ?_⟩
  constructor
  case cursor =>
    show t'.cursor = base + (u₁.cursor + bs'.length)
    rw [happended.cursor, h₁.cursor]
    omega
  case growth => exact h₁.growth
  case reach =>
    rw [happended.growth]
    omega
  case room =>
    show limit ≤ base + max (overwrite u₁.storage u₁.cursor bs').size Growth.maxCapacity
    rw [hsize]
    exact h₁.room

/-- A checked write can be done wherever there is room ahead. -/
theorem carries_write (bs : Bytes) : Carries (Ahead base limit) Eq (write bs) (write bs) :=
  carries_put rfl rfl

/-- So can a write of many words, which is one of their bytes. -/
theorem carries_writeWords {α : Type} [Word α] (xs : List α) :
    Carries (Ahead base limit) Eq (writeWords xs) (writeWords xs) := by
  rw [writeWords_eq_write]
  exact carries_write _

/-- Bytes replaced move no cursor. -/
theorem Ahead.patch {offset : Nat} {bs : Bytes} (h : t.Ahead base limit u)
    (hx : (patch offset bs).Yields t () t') : t'.Ahead base limit u := by
  simp only [Yields, Tape.patch] at hx
  -- A patch changes bytes that were written, neither the cursor nor the size.
  split at hx
  · obtain ⟨-, rfl⟩ := Prod.mk.inj hx
    have hsize : (overwrite t.storage offset bs).size = t.capacity := size_overwrite _ _ _
    constructor
    case cursor => exact h.cursor
    case growth => exact h.growth
    case reach =>
      show max (overwrite t.storage offset bs).size t.growth.largest ≤ limit
      rw [hsize]
      exact h.reach
    case room => exact h.room
  · simp at hx

/-- Bytes are replaced where there are any. -/
theorem carried_patch {offset : Nat} {bs : Bytes} (h : t.Ahead base limit u) :
    Carried (Ahead base limit) Eq () t (Tape.patch offset bs u) := by
  unfold Tape.patch
  split
  · have hsize : (overwrite u.storage offset bs).size = u.capacity := size_overwrite _ _ _
    refine .inl ⟨(), _, rfl, rfl, ?_⟩
    constructor
    case cursor => exact h.cursor
    case growth => exact h.growth
    case reach => exact h.reach
    case room =>
      show limit ≤ base + max (overwrite u.storage offset bs).size Growth.maxCapacity
      rw [hsize]
      exact h.room
  · exact .inr ⟨_, _, rfl, trivial⟩

/-- Bytes are replaced on the second tape where it has any. -/
theorem carries_patch {offset offset' : Nat} {bs bs' : Bytes} :
    Carries (Ahead base limit) Eq (Tape.patch offset bs) (Tape.patch offset' bs') :=
  fun _ _ _ hx _ h => carried_patch (h.patch hx)

end Tape

namespace Encode

open Tape

variable {base limit : Nat}

/-- A tag and its payload need as much room on both tapes. -/
theorem carries_tagged (tag : Tag) (payload : Bytes) :
    Carries (Ahead base limit) Eq (tagged tag payload) (tagged tag payload) := carries_put rfl rfl

/-- The head of a proxy is carried over whole; one with too many interfaces comes to no result. -/
theorem carries_proxyHead (interfaces : Nat) :
    Carries (Ahead base limit) Eq (proxyHead interfaces) (proxyHead interfaces) := by
  intro t u t' hx v h
  obtain ⟨hle, hx⟩ := proxyHead_yields hx
  rw [proxyHead_eq, if_pos hle]
  exact carries_tagged _ _ hx h

/-- A null in the place of a value can be written anywhere. -/
theorem carries_orNull {α : Type} {write : α → Action Tape Unit}
    (h : ∀ a, Carries (Ahead base limit) Eq (write a) (write a)) (v : Option α) :
    Carries (Ahead base limit) Eq (orNull write v) (orNull write v) := by
  cases v with
  | none => exact carries_tagged _ _
  | some v => exact h v

/-- A text is measured alike on both tapes. -/
theorem carries_textBytes (bs : Bytes) :
    Carries (Ahead base limit) Eq (textBytes bs) (textBytes bs) :=
  (Carries.ofExcept _).bindEq fun _ => carries_tagged _ _

/-- So is a decimal. -/
theorem carries_decimal (v : Decimal) : Carries (Ahead base limit) Eq (decimal v) (decimal v) :=
  (Carries.ofExcept _).bindEq fun _ => carries_tagged _ _

/-- So is an object encoded before. -/
theorem carries_encoded (v : EncodedObject) :
    Carries (Ahead base limit) Eq (encoded v) (encoded v) :=
  (Carries.ofExcept _).bindEq fun _ => (Carries.ofExcept _).bindEq fun _ => carries_tagged _ _

/-- The head of an array takes five bytes on both tapes. -/
theorem carries_arrayHeader (tag : UInt8) (n : Nat) :
    Carries (Ahead base limit) Eq (arrayHeader tag n) (arrayHeader tag n) := by
  refine (Carries.ofExcept _).bindEq fun length => carries_put rfl ?_
  rw [List.length_cons, Word.length_bytes]
  rfl

/-- An array of words is its head and its words. -/
theorem carries_words {α : Type} [Word α] (tag : Tag) (xs : List α) :
    Carries (Ahead base limit) Eq (words tag xs) (words tag xs) :=
  (carries_arrayHeader _ _).bindEq fun _ => carries_writeWords xs

/-- An array of other elements is its head and its elements. -/
theorem carries_elements {α : Type} {write : α → Action Tape Unit} (tag : Tag)
    (h : ∀ a, Carries (Ahead base limit) Eq (write a) (write a)) (xs : List (Option α)) :
    Carries (Ahead base limit) Eq (elements tag write xs) (elements tag write xs) :=
  (carries_arrayHeader _ _).bindEq fun _ => .forEach fun x _ => carries_orNull h x

/-- A plain value can be written anywhere if it can be written at all. -/
theorem carries_plain (encoding : StringEncoding) (v : Plain) :
    Carries (Ahead base limit) Eq (plain encoding v) (plain encoding v) := by
  cases v with
  | string v => exact carries_textBytes _
  | utf16 v => exact carries_textBytes _
  | decimal v => exact carries_decimal v
  | encoded v => exact carries_encoded v
  | bytes v => exact carries_words _ v
  | shorts v => exact carries_words _ v
  | ints v => exact carries_words _ v
  | longs v => exact carries_words _ v
  | floats v => exact carries_words _ v
  | doubles v => exact carries_words _ v
  | chars v => exact carries_words _ v
  | bools v => exact carries_words _ v
  | strings v => exact carries_elements _ (fun _ => carries_textBytes _) v
  | uuids v => exact carries_elements _ (fun _ => carries_tagged _ _) v
  | dates v => exact carries_elements _ (fun _ => carries_tagged _ _) v
  | timestamps v => exact carries_elements _ (fun _ => carries_tagged _ _) v
  | times v => exact carries_elements _ (fun _ => carries_tagged _ _) v
  | decimals v => exact carries_elements _ carries_decimal v
  -- What is left has a fixed width or none.
  | _ => exact carries_tagged _ _

end Encode

end ObjectWire
