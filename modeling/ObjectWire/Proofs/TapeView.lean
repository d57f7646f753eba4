import Mathlib.Data.List.GetD
import ObjectWire.Encode.Plain
import ObjectWire.Proofs.Action

/-!
# What lies on a tape

A tape's storage grows by zeros, so the tape can be looked at as an endless row of bytes that is zero
from some place on: `byteAt`.  Growth does not change this row, and a write lays bytes over it
(`overlay`).  `Appended t t' bs` says that `t'` came from `t` by writing `bs` at the cursor, nothing
before the cursor and nothing behind the new one being touched; writes one after the other append one
after the other (`Appended.trans`), and bytes appended before can be replaced later by as many others
(`Appended.patched`).  This is all that the writers' proofs know about tapes.
-/

namespace ObjectWire

open ObjectWire.Action

/-- Words of one type take the same room each. -/
theorem Word.length_flatMap_bytes {α : Type} [Word α] (xs : List α) :
    (xs.flatMap bytes).length = xs.length * width α := by
  induction xs with
  | nil => simp
  | cons x xs ih => simp [ih, Nat.add_one_mul, Nat.add_comm]

namespace Tape

/-- The byte at a place, zero where the storage does not reach yet. -/
def byteAt (t : Tape) (i : Nat) : UInt8 := t.bytes.getD i 0

/-- A row of bytes with others laid over it from an offset on. -/
def overlay (f : Nat → UInt8) (offset : Nat) (bs : Bytes) : Nat → UInt8 := fun i =>
  if offset ≤ i ∧ i < offset + bs.length then bs.getD (i - offset) 0 else f i

/-- Bytes before and behind the ones laid over stay. -/
theorem overlay_outside {f : Nat → UInt8} {offset : Nat} {bs : Bytes} {i : Nat}
    (h : i < offset ∨ offset + bs.length ≤ i) : overlay f offset bs i = f i :=
  if_neg (by omega)

/-- To lay nothing over the bytes changes none. -/
@[simp] theorem overlay_nil (f : Nat → UInt8) (offset : Nat) : overlay f offset [] = f := by
  funext i
  apply overlay_outside
  show i < offset ∨ offset + 0 ≤ i
  omega

/-- Where bytes are laid over others, they are what is seen. -/
theorem overlay_inside {f : Nat → UInt8} {offset : Nat} {bs : Bytes} {i : Nat} (h : i < bs.length) :
    overlay f offset bs (offset + i) = bs[i] := by
  rw [overlay, if_pos (by omega), Nat.add_sub_cancel_left, List.getD_eq_getElem _ _ h]

/-- Bytes laid one after the other are laid as one string. -/
theorem overlay_append (f : Nat → UInt8) (offset : Nat) (as bs : Bytes) :
    overlay (overlay f offset as) (offset + as.length) bs = overlay f offset (as ++ bs) := by
  funext i
  by_cases hb : offset + as.length ≤ i ∧ i < offset + as.length + bs.length
  · -- A byte of the second string.
    have ha : as.length ≤ i - offset := by omega
    rw [overlay, if_pos hb, overlay, if_pos (by simp only [List.length_append]; omega),
      List.getD_append_right _ _ _ _ ha, Nat.sub_sub]
  · rw [overlay, if_neg hb]
    by_cases ha : offset ≤ i ∧ i < offset + as.length
    · -- A byte of the first string, which the second one does not reach.
      rw [overlay, if_pos ha, overlay, if_pos (by simp only [List.length_append]; omega),
        List.getD_append _ _ _ _ (by omega)]
    · rw [overlay, if_neg ha, overlay, if_neg (by simp only [List.length_append]; omega)]

/-- Bytes laid over a part of others replace that part. -/
theorem overlay_patch (f : Nat → UInt8) (offset : Nat) (as old new bs : Bytes)
    (h : new.length = old.length) :
    overlay (overlay f offset (as ++ old ++ bs)) (offset + as.length) new =
      overlay f offset (as ++ new ++ bs) := by
  -- All three strings apart, so that the new one lies on top of the old one and nothing else.
  rw [← overlay_append f, ← overlay_append f offset as, ← overlay_append f offset (as ++ new),
    ← overlay_append f offset as new, List.length_append, List.length_append, h]
  generalize overlay f offset as = g
  funext i
  by_cases hn : offset + as.length ≤ i ∧ i < offset + as.length + old.length
  · simp only [overlay, h, if_pos hn]
    rw [if_neg (by omega)]
  · simp only [overlay, h, if_neg hn]

theorem length_bytes (t : Tape) : t.bytes.length = t.capacity := Array.length_toList

/-- The tape with bytes put over its storage. -/
theorem byteAt_overwrite (t t' : Tape) (offset : Nat) (bs : Bytes)
    (h : offset + bs.length ≤ t.capacity) (ht : t'.storage = overwrite t.storage offset bs) :
    t'.byteAt = overlay t.byteAt offset bs := by
  funext i
  have hlen : t.bytes.length = t.capacity := length_bytes t
  have hbytes : t'.bytes = t.bytes.take offset ++ bs ++ t.bytes.drop (offset + bs.length) := by
    rw [bytes, ht, toList_overwrite _ _ _ h]; rfl
  have htake : (t.bytes.take offset).length = offset := List.length_take_of_le (by omega)
  simp only [byteAt, overlay, hbytes]
  -- The place is before the bytes, among them, or behind them.
  by_cases h1 : i < offset
  · rw [if_neg (by omega), List.append_assoc, List.getD_append _ _ _ _ (by omega)]
    simp [List.getD_eq_getElem?_getD, h1]
  · by_cases h2 : i < offset + bs.length
    · rw [if_pos (by omega), List.append_assoc, List.getD_append_right _ _ _ _ (by omega), htake,
        List.getD_append _ _ _ _ (by omega)]
    · rw [if_neg (by omega), List.getD_append_right _ _ _ _ (by simp [htake]; omega)]
      simp only [List.length_append, htake, List.getD_eq_getElem?_getD, List.getElem?_drop]
      rw [Nat.add_sub_cancel' (by omega)]

/-- Growth shows nothing but zeros that were there already. -/
theorem byteAt_resize (t t' : Tape) (size : Nat) (h : t.capacity ≤ size)
    (ht : t'.storage = resize t.storage size) : t'.byteAt = t.byteAt := by
  funext i
  have hbytes : t'.bytes = t.bytes ++ List.replicate (size - t.capacity) 0 := by
    rw [bytes, ht, toList_resize _ _ h]; rfl
  simp only [byteAt, hbytes, List.getD_eq_getElem?_getD, List.getElem?_append]
  split
  · rfl
  · -- Behind the old storage there is either a new zero or nothing, which counts as zero.
    rw [List.getElem?_replicate, List.getElem?_eq_none (l := t.bytes) (by omega)]
    split <;> rfl

/-- `t'` is `t` with room made: only the capacity has changed, and it is not smaller, nor larger than
    both the old one and what the tape can grow to. -/
structure Grown (t t' : Tape) : Prop where
  cursor : t'.cursor = t.cursor
  growth : t'.growth = t.growth
  capacity : t.capacity ≤ t'.capacity
  bounded : t'.capacity ≤ max t.capacity t.growth.largest
  view : t'.byteAt = t.byteAt

/-- The capacity a tape grows to holds what was asked for, and is not beyond the largest one. -/
theorem le_of_next {g : Growth} {current needed capacity : Nat}
    (h : g.next current needed = .ok capacity) (hc : current < needed) :
    needed ≤ capacity ∧ capacity ≤ max current g.largest := by
  unfold Growth.next at h
  split at h
  · cases h
  · next hle =>
    -- Doubling and limited storage are cut to their largest capacity; a custom rule keeps its own bounds.
    cases g with
    | heap | offHeap =>
      cases h
      simp only [Growth.largest] at *
      omega
    | limited limit =>
      cases h
      simp only [Growth.largest] at *
      omega
    | custom rule => exact ⟨rule.needed_le h, Nat.le_trans (rule.le_maxPosition h) (Nat.le_max_right ..)⟩

/-- After a reservation there is room behind the cursor, and nothing else has changed. -/
theorem reserve_grown {n : Nat} {t t' : Tape} {u : Unit} (h : (reserve n).Yields t u t') :
    t.Grown t' ∧ t.cursor + n ≤ t'.capacity := by
  simp only [Yields, reserve] at h
  split at h
  · simp at h
  · split at h
    · next hcap =>
      simp only [grow] at h
      split at h
      · simp at h
      · next capacity hnext =>
        obtain ⟨-, rfl⟩ := Prod.mk.inj h
        obtain ⟨hle, hbounded⟩ := le_of_next hnext hcap
        have hview : (Tape.byteAt { t with storage := resize t.storage capacity }) = t.byteAt :=
          byteAt_resize t _ capacity (by omega) rfl
        have hsize : (resize t.storage capacity).size = capacity := size_resize _ _
        refine ⟨⟨rfl, rfl, ?_, ?_, hview⟩, ?_⟩ <;> simp only [Tape.capacity] at * <;> omega
    · -- The storage has room already.
      obtain ⟨-, rfl⟩ := Prod.mk.inj h
      exact ⟨⟨rfl, rfl, Nat.le_refl _, Nat.le_max_left .., rfl⟩, by omega⟩

/-- A tape that cannot make room is left as it is. -/
theorem reserve_error {n : Nat} {t t' : Tape} {e : Stop} (h : reserve n t = (.error e, t')) :
    t' = t ∧ ∃ cause, e = .error (.sink cause) := by
  unfold reserve grow at h
  simp only at h
  split at h
  · cases h
    exact ⟨rfl, _, rfl⟩
  · split at h
    · split at h
      · cases h
        exact ⟨rfl, _, rfl⟩
      · cases h
    · cases h

/-- `t'` is `t` after bytes were written at the cursor. -/
structure Appended (t t' : Tape) (bs : Bytes) : Prop where
  cursor : t'.cursor = t.cursor + bs.length
  growth : t'.growth = t.growth
  capacity : t.capacity ≤ t'.capacity
  /-- The storage holds what was written. -/
  room : bs ≠ [] → t'.cursor ≤ t'.capacity
  view : t'.byteAt = overlay t.byteAt t.cursor bs

namespace Appended

theorem refl (t : Tape) : t.Appended t [] := by
  constructor <;> simp

/-- Writes one after the other. -/
theorem trans {t t' t'' : Tape} {as bs : Bytes} (h₁ : t.Appended t' as) (h₂ : t'.Appended t'' bs) :
    t.Appended t'' (as ++ bs) where
  cursor := by rw [h₂.cursor, h₁.cursor, List.length_append, Nat.add_assoc]
  growth := by rw [h₂.growth, h₁.growth]
  capacity := Nat.le_trans h₁.capacity h₂.capacity
  room := by
    intro hne
    by_cases hb : bs = []
    · -- An empty write asks for no room, so there is as much as the first write left.
      subst hb
      have hcur : t''.cursor = t'.cursor := by simpa using h₂.cursor
      have hroom := h₁.room (by simpa using hne)
      have hcap := h₂.capacity
      omega
    · exact h₂.room hb
  view := by rw [h₂.view, h₁.view, h₁.cursor, overlay_append]

/-- Room made before a write does not show. -/
theorem of_grown {t t' t'' : Tape} {bs : Bytes} (h₁ : t.Grown t') (h₂ : t'.Appended t'' bs) :
    t.Appended t'' bs where
  cursor := by rw [h₂.cursor, h₁.cursor]
  growth := by rw [h₂.growth, h₁.growth]
  capacity := Nat.le_trans h₁.capacity h₂.capacity
  room := h₂.room
  view := by rw [h₂.view, h₁.view, h₁.cursor]

/-- The bytes written stand where the cursor was. -/
theorem byteAt_inside {t t' : Tape} {bs : Bytes} (h : t.Appended t' bs) {i : Nat}
    (hi : i < bs.length) : t'.byteAt (t.cursor + i) = bs[i] := by
  rw [h.view, overlay_inside hi]

/-- Bytes before the cursor stay. -/
theorem byteAt_before {t t' : Tape} {bs : Bytes} (h : t.Appended t' bs) {i : Nat}
    (hi : i < t.cursor) : t'.byteAt i = t.byteAt i := by
  rw [h.view, overlay_outside (.inl hi)]

end Appended

/-- A byte inside the storage. -/
theorem byteAt_eq_getElem {t : Tape} {i : Nat} (h : i < t.bytes.length) : t.byteAt i = t.bytes[i] :=
  List.getD_eq_getElem _ _ h

/-- The bytes from a place on. -/
def span (t : Tape) (start n : Nat) : Bytes := (List.range n).map fun i => t.byteAt (start + i)

@[simp] theorem length_span (t : Tape) (start n : Nat) : (t.span start n).length = n := by
  simp [span]

/-- A span shows the bytes from its start on. -/
theorem getElem_span (t : Tape) (start : Nat) {n i : Nat} (h : i < (t.span start n).length) :
    (t.span start n)[i] = t.byteAt (start + i) := by
  simp [span]

/-- A span is cut into two at any place. -/
theorem span_add (t : Tape) (start m n : Nat) :
    t.span start (m + n) = t.span start m ++ t.span (start + m) n := by
  simp [span, List.range_add, Nat.add_assoc]

/-- Tapes that have the same bytes show the same span. -/
theorem span_congr {t t' : Tape} {start n : Nat}
    (h : ∀ i, i < n → t'.byteAt (start + i) = t.byteAt (start + i)) :
    t'.span start n = t.span start n :=
  List.map_congr_left fun i hi => h i (List.mem_range.mp hi)

/-- What lies there already, laid over it, changes nothing. -/
theorem overlay_span (t : Tape) (start n : Nat) : overlay t.byteAt start (t.span start n) = t.byteAt := by
  funext i
  by_cases hi : start ≤ i ∧ i < start + n
  · rw [overlay, if_pos (by simpa using hi), List.getD_eq_getElem _ _ (by simp; omega), getElem_span,
      Nat.add_sub_cancel' hi.1]
  · rw [overlay, if_neg (by simpa using hi)]

/-- A tape that has the same bytes up to a place, in a storage that is no smaller. -/
theorem take_prefix {t t' : Tape} {n : Nat} (hcapacity : t.capacity ≤ t'.capacity)
    (h : ∀ i < n, t'.byteAt i = t.byteAt i) : t.bytes.take n <+: t'.bytes := by
  have hlen := length_bytes t
  have hlen' := length_bytes t'
  rw [List.prefix_iff_getElem]
  refine ⟨by rw [List.length_take]; omega, fun i hi => ?_⟩
  rw [List.length_take] at hi
  have hsame := h i (by omega)
  rw [byteAt_eq_getElem (by omega), byteAt_eq_getElem (by omega)] at hsame
  rw [List.getElem_take]
  exact hsame.symm

/-- A slice within the capacity is there, and holds the bytes from its start to its end. -/
theorem slice?_eq {t : Tape} {start : Nat} {bs : Bytes} (hcap : start + bs.length ≤ t.capacity)
    (h : ∀ i (hi : i < bs.length), t.byteAt (start + i) = bs[i]) :
    t.slice? start (start + bs.length) = some bs := by
  rw [slice?, if_pos ⟨Nat.le_add_right _ _, hcap⟩]
  congr 1
  have hlen : t.bytes.length = t.capacity := length_bytes t
  have hext : (t.storage.extract start (start + bs.length)).data.toList =
      (t.bytes.drop start).take bs.length := by
    simp [bytes, ByteArray.data_extract, Array.toList_extract]
  rw [hext]
  -- Both are as long, and agree byte by byte.
  apply List.ext_getElem
  · simp only [List.length_take, List.length_drop]; omega
  · intro i h₁ h₂
    rw [List.getElem_take, List.getElem_drop, ← byteAt_eq_getElem (by omega), h i h₂]

/-- What was appended can be cut out of the storage again. -/
theorem Appended.slice? {t t' : Tape} {as bs cs : Bytes} (h : t.Appended t' (as ++ bs ++ cs))
    (hroom : t'.cursor ≤ t'.capacity) :
    t'.slice? (t.cursor + as.length) (t.cursor + as.length + bs.length) = some bs := by
  have hcur := h.cursor
  simp only [List.length_append] at hcur
  apply slice?_eq (by omega)
  intro i hi
  rw [Nat.add_assoc, h.byteAt_inside (by simp only [List.length_append]; omega)]
  simp [hi]

/-- What was appended lies between the old cursor and the new one. -/
theorem Appended.slice?_between {t t' : Tape} {bs : Bytes} (h : t.Appended t' bs) (hne : bs ≠ []) :
    t'.slice? t.cursor t'.cursor = some bs := by
  have hall : t.Appended t' ([] ++ bs ++ []) := by rwa [List.nil_append, List.append_nil]
  rw [h.cursor]
  exact hall.slice? (h.room hne)

/-- What was appended last can be read off the tape. -/
theorem Appended.span {t t' : Tape} {as bs : Bytes} (h : t.Appended t' (as ++ bs)) :
    t'.span (t.cursor + as.length) bs.length = bs := by
  apply List.ext_getElem (length_span _ _ _)
  intro i _ hi
  rw [getElem_span, Nat.add_assoc, h.byteAt_inside (by rw [List.length_append]; omega),
    List.getElem_append_right (Nat.le_add_right _ _)]
  simp

/-- A slice within the capacity is a span. -/
theorem slice?_span {t : Tape} {start n : Nat} (h : start + n ≤ t.capacity) :
    t.slice? start (start + n) = some (t.span start n) := by
  have hslice := @slice?_eq t start (t.span start n) (by simpa using h)
    fun i hi => (getElem_span t start hi).symm
  rwa [length_span] at hslice

/-- Bytes put in front of the cursor. -/
theorem put_appended {bs : Bytes} {t t' : Tape} {u : Unit} (h : (put bs).Yields t u t') :
    t.Appended t' bs := by
  simp only [Yields, put] at h
  split at h
  · next hle =>
    obtain ⟨-, rfl⟩ := Prod.mk.inj h
    have hsize : (overwrite t.storage t.cursor bs).size = t.storage.size := size_overwrite _ _ _
    refine ⟨rfl, rfl, ?_, ?_, byteAt_overwrite t _ _ _ hle rfl⟩ <;>
      simp only [Tape.capacity] at * <;> omega
  · simp at h

/-- A step of making room and then writing appends what is written. -/
theorem reserve_put_appended {n : Nat} {bs : Bytes} {t t' : Tape} {u : Unit}
    (h : (reserve n >>= fun _ => put bs).Yields t u t') : t.Appended t' bs := by
  obtain ⟨_, t₁, hr, hp⟩ := (yields_bind ..).mp h
  exact .of_grown (reserve_grown hr).1 (put_appended hp)

/-- To write is to make room and to put, so it appends. -/
theorem write_appended {bs : Bytes} {t t' : Tape} {u : Unit} (h : (write bs).Yields t u t') :
    t.Appended t' bs := reserve_put_appended h

theorem writeWord_appended {α : Type} [Word α] {x : α} {t t' : Tape} {u : Unit}
    (h : (writeWord x).Yields t u t') : t.Appended t' (Word.bytes x) := write_appended h

/-- Words are appended one after the other, with room made for all of them at once. -/
theorem writeWords_appended {α : Type} [Word α] {xs : List α} {t t' : Tape} {u : Unit}
    (h : (writeWords xs).Yields t u t') : t.Appended t' (xs.flatMap Word.bytes) := by
  simp only [writeWords, yields_guard] at h
  exact reserve_put_appended h.2

/-- Room skipped behind the cursor: what lies there counts as written. -/
theorem skip_appended {n : Nat} {t t₁ t' : Tape} {u v : Unit} (hr : (reserve n).Yields t u t₁)
    (hs : (seek (t.cursor + n)).Yields t₁ v t') :
    ∃ bs, bs.length = n ∧ t.Appended t' bs := by
  obtain ⟨hg, hroom⟩ := reserve_grown hr
  simp only [seek, yields_update] at hs
  subst hs
  -- The skipped bytes are whatever the tape has there.
  refine ⟨t.span t.cursor n, length_span _ _ _, ?_⟩
  refine ⟨by simp, hg.growth, hg.capacity, fun _ => hroom, ?_⟩
  rw [overlay_span]
  exact hg.view

/-- All that lies between a place and the cursor counts as written from that place on. -/
theorem appended_span {t : Tape} {start : Nat} (h : start ≤ t.cursor) (hroom : t.cursor ≤ t.capacity) :
    Appended { t with cursor := start } t (t.span start (t.cursor - start)) where
  cursor := by rw [length_span, Nat.add_sub_cancel' h]
  growth := rfl
  capacity := Nat.le_refl _
  room _ := hroom
  view := (overlay_span t start _).symm

/-- The same in three parts, two of them of lengths that are known. -/
theorem appended_parts {t : Tape} {start m n : Nat} (h : start + (m + n) ≤ t.cursor)
    (hroom : t.cursor ≤ t.capacity) :
    Appended { t with cursor := start } t (t.span start m ++
      (t.span (start + m) n ++ t.span (start + (m + n)) (t.cursor - (start + (m + n))))) := by
  have hall := appended_span (show start ≤ t.cursor by omega) hroom
  rwa [show t.cursor - start = m + (n + (t.cursor - (start + (m + n)))) by omega, span_add, span_add,
    Nat.add_assoc] at hall

/-- Bytes written before, replaced by as many others. -/
theorem Appended.patched {t t₁ t' : Tape} {as old new bs : Bytes} {u : Unit}
    (h : t.Appended t₁ (as ++ old ++ bs)) (hlen : new.length = old.length)
    (hp : (patch (t.cursor + as.length) new).Yields t₁ u t') :
    t.Appended t' (as ++ new ++ bs) := by
  have hcur := h.cursor
  have hroom := h.room
  simp only [Yields, patch] at hp
  split at hp
  · next hle =>
    obtain ⟨-, rfl⟩ := Prod.mk.inj hp
    have hsize : (overwrite t₁.storage (t.cursor + as.length) new).size = t₁.storage.size :=
      size_overwrite _ _ _
    have hview := byteAt_overwrite t₁ { t₁ with storage := overwrite t₁.storage _ new } _ _ hle rfl
    have hsame : (as ++ new ++ bs).length = (as ++ old ++ bs).length := by
      simp only [List.length_append, hlen]
    constructor
    · show t₁.cursor = t.cursor + (as ++ new ++ bs).length
      rw [hcur, hsame]
    · exact h.growth
    · have := h.capacity
      simp only [Tape.capacity] at *
      omega
    · intro hne
      -- The string is as long as before, and there was room for it then.
      have hold : as ++ old ++ bs ≠ [] := by
        rw [← List.length_pos_iff, ← hsame]
        exact List.length_pos_iff.mpr hne
      have := hroom hold
      simp only [Tape.capacity] at *
      omega
    · rw [hview, h.view, overlay_patch _ _ _ _ _ _ hlen]
  · simp at hp

end Tape

end ObjectWire
