import ObjectWire.Proofs.CheckedWrites

/-!
# Tapes that double show one strip

A tape that doubles has a capacity of its own choice, and what a cursor meets behind the end of the
written bytes depends on all writes before.  None of it can be seen from outside: whatever the storage
and the capacity the tape began with, it answers as a `Strip` does, an endless row of zeros with a
cursor, as long as the cursor and the patches stay where bytes were written or room was made.

`Shows` is the relation between a tape and the strip; it speaks of the whole storage, since a cursor
moved back and forth again brings old bytes to light.  `Shows.step` keeps it over one operation, with
the answer of the operation, `Shows.after` over any number of them, and `strip_shown` compares two tapes
that began with capacities of their own.
-/

namespace ObjectWire

open ObjectWire.Action

/-- The growth that doubles. -/
def Growth.Doubles : Growth → Prop
  | .heap | .offHeap => True
  | .limited _ | .custom _ => False

/-- A number brought within two bounds.  There is no such number if the bounds are in the wrong
    order. -/
def clamp? (x low high : Nat) : Option Nat :=
  if low ≤ high then some (if x < low then low else if high < x then high else x) else none

/-- If the bounds are in order, to clamp is to take the larger and then the smaller. -/
theorem clamp?_eq {x low high : Nat} (h : low ≤ high) :
    clamp? x low high = some (min (max x low) high) := by
  rw [clamp?, if_pos h]
  congr 1
  split
  · omega
  · split <;> omega

namespace Growth

variable {g : Growth} {current needed : Nat}

/-- Storage that doubles has the same largest capacity, on the heap and off it. -/
theorem Doubles.largest (h : g.Doubles) : g.largest = maxCapacity := by
  cases g <;> first | rfl | exact h.elim

/-- A capacity beyond the largest one is refused. -/
theorem Doubles.next_error (h : g.Doubles) (hn : maxCapacity < needed) :
    g.next current needed = .error (.capacityOverflow needed) := by
  unfold next
  rw [h.largest, if_pos hn]

/-- Any other capacity is had, from twice the current one brought within the capacity needed and the
    largest one; these bounds are in order. -/
theorem Doubles.next_ok (h : g.Doubles) (current : Nat) (hn : needed ≤ maxCapacity) :
    ∃ capacity, clamp? (min (2 * current) Tape.maxPosition) needed maxCapacity = some capacity ∧
      g.next current needed = .ok capacity := by
  have hok : g.next current needed = .ok (min (max (2 * current) needed) maxCapacity) := by
    unfold next
    rw [h.largest, if_neg (by omega)]
    cases g <;> first | rfl | exact h.elim
  refine ⟨_, clamp?_eq hn, ?_⟩
  rw [hok]
  congr 1
  simp only [maxCapacity, Tape.maxPosition] at *
  omega

/-- The capacity had is one that was asked for, no smaller than the current one, and not beyond the
    largest one. -/
theorem Doubles.of_next {capacity : Nat} (h : g.Doubles) (hc : current ≤ maxCapacity)
    (hnext : g.next current needed = .ok capacity) :
    needed ≤ capacity ∧ current ≤ capacity ∧ capacity ≤ maxCapacity := by
  by_cases hn : maxCapacity < needed
  · rw [h.next_error hn] at hnext
    cases hnext
  · obtain ⟨had, hclamp, hok⟩ := h.next_ok current (Nat.le_of_not_lt hn)
    rw [clamp?_eq (Nat.le_of_not_lt hn)] at hclamp
    rw [hnext] at hok
    simp only [Option.some.injEq, Except.ok.injEq] at hclamp hok
    simp only [maxCapacity, Tape.maxPosition] at *
    omega

end Growth

/-- One operation on a tape. -/
inductive TapeOp : Type 1 where
  /-- A checked write of one word. -/
  | word {α : Type} [Word α] (x : α)
  /-- A checked write of many words. -/
  | words {α : Type} [Word α] (xs : List α)
  /-- A checked write of bytes. -/
  | bytes (bs : Bytes)
  /-- A checked write of some of the given bytes. -/
  | range (bs : Bytes) (offset length : Nat)
  /-- Makes room behind the cursor. -/
  | reserve (additional : Nat)
  /-- Makes the storage hold a number of bytes. -/
  | grow (needed : Nat)
  /-- Moves the cursor to the start. -/
  | clear
  /-- Moves the cursor. -/
  | seek (position : Nat)
  /-- Writes a word at a place and leaves the cursor where it is. -/
  | patch (position : Nat) (x : Int32)

namespace TapeOp

/-- What the operation does to a tape. -/
def run : TapeOp → Action Tape Unit
  | @word _ _ x => Tape.writeWord x
  | @words _ _ xs => Tape.writeWords xs
  | .bytes bs => Tape.write bs
  | .range bs offset length => Tape.writeRange bs offset length
  | .reserve additional => Tape.reserve additional
  | .grow needed => Tape.grow needed
  | .clear => Tape.clear
  | .seek position => Tape.seek position
  | .patch position x => Tape.patch position (Word.bytes x)

/-- The bytes written at the cursor. -/
def laid : TapeOp → Bytes
  | @word _ _ x => Word.bytes x
  | @words _ _ xs => xs.flatMap Word.bytes
  | .bytes bs => bs
  | .range bs offset length => (bs.drop offset).take length
  | _ => []

/-- The capacity the operation asks for. -/
def asks (op : TapeOp) (cursor : Nat) : Nat :=
  match op with
  | .reserve additional => cursor + additional
  | .grow needed => needed
  | .clear | .seek _ | .patch .. => 0
  | op => cursor + op.laid.length

/-- The capacity that is named when it is refused.  A sum beyond all positions cannot be named. -/
def named (op : TapeOp) (cursor : Nat) : Nat :=
  match op with
  | .grow needed => needed
  | op => min (op.asks cursor) Tape.maxPosition

/-- Whether the operation only makes room. -/
def MakesRoom : TapeOp → Prop
  | .reserve _ | .grow _ => True
  | _ => False

end TapeOp

/-- An endless row of bytes with a cursor. -/
structure Strip where
  cells : Nat → UInt8
  cursor : Nat
  /-- The end of all that was written and all room that was made. -/
  reach : Nat

namespace Strip

/-- A strip of zeros. -/
def blank : Strip := ⟨fun _ => 0, 0, 0⟩

/-- The first bytes of the strip. -/
def upTo (s : Strip) (n : Nat) : Bytes := (List.range n).map s.cells

/-- The bytes before the cursor. -/
def written (s : Strip) : Bytes := s.upTo s.cursor

/-- Whether the operation stays where bytes were written or room was made. -/
def Allows (s : Strip) : TapeOp → Prop
  | .range bs offset length => offset + length ≤ bs.length
  | .seek position => position ≤ s.reach
  | .patch position _ => position + 4 ≤ s.reach
  | _ => True

/-- What an operation is answered. -/
def answer (s : Strip) (op : TapeOp) : Except Stop Unit :=
  if Growth.maxCapacity < op.asks s.cursor then
    .error (.error (.sink (.capacityOverflow (op.named s.cursor))))
  else .ok ()

/-- What an operation that is not refused does to the cells and the cursor. -/
def moved (s : Strip) : TapeOp → Strip
  | .clear => { s with cursor := 0 }
  | .seek position => { s with cursor := position }
  | .patch position x => { s with cells := Tape.overlay s.cells position (Word.bytes x) }
  | op => { s with
      cells := Tape.overlay s.cells s.cursor op.laid
      cursor := s.cursor + op.laid.length }

/-- Room made shows nothing. -/
theorem moved_eq {s : Strip} {op : TapeOp} (h : op.MakesRoom) : s.moved op = s := by
  cases op with
  | reserve | grow => simp only [moved, TapeOp.laid, Tape.overlay_nil, List.length_nil, Nat.add_zero]
  | _ => exact h.elim

/-- The strip after an operation. -/
def step (s : Strip) (op : TapeOp) : Strip :=
  if Growth.maxCapacity < op.asks s.cursor then s
  else { s.moved op with reach := max s.reach (op.asks s.cursor) }

/-- The strip after operations. -/
def after (s : Strip) (ops : List TapeOp) : Strip := ops.foldl step s

/-- Whether each operation stays where bytes were written or room was made before it. -/
def Admits : Strip → List TapeOp → Prop
  | _, [] => True
  | s, op :: ops => s.Allows op ∧ (s.step op).Admits ops

instance (s : Strip) : (op : TapeOp) → Decidable (s.Allows op)
  | .range bs offset length => inferInstanceAs (Decidable (offset + length ≤ bs.length))
  | .seek position => inferInstanceAs (Decidable (position ≤ s.reach))
  | .patch position _ => inferInstanceAs (Decidable (position + 4 ≤ s.reach))
  | @TapeOp.word _ _ _ | @TapeOp.words _ _ _ | .bytes _ | .reserve _ | .grow _ | .clear =>
    .isTrue trivial

instance Admits.decidable : (s : Strip) → (ops : List TapeOp) → Decidable (s.Admits ops)
  | _, [] => .isTrue trivial
  | s, op :: ops =>
    have := Admits.decidable (s.step op) ops
    inferInstanceAs (Decidable (s.Allows op ∧ (s.step op).Admits ops))

end Strip

namespace Tape

/-- The tape after operations, some of which may have been refused. -/
def after (t : Tape) (ops : List TapeOp) : Tape := ops.foldl (fun t op => (op.run t).2) t

/-- `t'` is `t` with zeros behind its storage, so that it holds a number of bytes. -/
structure Extended (t t' : Tape) (needed : Nat) : Prop where
  cursor : t'.cursor = t.cursor
  growth : t'.growth = t.growth
  capacity : t.capacity ≤ t'.capacity
  bounded : t'.capacity ≤ Growth.maxCapacity
  holds : needed ≤ t'.capacity
  bytes : t'.bytes = t.bytes ++ List.replicate (t'.capacity - t.capacity) 0

namespace Extended

variable {t t' : Tape} {needed : Nat}

theorem refl (hc : t.capacity ≤ Growth.maxCapacity) (hn : needed ≤ t.capacity) :
    t.Extended t needed := ⟨rfl, rfl, Nat.le_refl _, hc, hn, by simp⟩

/-- Zeros behind the storage are what a look beyond its end shows. -/
theorem view (h : t.Extended t' needed) : t'.byteAt = t.byteAt := by
  funext i
  have hlen := length_bytes t
  simp only [byteAt, h.bytes, List.getD_eq_getElem?_getD, List.getElem?_append]
  split
  · rfl
  · rw [List.getElem?_replicate, List.getElem?_eq_none (l := t.bytes) (by omega)]
    split <;> rfl

end Extended

section

variable {t : Tape} (hg : t.growth.Doubles) (hc : t.capacity ≤ Growth.maxCapacity)

include hg hc

/-- Growth is refused beyond the largest capacity, and adds zeros otherwise. -/
theorem grow_cases (needed : Nat) :
    (Growth.maxCapacity < needed ∧
      grow needed t = (.error (.error (.sink (.capacityOverflow needed))), t)) ∨
    (needed ≤ Growth.maxCapacity ∧ ∃ t', grow needed t = (.ok (), t') ∧ t.Extended t' needed) := by
  by_cases hn : Growth.maxCapacity < needed
  · left
    simp only [grow, hg.next_error hn, hn, and_self]
  · right
    obtain ⟨capacity, -, hnext⟩ := hg.next_ok t.capacity (Nat.le_of_not_lt hn)
    obtain ⟨hneeded, hcurrent, hmax⟩ := hg.of_next hc hnext
    -- The storage is as large as was asked for, with zeros behind the old bytes.
    have hsize : (resize t.storage capacity).size = capacity := size_resize _ _
    refine ⟨Nat.le_of_not_lt hn, { t with storage := resize t.storage capacity }, ?_, ?_⟩
    · simp only [grow, hnext]
    · constructor
      case cursor | growth => rfl
      case bytes =>
        show (resize t.storage capacity).data.toList =
          t.bytes ++ List.replicate ((resize t.storage capacity).size - t.capacity) 0
        rw [toList_resize _ _ hcurrent, hsize]
        rfl
      all_goals
        show _ ≤ _
        simp only [Tape.capacity] at *
        omega

/-- Room behind the cursor is refused beyond the largest capacity, and had otherwise. -/
theorem reserve_cases (n : Nat) :
    (Growth.maxCapacity < t.cursor + n ∧ reserve n t =
      (.error (.error (.sink (.capacityOverflow (min (t.cursor + n) maxPosition)))), t)) ∨
    (t.cursor + n ≤ Growth.maxCapacity ∧
      ∃ t', reserve n t = (.ok (), t') ∧ t.Extended t' (t.cursor + n)) := by
  have hmax : Growth.maxCapacity < maxPosition := by decide
  unfold reserve
  -- A request beyond all positions is told as the largest one, and is refused either way.
  by_cases hp : maxPosition < t.cursor + n
  · left
    rw [if_pos hp, Nat.min_eq_right (by omega)]
    exact ⟨by omega, rfl⟩
  · rw [if_neg hp, Nat.min_eq_left (by omega)]
    by_cases hroom : t.capacity < t.cursor + n
    · rw [if_pos hroom]
      exact grow_cases hg hc (t.cursor + n)
    · right
      rw [if_neg hroom]
      exact ⟨by omega, t, rfl, .refl hc (by omega)⟩

/-- A checked write is refused beyond the largest capacity, and otherwise puts its bytes behind the
    cursor. -/
theorem write_cases (bs : Bytes) :
    (Growth.maxCapacity < t.cursor + bs.length ∧ write bs t =
      (.error (.error (.sink (.capacityOverflow (min (t.cursor + bs.length) maxPosition)))), t)) ∨
    (t.cursor + bs.length ≤ Growth.maxCapacity ∧ ∃ t', write bs t = (.ok (), t') ∧
      t.Appended t' bs ∧ t'.cursor ≤ t'.capacity ∧ t'.capacity ≤ Growth.maxCapacity) := by
  rcases reserve_cases hg hc bs.length with ⟨hbig, hreserve⟩ | ⟨hfits, t₁, hreserve, hroom⟩
  · left
    refine ⟨hbig, ?_⟩
    show (reserve bs.length >>= fun _ => put bs).run t = _
    rw [run_bind]
    simp only [run, hreserve]
  · right
    -- The room is there, so the bytes are put and the cursor moves on.
    have hput : put bs t₁ =
        (.ok (), { t₁ with storage := overwrite t₁.storage t₁.cursor bs, cursor := t₁.cursor + bs.length }) :=
      if_pos (by rw [hroom.cursor]; exact hroom.holds)
    have hwrite : write bs t = put bs t₁ := by
      show (reserve bs.length >>= fun _ => put bs).run t = _
      rw [run_bind]
      simp only [run, hreserve]
    have hsize : (overwrite t₁.storage t₁.cursor bs).size = t₁.capacity := size_overwrite _ _ _
    have hcap : Tape.capacity { t₁ with storage := overwrite t₁.storage t₁.cursor bs, cursor := t₁.cursor + bs.length } =
        t₁.capacity := hsize
    refine ⟨hfits, _, hwrite.trans hput, write_appended (hwrite.trans hput), ?_, ?_⟩
    · rw [hcap, hroom.cursor]
      exact hroom.holds
    · rw [hcap]
      exact hroom.bounded

end

/-- Words written all at once are their bytes written one after the other: a length that cannot be
    counted is refused just as the sum with the cursor would be. -/
theorem writeWords_eq_write {α : Type} [Word α] (xs : List α) :
    writeWords xs = write (xs.flatMap Word.bytes) := by
  unfold writeWords write
  rw [Word.length_flatMap_bytes]
  by_cases hbig : maxPosition < xs.length * Word.width α
  · -- So many words are refused for their number before any room is asked for, with the same error.
    funext t
    have hsum : maxPosition < t.cursor + xs.length * Word.width α := by omega
    have hreserve : reserve (xs.length * Word.width α) t =
        (.error (.error (.sink (.capacityOverflow maxPosition))), t) := if_pos hsum
    have hwrite : (reserve (xs.length * Word.width α) >>= fun _ => put (xs.flatMap Word.bytes)).run t =
        (.error (.error (.sink (.capacityOverflow maxPosition))), t) := by
      rw [run_bind]
      simp only [run, hreserve]
    rw [if_pos hbig]
    exact hwrite.symm
  · rw [if_neg hbig]

/-- The tape and the strip hold the same bytes, and the cursors stand at the same place. -/
structure Shows (t : Tape) (s : Strip) : Prop where
  growth : t.growth.Doubles
  bounded : t.capacity ≤ Growth.maxCapacity
  cursor : t.cursor = s.cursor
  /-- The whole storage, behind the cursor as before it, and zeros beyond its end. -/
  view : t.byteAt = s.cells
  inside : s.cursor ≤ s.reach
  reach : s.reach ≤ t.capacity

/-- What an operation gives on a tape that shows a strip: the strip's answer, a tape that shows the
    strip after it, and a storage that is at most filled up with zeros if only room was made. -/
structure Answers (t : Tape) (s : Strip) (op : TapeOp) : Prop where
  result : (op.run t).1 = s.answer op
  shows : (op.run t).2.Shows (s.step op)
  capacity : t.capacity ≤ (op.run t).2.capacity
  zeros : op.MakesRoom → (op.run t).2.bytes =
    t.bytes ++ List.replicate ((op.run t).2.capacity - t.capacity) 0

namespace Shows

variable {t t' : Tape} {s : Strip}

/-- The whole storage is as much of the strip. -/
theorem bytes (h : t.Shows s) : t.bytes = s.upTo t.capacity := by
  have hlen := length_bytes t
  apply List.ext_getElem
  · simp [Strip.upTo, hlen]
  · intro i hi _
    rw [← byteAt_eq_getElem hi, h.view]
    simp [Strip.upTo]

/-- So is what was written, with no room to spare. -/
theorem written (h : t.Shows s) : t.written? = some s.written := by
  have hroom : 0 + t.cursor ≤ t.capacity := by
    rw [Nat.zero_add, h.cursor]
    exact Nat.le_trans h.inside h.reach
  have hslice := slice?_span hroom
  rw [Nat.zero_add] at hslice
  rw [written?, hslice, Strip.written, Strip.upTo, ← h.cursor, ← h.view, span]
  simp only [Nat.zero_add]

/-- Room made behind the storage shows nothing new, but can be gone to. -/
theorem extended {needed : Nat} (h : t.Shows s) (hroom : t.Extended t' needed) :
    t'.Shows { s with reach := max s.reach needed } where
  growth := hroom.growth ▸ h.growth
  bounded := hroom.bounded
  cursor := hroom.cursor.trans h.cursor
  view := hroom.view.trans h.view
  inside := Nat.le_trans h.inside (Nat.le_max_left ..)
  reach := Nat.max_le.mpr ⟨Nat.le_trans h.reach hroom.capacity, hroom.holds⟩

/-- An operation that is refused leaves tape and strip as they are. -/
theorem refused {op : TapeOp} (h : t.Shows s) (hbig : Growth.maxCapacity < op.asks s.cursor)
    (hrun : op.run t = (.error (.error (.sink (.capacityOverflow (op.named s.cursor)))), t)) :
    t.Answers s op := by
  have hstate : (op.run t).2 = t := congrArg Prod.snd hrun
  constructor
  · exact (congrArg Prod.fst hrun).trans (if_pos hbig).symm
  · rw [hstate, Strip.step, if_pos hbig]
    exact h
  · exact Nat.le_of_eq (congrArg capacity hstate.symm)
  · intro _
    rw [hstate, Nat.sub_self, List.replicate_zero, List.append_nil]

/-- Making room, however it is asked for. -/
theorem room (h : t.Shows s) (op : TapeOp) (hmakes : op.MakesRoom)
    (hcases : (Growth.maxCapacity < op.asks s.cursor ∧
        op.run t = (.error (.error (.sink (.capacityOverflow (op.named s.cursor)))), t)) ∨
      (op.asks s.cursor ≤ Growth.maxCapacity ∧
        ∃ t', op.run t = (.ok (), t') ∧ t.Extended t' (op.asks s.cursor))) :
    t.Answers s op := by
  -- Refused, nothing changes; otherwise only zeros are added, which the strip has there anyway.
  rcases hcases with ⟨hbig, hrun⟩ | ⟨hfits, t', hrun, hroom⟩
  · exact h.refused hbig hrun
  · have hsmall := Nat.not_lt.mpr hfits
    constructor <;> rw [hrun]
    · exact (if_neg hsmall).symm
    · rw [Strip.step, if_neg hsmall, Strip.moved_eq hmakes]
      exact h.extended hroom
    · exact hroom.capacity
    · exact fun _ => hroom.bytes

/-- Every checked write is one of bytes. -/
theorem write {op : TapeOp} (h : t.Shows s) (hrun : op.run = Tape.write op.laid)
    (hasks : op.asks s.cursor = s.cursor + op.laid.length)
    (hnamed : op.named s.cursor = min (op.asks s.cursor) maxPosition)
    (hmoved : s.moved op = { s with
      cells := overlay s.cells s.cursor op.laid, cursor := s.cursor + op.laid.length })
    (hwrites : ¬ op.MakesRoom) : t.Answers s op := by
  rcases write_cases h.growth h.bounded op.laid with
    ⟨hbig, hwrite⟩ | ⟨hfits, t', hwrite, happended, hroom, hbounded⟩
  · rw [h.cursor, ← hasks] at hbig
    rw [h.cursor, ← hasks, ← hnamed, ← hrun] at hwrite
    exact h.refused hbig hwrite
  · rw [h.cursor, ← hasks] at hfits
    rw [← hrun] at hwrite
    have hsmall := Nat.not_lt.mpr hfits
    have hcursor : t'.cursor = op.asks s.cursor := by rw [happended.cursor, h.cursor, hasks]
    constructor <;> rw [hwrite]
    · exact (if_neg hsmall).symm
    · -- The bytes are laid over the same cells of tape and strip.
      rw [Strip.step, if_neg hsmall, hmoved]
      constructor
      case growth => exact happended.growth ▸ h.growth
      case bounded => exact hbounded
      case cursor => exact hcursor.trans hasks
      case view =>
        show t'.byteAt = overlay s.cells s.cursor op.laid
        rw [happended.view, h.view, h.cursor]
      case inside => exact hasks ▸ Nat.le_max_right ..
      case reach => exact Nat.max_le.mpr ⟨Nat.le_trans h.reach happended.capacity, hcursor ▸ hroom⟩
    · exact happended.capacity
    · exact fun hmakes => absurd hmakes hwrites

/-- A cursor moved to a place that was reached. -/
theorem moveTo {position : Nat} (h : t.Shows s) (hle : position ≤ s.reach) :
    Tape.Shows { t with cursor := position } { s with cursor := position } :=
  { h with cursor := rfl, inside := hle }

/-- A patch of bytes that were reached. -/
theorem patched (h : t.Shows s) {position : Nat} (bs : Bytes) (hle : position + bs.length ≤ s.reach) :
    Tape.Shows { t with storage := overwrite t.storage position bs }
      { s with cells := overlay s.cells position bs } := by
  have hroom : position + bs.length ≤ t.capacity := Nat.le_trans hle h.reach
  have hsize : (overwrite t.storage position bs).size = t.capacity := size_overwrite _ _ _
  constructor
  case growth => exact h.growth
  case bounded => exact Nat.le_trans (Nat.le_of_eq hsize) h.bounded
  case cursor => exact h.cursor
  case view =>
    rw [byteAt_overwrite t _ position bs hroom rfl, h.view]
  case inside => exact h.inside
  case reach => exact Nat.le_trans h.reach (Nat.le_of_eq hsize.symm)

/-- An operation that asks for no room is carried out as it stands. -/
theorem still {op : TapeOp} (hrun : op.run t = (.ok (), t')) (hasks : op.asks s.cursor = 0)
    (hshows : t'.Shows (s.moved op)) (hreach : (s.moved op).reach = s.reach)
    (hcapacity : t.capacity ≤ t'.capacity) (hmakes : ¬ op.MakesRoom) : t.Answers s op := by
  have hsmall : ¬ Growth.maxCapacity < op.asks s.cursor := by rw [hasks]; exact Nat.not_lt_zero _
  constructor <;> rw [hrun]
  · exact (if_neg hsmall).symm
  · rw [Strip.step, if_neg hsmall, hasks, Nat.max_zero, ← hreach]
    exact hshows
  · exact hcapacity
  · exact fun hroom => absurd hroom hmakes

/-- One operation. -/
theorem step (h : t.Shows s) {op : TapeOp} (hop : s.Allows op) : t.Answers s op := by
  -- Writes lay bytes, requests make room, and the rest moves the cursor or patches what was written.
  cases op with
  | word x => exact h.write rfl rfl rfl rfl id
  | words xs => exact h.write (writeWords_eq_write xs) rfl rfl rfl id
  | bytes bs => exact h.write rfl rfl rfl rfl id
  | range bs offset length => exact h.write (if_pos hop) rfl rfl rfl id
  | reserve additional =>
    have hcases := reserve_cases h.growth h.bounded additional
    rw [h.cursor] at hcases
    exact h.room (.reserve additional) trivial hcases
  | grow needed =>
    exact h.room (.grow needed) trivial (grow_cases h.growth h.bounded needed)
  | clear => exact still rfl rfl (h.moveTo (Nat.zero_le _)) rfl (Nat.le_refl _) id
  | seek position => exact still rfl rfl (h.moveTo hop) rfl (Nat.le_refl _) id
  | patch position x =>
    have hshows := h.patched (Word.bytes x) hop
    have hroom : position + (Word.bytes x).length ≤ t.capacity := Nat.le_trans hop h.reach
    exact still (if_pos hroom) rfl hshows rfl (Nat.le_of_eq (size_overwrite _ _ _).symm) id

/-- Any number of operations. -/
theorem after {ops : List TapeOp} (h : t.Shows s) (hops : s.Admits ops) :
    (t.after ops).Shows (s.after ops) := by
  induction ops generalizing t s with
  | nil => exact h
  | cons op ops ih => exact ih (h.step hops.1).shows hops.2

end Shows

/-- A new tape shows a strip of zeros. -/
theorem shows_new {g : Growth} {capacity : Nat} (hg : g.Doubles)
    (hc : capacity ≤ Growth.maxCapacity) : (new g capacity).Shows Strip.blank where
  growth := hg
  bounded := by
    have hone : 1 ≤ Growth.maxCapacity := by decide
    cases g with
    | heap => exact Nat.le_trans (Nat.le_of_eq (size_zeros capacity)) hc
    | offHeap => exact Nat.le_trans (Nat.le_of_eq (size_zeros (max capacity 1))) (Nat.max_le.mpr ⟨hc, hone⟩)
    | limited limit => exact hg.elim
    | custom rule => exact hg.elim
  cursor := rfl
  view := by
    -- A new tape has only zeros, and so has a strip that nothing was written on.
    funext i
    have hzeros : ∀ n, (List.replicate n (0 : UInt8)).getD i 0 = 0 := by
      intro n
      rw [List.getD_eq_getElem?_getD, List.getElem?_replicate]
      split <;> rfl
    show (zeros _).data.toList.getD i 0 = 0
    rw [toList_zeros]
    exact hzeros _
  inside := Nat.le_refl _
  reach := Nat.zero_le _

/-- Memory of zeros with the bytes of a smaller one copied over its start is that smaller one filled
    up with zeros. -/
theorem copy_eq {b b' : ByteArray} {n : Nat} (hle : b.size ≤ n)
    (h : b'.data.toList = b.data.toList ++ List.replicate (n - b.size) 0) :
    overwrite (zeros n) 0 b.data.toList = b' := by
  have hlen : b.data.toList.length = b.size := Array.length_toList
  apply ByteArray.ext
  apply Array.toList_inj.mp
  rw [toList_overwrite _ _ _ (by rw [size_zeros]; omega), toList_zeros, h, List.drop_replicate, hlen,
    List.take_zero, List.nil_append, Nat.zero_add]

/-- What can be seen of a tape is what the strip shows, whatever comes next. -/
structure Mimics (t : Tape) (s : Strip) : Prop where
  cursor : t.cursor = s.cursor
  written : t.written? = some s.written
  /-- No byte of the storage is any other than the strip's. -/
  bytes : t.bytes = s.upTo t.capacity
  bounded : t.capacity ≤ Growth.maxCapacity
  result : ∀ op, s.Allows op → (op.run t).1 = s.answer op
  capacity : ∀ op, s.Allows op → t.capacity ≤ (op.run t).2.capacity
  /-- Room made keeps all bytes and adds zeros. -/
  zeros : ∀ op, s.Allows op → op.MakesRoom → (op.run t).2.bytes =
    t.bytes ++ List.replicate ((op.run t).2.capacity - t.capacity) 0
  /-- Room made is what new memory of zeros is after all bytes were copied to it. -/
  copied : ∀ op, s.Allows op → op.MakesRoom →
    (op.run t).2.storage = overwrite (Tape.zeros (op.run t).2.capacity) 0 t.bytes
  /-- A capacity that is not refused is found between bounds that are in order. -/
  clamped : ∀ needed, needed ≤ Growth.maxCapacity → ∃ capacity,
    clamp? (min (2 * t.capacity) maxPosition) needed Growth.maxCapacity = some capacity ∧
      t.growth.next t.capacity needed = .ok capacity

/-- A tape that shows a strip answers as it does, since each step of both is the same. -/
theorem Shows.mimics {t : Tape} {s : Strip} (h : t.Shows s) : t.Mimics s where
  cursor := h.cursor
  written := h.written
  bytes := h.bytes
  bounded := h.bounded
  result := fun _ hop => (h.step hop).result
  capacity := fun _ hop => (h.step hop).capacity
  zeros := fun _ hop => (h.step hop).zeros
  copied := fun _ hop hmakes => (copy_eq (h.step hop).capacity ((h.step hop).zeros hmakes)).symm
  clamped := fun _ hle => h.growth.next_ok _ hle

/-- Two tapes that double, each from a capacity of its own, answer any operations alike and have the
    same bytes written before the same cursor: those of one strip of zeros, which knows no capacity. -/
theorem agree_after {g₁ g₂ : Growth} (hg₁ : g₁.Doubles) (hg₂ : g₂.Doubles) {c₁ c₂ : Nat}
    (hc₁ : c₁ ≤ Growth.maxCapacity) (hc₂ : c₂ ≤ Growth.maxCapacity) {ops : List TapeOp}
    (hops : Strip.blank.Admits ops) :
    let t₁ := (new g₁ c₁).after ops
    let t₂ := (new g₂ c₂).after ops
    let s := Strip.blank.after ops
    t₁.Mimics s ∧ t₂.Mimics s ∧ t₁.cursor = t₂.cursor ∧ t₁.written? = t₂.written? ∧
      ∀ op, s.Allows op → (op.run t₁).1 = (op.run t₂).1 := by
  have h₁ := ((shows_new hg₁ hc₁).after hops).mimics
  have h₂ := ((shows_new hg₂ hc₂).after hops).mimics
  refine ⟨h₁, h₂, ?_, ?_, fun op hop => ?_⟩
  · rw [h₁.cursor, h₂.cursor]
  · rw [h₁.written, h₂.written]
  · rw [h₁.result op hop, h₂.result op hop]

/-- Bytes written, a cursor moved back over them and on into room that was made, a patch there and a
    request that is refused. -/
def sampleOps : List TapeOp :=
  [.word (7 : UInt8), .words [1, (-2 : Int32)], .seek 3, .reserve 20, .seek 23, .patch 17 (-1),
    .grow 2147483648, .range [1, 2, 3] 1 2, .clear, .seek 25]

/-- Such operations answer alike on the heap from nothing and off the heap from sixteen bytes. -/
theorem agree_after_sample :
    Strip.blank.Admits sampleOps ∧
      ((new .heap 0).after sampleOps).written? = ((new .offHeap 16).after sampleOps).written? := by
  have hops : Strip.blank.Admits sampleOps := by decide
  have h := @agree_after .heap .offHeap trivial trivial 0 16 (by decide) (by decide) _ hops
  exact ⟨hops, h.2.2.2.1⟩

end Tape

end ObjectWire
