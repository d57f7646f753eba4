import ObjectWire.Proofs.CheckedWrites
import ObjectWire.Proofs.EncodeImage
import ObjectWire.Proofs.Strip
import ObjectWire.Proofs.Wire.Reads

/-!
# Words at once and one by one

Words written all at once need one reservation, words written one by one need as many as there are words, and
the tape may grow at each of them.  The capacities then differ, but not how far the tape can reach at all
(`Tape.farthest`): growth never changes that (`Grown.farthest`), so both ways succeed under the same condition
and lay the same bytes (`writeWords_ok_iff`, `forEach_writeWord_ok_iff`).

An array of words is a tag, the number of its elements and their bytes.  It is read back by a reader that knows
the width of an element and how to make one of its bit pattern (`Word.Readable`).
-/

namespace ObjectWire

open ObjectWire.Action

/-- Whether the growth follows a rule given here, not one of its own. -/
def Growth.isBuiltIn : Growth → Bool
  | .heap | .offHeap | .limited _ => true
  | .custom _ => false

namespace Tape

/-! ## How far a tape reaches -/

/-- How far the cursor can come by checked writes. -/
def farthest (t : Tape) : Nat := min maxPosition (max t.capacity t.growth.largest)

/-- Growth uses up what the tape can grow to, and no more. -/
theorem Grown.farthest {t t' : Tape} (h : t.Grown t') : t'.farthest = t.farthest := by
  have hcapacity := h.capacity
  have hbounded := h.bounded
  rw [Tape.farthest, Tape.farthest, h.growth]
  omega

variable {t t' : Tape} {u : Unit}

/-- Room can be made on a built-in tape just up to where it can reach. -/
theorem reserve_ok_iff (hgrowth : t.growth.isBuiltIn = true) (n : Nat) :
    ((reserve n).run t).1 = .ok () ↔ t.cursor + n ≤ t.farthest := by
  -- A built-in storage refuses a capacity beyond its largest one and nothing else.
  have hnext (needed : Nat) : (∃ capacity, t.growth.next t.capacity needed = .ok capacity) ↔
      needed ≤ t.growth.largest := by
    unfold Growth.next
    split
    · simp only [reduceCtorEq, exists_false, false_iff]
      omega
    · next hle =>
      refine iff_of_true ?_ (Nat.le_of_not_lt hle)
      cases hg : t.growth with
      | heap | offHeap | limited => exact ⟨_, rfl⟩
      | custom rule => rw [hg] at hgrowth; cases hgrowth
  simp only [Action.run, reserve, farthest]
  split
  · simp only [reduceCtorEq, false_iff]
    omega
  · split
    · unfold grow
      have := hnext (t.cursor + n)
      cases h : t.growth.next t.capacity (t.cursor + n) with
      | error e => simp [h] at this ⊢; omega
      | ok capacity => simp [h] at this ⊢; omega
    · simp only [true_iff]
      omega

/-- So far can bytes be written. -/
theorem write_ok_iff (hgrowth : t.growth.isBuiltIn = true) (bs : Bytes) :
    ((write bs).run t).1 = .ok () ↔ t.cursor + bs.length ≤ t.farthest := by
  rw [← reserve_ok_iff hgrowth, write, run_bind]
  split
  next t₁ hreserve =>
    obtain ⟨hgrown, hroom⟩ := reserve_grown hreserve
    have hput : (put bs).run t₁ = (.ok (), _) := if_pos (by rw [hgrown.cursor]; exact hroom)
    simp [hreserve, hput]
  next hreserve => simp [hreserve]

/-- Bytes put on a tape change nothing about how far it can reach. -/
theorem put_farthest {bs : Bytes} (h : (put bs).Yields t u t') : t'.farthest = t.farthest := by
  simp only [Yields, put] at h
  split at h
  · obtain ⟨-, rfl⟩ := Prod.mk.inj h
    simp [farthest, capacity]
  · cases (Prod.mk.inj h).1

/-- Nor does room that is made and filled. -/
theorem reserve_put_farthest {n : Nat} {bs : Bytes} (h : (reserve n >>= fun _ => put bs).Yields t u t') :
    t'.farthest = t.farthest := by
  obtain ⟨_, t₁, hreserve, hput⟩ := (yields_bind ..).mp h
  rw [put_farthest hput, (reserve_grown hreserve).1.farthest]

/-! ## Two ways to write words -/

variable {α : Type} [Word α]

/-- Many words fit just where their bytes do. -/
theorem writeWords_ok_iff (hgrowth : t.growth.isBuiltIn = true) (xs : List α) :
    ((writeWords xs).run t).1 = .ok () ↔ t.cursor + xs.length * Word.width α ≤ t.farthest := by
  rw [writeWords_eq_write, write_ok_iff hgrowth, Word.length_flatMap_bytes]

/-- One word after the other fits if and only if all of them together do. -/
theorem forEach_writeWord_ok_iff (hgrowth : t.growth.isBuiltIn = true) (hcursor : t.cursor ≤ t.farthest)
    (xs : List α) :
    ((forEach writeWord xs).run t).1 = .ok () ↔ t.cursor + xs.length * Word.width α ≤ t.farthest := by
  -- Each word moves the cursor on by its width, and no word moves the place that can be reached.
  induction xs generalizing t with
  | nil => simpa [forEach] using hcursor
  | cons x xs ih =>
    have hfirst : ((writeWord x).run t).1 = .ok () ↔ t.cursor + Word.width α ≤ t.farthest := by
      rw [writeWord, write_ok_iff hgrowth, Word.length_bytes]
    rw [List.length_cons, Nat.add_one_mul, forEach, run_bind]
    split
    next t₁ hword =>
      have happended := writeWord_appended hword
      have hfarthest := reserve_put_farthest hword
      have hnext : t₁.cursor = t.cursor + Word.width α := by rw [happended.cursor, Word.length_bytes]
      have hroom := hfirst.mp (by rw [hword])
      rw [ih (by rwa [happended.growth]) (by omega), hnext, hfarthest]
      omega
    next hword =>
      have hroom : ¬ t.cursor + Word.width α ≤ t.farthest := by
        rw [← hfirst, hword]
        simp
      simp only [reduceCtorEq, false_iff]
      omega

/-- Words written one by one lie behind each other. -/
theorem forEach_writeWord_appended {xs : List α} (h : (forEach writeWord xs).Yields t u t') :
    t.Appended t' (xs.flatMap Word.bytes) := by
  induction xs generalizing t with
  | nil =>
    obtain rfl := (yields_forEach_nil ..).mp h
    exact .refl t
  | cons x xs ih =>
    obtain ⟨t₁, hx, hxs⟩ := (yields_forEach_cons ..).mp h
    exact (writeWord_appended hx).trans (ih hxs)

/-- What was appended to a cursor inside the storage ends inside the storage. -/
theorem Appended.reached {bs : Bytes} (h : t.Appended t' bs) (hcursor : t.cursor ≤ t.capacity) :
    t'.cursor ≤ t'.capacity := by
  by_cases hnil : bs = []
  · subst hnil
    rw [h.cursor]
    exact Nat.le_trans hcursor h.capacity
  · exact h.room hnil

/-- What is written in the end is what was written before and what was appended. -/
theorem Appended.written? {bs : Bytes} (h : t.Appended t' bs) (hcursor : t.cursor ≤ t.capacity) :
    t'.written? = t.written?.map (· ++ bs) := by
  have hbefore : Appended { t with cursor := 0 } t (t.span 0 t.cursor) := appended_span (Nat.zero_le _) hcursor
  have hall : Appended { t with cursor := 0 } t' ([] ++ (t.span 0 t.cursor ++ bs) ++ []) := by
    simpa using hbefore.trans h
  have hstart : t.written? = some (t.span 0 t.cursor) := by
    have hslice : t.slice? 0 (0 + t.cursor) = some (t.span 0 t.cursor) := slice?_span (by simpa using hcursor)
    simpa [Tape.written?] using hslice
  have hstop : t'.cursor = 0 + 0 + (t.span 0 t.cursor ++ bs).length := by simp [h.cursor]
  rw [hstart, Option.map_some, Tape.written?, hstop]
  exact hall.slice? (h.reached hcursor)

/-- Words written at once and one by one: both succeed or both fail, with the same bytes written if they
    succeed, and then the first way leaves the tape as it was if they fail. -/
theorem writeWords_forEach (hgrowth : t.growth.isBuiltIn = true) (hcursor : t.cursor ≤ t.capacity)
    (hcounted : t.cursor ≤ maxPosition) (xs : List α) :
    match (writeWords xs).run t, (forEach writeWord xs).run t with
    | (.ok (), t₁), (.ok (), t₂) =>
      t₁.cursor = t₂.cursor ∧ t₁.written? = t.written?.map (· ++ xs.flatMap Word.bytes) ∧
        t₂.written? = t.written?.map (· ++ xs.flatMap Word.bytes)
    | (.error _, t₁), (.error _, _) => t₁ = t
    | _, _ => False := by
  have hboth := (writeWords_ok_iff hgrowth xs).trans
    (forEach_writeWord_ok_iff hgrowth (by rw [farthest]; omega) xs).symm
  -- Both succeed under one condition, so the mixed cases do not arise.
  rcases hat : (writeWords xs).run t with ⟨_ | _, t₁⟩ <;>
    rcases hby : (forEach writeWord xs).run t with ⟨_ | _, t₂⟩ <;> simp only [hat, hby] at hboth ⊢
  case error.error =>
    have hfollows := CheckedWrite.follows_plan (.words xs)
    exact Plan.run_error hfollows.exact (by rw [← hfollows.run_eq]; exact hat)
  case error.ok => simp at hboth
  case ok.error => simp at hboth
  case ok.ok =>
    have hat' := writeWords_appended hat
    have hby' := forEach_writeWord_appended hby
    exact ⟨by rw [hat'.cursor, hby'.cursor], hat'.written? hcursor, hby'.written? hcursor⟩

end Tape

/-! ## Reading words back -/

/-- A type of words that can be read back from their bit patterns. -/
class Word.Readable (α : Type) extends Word α where
  /-- The word with a bit pattern. -/
  ofPattern : Nat → α
  ofPattern_pattern : ∀ x, ofPattern (pattern x) = x
  pattern_lt : ∀ x, pattern x < 256 ^ width

namespace Word

instance : Readable UInt8 := ⟨UInt8.ofNat, fun _ => UInt8.ofNat_toNat, UInt8.toNat_lt⟩
instance : Readable UInt16 := ⟨UInt16.ofNat, fun _ => UInt16.ofNat_toNat, UInt16.toNat_lt⟩
instance : Readable Int16 :=
  ⟨fun n => (UInt16.ofNat n).toInt16, fun x => by simp [pattern], fun x => x.toUInt16.toNat_lt⟩
instance : Readable Int32 :=
  ⟨fun n => (UInt32.ofNat n).toInt32, fun x => by simp [pattern], fun x => x.toUInt32.toNat_lt⟩
instance : Readable Int64 :=
  ⟨fun n => (UInt64.ofNat n).toInt64, fun x => by simp [pattern], fun x => x.toUInt64.toNat_lt⟩
instance : Readable Single :=
  ⟨fun n => ⟨UInt32.ofNat n⟩, fun x => by simp [pattern], fun x => x.bits.toNat_lt⟩
instance : Readable Double :=
  ⟨fun n => ⟨UInt64.ofNat n⟩, fun x => by simp [pattern], fun x => x.bits.toNat_lt⟩
instance : Readable Bool := ⟨fun n => n != 0, by decide, by decide⟩

end Word

namespace Reader

variable (α : Type) [Word.Readable α] (bs : Bytes)

/-- Reads one word. -/
def word : Reader α := Word.Readable.ofPattern <$> number bs (Word.width α)

/-- Reads an array of words: its tag, the number of its elements and the elements. -/
def wordArray : Reader (UInt8 × List α) := do
  let tag ← u8 bs
  let n ← count bs
  let xs ← times (word α bs) n
  return (tag, xs)

variable {α bs}

/-- A word is read back from its bytes. -/
theorem reads_word (x : α) : Reads bs (word α bs) (Word.bytes x) x := by
  have hpattern : Reads bs (number bs (Word.width α)) (Word.bytes x) (Word.pattern x) :=
    reads_number _ (Word.Readable.pattern_lt x)
  have hread := hpattern.map (Word.Readable.ofPattern : Nat → α)
  rwa [Word.Readable.ofPattern_pattern] at hread

/-- An array of words is read back from its tag, its count and its bytes. -/
theorem reads_wordArray (tag : UInt8) {xs : List α} (h : xs.length ≤ maxWireLength) :
    Reads bs (wordArray α bs) (tag :: countBytes xs.length ++ xs.flatMap Word.bytes) (tag, xs) := by
  have htag : Reads bs (u8 bs) (Word.bytes tag) tag := reads_u8 tag
  rw [Word.bytes_byte] at htag
  have helements : Reads bs (times (word α bs) xs.length) (xs.flatMap Word.bytes) xs :=
    reads_times fun x _ => reads_word x
  exact htag.bind ((reads_count h).bind (helements.last (.pure _)))

end Reader

/-! ## Arrays of words -/

namespace Encode

open Tape

variable {α : Type} {t t' : Tape} {u : Unit}

/-- The head of an array fits if the wire can count its elements and there is room for five bytes. -/
theorem arrayHeader_ok_iff (hgrowth : t.growth.isBuiltIn = true) (tag : UInt8) (n : Nat) :
    ((arrayHeader tag n).run t).1 = .ok () ↔ n ≤ maxWireLength ∧ t.cursor + 5 ≤ t.farthest := by
  obtain ⟨hrun, hexact⟩ := CheckedWrite.follows_plan (.arrayHeader tag n)
  have hiff := Plan.run_ok_iff hexact t
  rw [← hrun, CheckedWrite.plan, Plan.measured_refusal, and_iff_left rfl] at hiff
  exact hiff.trans (and_congr_right fun _ => reserve_ok_iff hgrowth 5)

/-- An array of words fits if its head and its words do. -/
theorem words_ok_iff [Word α] (hgrowth : t.growth.isBuiltIn = true) (tag : Tag) (xs : List α) :
    ((words tag xs).run t).1 = .ok () ↔
      xs.length ≤ maxWireLength ∧ t.cursor + (5 + xs.length * Word.width α) ≤ t.farthest := by
  -- The header asks for five bytes, and only behind these do the words ask for theirs.
  have hheader := arrayHeader_ok_iff hgrowth tag.code xs.length
  rw [words, run_bind]
  split
  next t₁ hyields =>
    obtain ⟨hle, happended⟩ := arrayHeader_appended hyields
    have hcursor : t₁.cursor = t.cursor + 5 := happended.cursor
    have hfarthest : t₁.farthest = t.farthest := by
      obtain ⟨_, _, hlength, hput⟩ := (yields_bind ..).mp hyields
      obtain ⟨-, rfl⟩ := (yields_ofExcept ..).mp hlength
      exact reserve_put_farthest hput
    rw [writeWords_ok_iff (by rwa [happended.growth]), hcursor, hfarthest]
    omega
  next hstops =>
    have hroom : ¬ (xs.length ≤ maxWireLength ∧ t.cursor + 5 ≤ t.farthest) := by
      rw [← hheader, hstops]
      simp
    simp only [reduceCtorEq, false_iff]
    omega

/-- An array of words that is written lies behind its tag and its count. -/
theorem words_appended [Word α] {tag : Tag} {xs : List α} (h : (words tag xs).Yields t u t') :
    xs.length ≤ maxWireLength ∧
      t.Appended t' (tag.code :: countBytes xs.length ++ xs.flatMap Word.bytes) := by
  obtain ⟨_, t₁, hheader, hwords⟩ := (yields_bind ..).mp h
  obtain ⟨hle, happended⟩ := arrayHeader_appended hheader
  exact ⟨hle, happended.trans (writeWords_appended hwords)⟩

end Encode

/-- Writing words at once is writing them one by one.  On a tape that grows by a built-in rule both succeed or
    both fail; if they succeed, the cursor and the written bytes are the same, and if they fail, the words written
    at once leave the tape as it was.  One word is written, on every tape, by making room for its bytes and
    putting them there.  So an array of words is five bytes of header and the bytes of its elements in order,
    and it is read back as what was written. -/
theorem Tape.bulk_writes {α : Type} [Word.Readable α] {t : Tape} (hgrowth : t.growth.isBuiltIn = true)
    (hcursor : t.cursor ≤ t.capacity) (hcounted : t.cursor ≤ maxPosition) (tag : Tag) (xs : List α) :
    (match (writeWords xs).run t, (forEach writeWord xs).run t with
      | (.ok (), t₁), (.ok (), t₂) =>
        t₁.cursor = t₂.cursor ∧ t₁.written? = t.written?.map (· ++ xs.flatMap Word.bytes) ∧
          t₂.written? = t.written?.map (· ++ xs.flatMap Word.bytes)
      | (.error _, t₁), (.error _, _) => t₁ = t
      | _, _ => False) ∧
    (∀ x : α, writeWord x = do reserve (Word.width α); put (Word.bytes x)) ∧
    (((Encode.words tag xs).run t).1 = .ok () ↔
      xs.length ≤ maxWireLength ∧ t.cursor + (5 + xs.length * Word.width α) ≤ t.farthest) ∧
    ∀ (s s' : Tape), (Encode.words tag xs).Yields s () s' →
      ∃ header, header = tag.code :: Word.bytes (Int32.ofNat xs.length) ∧ header.length = 5 ∧
        s'.slice? s.cursor s'.cursor = some (header ++ xs.flatMap Word.bytes) ∧
        Reader.wordArray α (header ++ xs.flatMap Word.bytes) 0 =
          some ((tag.code, xs), (header ++ xs.flatMap Word.bytes).length) := by
  refine ⟨writeWords_forEach hgrowth hcursor hcounted xs, fun x => ?_, Encode.words_ok_iff hgrowth tag xs,
    fun s s' h => ?_⟩
  · rw [writeWord, write, Word.length_bytes]
  · obtain ⟨hle, happended⟩ := Encode.words_appended h
    refine ⟨_, rfl, rfl, happended.slice?_between (by simp), ?_⟩
    -- The written bytes lie in the array as they are, so the reader finds the elements there.
    have hread := Reader.reads_wordArray tag.code hle 0 (Reader.holds_self _)
    rwa [Nat.zero_add] at hread

/-- Two shorts at once and one by one: a tape limited to four bytes takes both, one limited to three takes the
    first alone. -/
theorem Tape.bulk_writes_sample :
    ((writeWords [(-2 : Int16), 258]).run (new (.limited 4) 0)).2.written? = some [0xFE, 0xFF, 2, 1] ∧
      ((writeWords [(-2 : Int16), 258]).run (new (.limited 3) 0)).2 = new (.limited 3) 0 ∧
      ((forEach writeWord [(-2 : Int16), 258]).run (new (.limited 3) 0)).2.cursor = 2 ∧
      ((Encode.words .shortArray [(-2 : Int16), 258]).run (new .heap 0)).1 = .ok () := by
  obtain ⟨hwritten, -⟩ := bulk_writes (t := new (.limited 4) 0) rfl (Nat.le_refl 0) (Nat.zero_le _) .shortArray
    [(-2 : Int16), 258]
  obtain ⟨hfull, -⟩ := bulk_writes (t := new (.limited 3) 0) rfl (Nat.le_refl 0) (Nat.zero_le _) .shortArray
    [(-2 : Int16), 258]
  obtain ⟨-, -, harray, -⟩ := bulk_writes (t := new .heap 0) rfl (Nat.le_refl 0) (Nat.zero_le _) .shortArray
    [(-2 : Int16), 258]
  exact ⟨hwritten.2.1, hfull, rfl, harray.mpr (by decide)⟩

end ObjectWire
