import ObjectWire.Action
import ObjectWire.Bytes

/-!
# Tapes

A tape is storage for bytes with a cursor.  The storage grows on demand, and the cursor can be moved
anywhere, so that a writer can leave room for a header, go on, and come back to fill it in.

There are two kinds of writes.  A checked write makes room for its bytes first; an unchecked write
(`put`) counts on room made before by `reserve` and stops the write as out of range if there is none.

`toList_overwrite` says what a write does to the storage as a list of bytes, `toList_resize` what growth
does to it.
-/

namespace ObjectWire

/-- The largest number that positions are counted with. -/
def Tape.maxPosition : Nat := 18446744073709551615

/-- A rule of one's own for the next capacity of a tape, from the capacity it has and the number of
    bytes that it has to hold. -/
structure GrowthRule where
  next : (current needed : Nat) → Except SinkError Nat
  needed_le : ∀ {current needed capacity}, next current needed = .ok capacity → needed ≤ capacity
  le_maxPosition : ∀ {current needed capacity},
    next current needed = .ok capacity → capacity ≤ Tape.maxPosition

/-- Storage that is one block of memory, taken whole when the first byte needs it.  There is no other
    block. -/
def GrowthRule.block (size : Nat) (h : size ≤ Tape.maxPosition) : GrowthRule where
  next _ needed := if needed ≤ size then .ok size else .error (.outOfMemory needed)
  needed_le := by
    intro current needed capacity hnext
    split at hnext
    · next hle => exact Except.ok.inj hnext ▸ hle
    · cases hnext
  le_maxPosition := by
    intro current needed capacity hnext
    split at hnext
    · exact Except.ok.inj hnext ▸ h
    · cases hnext

instance : Inhabited GrowthRule := ⟨.block 0 (Nat.zero_le _)⟩

/-- How a tape's storage grows. -/
inductive Growth where
  /-- To at least twice its size. -/
  | heap
  /-- To at least twice its size, in memory of its own that holds one byte or more. -/
  | offHeap
  /-- To just the size needed, and never beyond a limit. -/
  | limited (limit : Nat)
  /-- As a rule says. -/
  | custom (rule : GrowthRule)

namespace Growth

/-- The largest capacity of a tape that doubles: offsets have to fit the wire. -/
def maxCapacity : Nat := 2147483647

/-- The largest capacity a tape can grow to. -/
def largest : Growth → Nat
  | .heap | .offHeap => maxCapacity
  | .limited limit => limit
  | .custom _ => Tape.maxPosition

/-- The next capacity of a tape that has to hold a number of bytes. -/
def next (g : Growth) (current needed : Nat) : Except SinkError Nat :=
  if g.largest < needed then .error (.capacityOverflow needed)
  else
    match g with
    | .heap | .offHeap => .ok (min (max (2 * current) needed) maxCapacity)
    | .limited _ => .ok (max needed current)
    | .custom rule => rule.next current needed

end Growth

/-- Storage for bytes with a cursor. -/
structure Tape where
  storage : ByteArray
  cursor : Nat
  growth : Growth

namespace Tape

/-- A byte array of zeros. -/
def zeros (size : Nat) : ByteArray := ⟨Array.replicate size 0⟩

/-- A byte array cut, or filled up with zeros, to a size. -/
def resize (b : ByteArray) (size : Nat) : ByteArray :=
  if size ≤ b.size then b.extract 0 size else b ++ zeros (size - b.size)

/-- A byte array with bytes put over its own from an offset on. -/
def overwrite (b : ByteArray) (offset : Nat) : Bytes → ByteArray
  | [] => b
  | x :: xs => overwrite (b.set! offset x) (offset + 1) xs

/-- An array of zeros has the size asked for. -/
@[simp] theorem size_zeros (size : Nat) : (zeros size).size = size := by
  simp [zeros, ByteArray.size]

/-- Every byte of it is zero. -/
@[simp] theorem toList_zeros (size : Nat) : (zeros size).data.toList = List.replicate size 0 := by
  simp [zeros]

/-- A byte replaced by another changes no size. -/
theorem size_set (b : ByteArray) (i : Nat) (x : UInt8) : (b.set! i x).size = b.size := by
  show (b.data.set! i x).size = b.data.size
  simp

/-- Bytes put over others change no size. -/
@[simp] theorem size_overwrite (b : ByteArray) (offset : Nat) (bs : Bytes) :
    (overwrite b offset bs).size = b.size := by
  induction bs generalizing b offset with
  | nil => rfl
  | cons x xs ih => rw [overwrite, ih, size_set]

/-- Bytes put over others from an offset on stand there, and all bytes around them stay. -/
theorem toList_overwrite (b : ByteArray) (offset : Nat) (bs : Bytes)
    (h : offset + bs.length ≤ b.size) :
    (overwrite b offset bs).data.toList =
      b.data.toList.take offset ++ bs ++ b.data.toList.drop (offset + bs.length) := by
  induction bs generalizing b offset with
  | nil => simp [overwrite]
  | cons x xs ih =>
    have hlen : b.data.toList.length = b.size := Array.length_toList
    have hset : (b.set! offset x).data.toList = b.data.toList.set offset x := by
      show (b.data.set! offset x).toList = _
      simp
    simp only [List.length_cons] at h
    have hlt : offset < b.data.toList.length := by omega
    -- The first byte ends the part before it, the others follow by induction.
    rw [overwrite, ih _ _ (by rw [size_set]; omega), hset, List.drop_set_of_lt (by omega),
      List.set_eq_take_append_cons_drop, if_pos hlt, List.take_append, List.take_take,
      List.length_take_of_le (by omega), Nat.min_eq_right (by omega), Nat.add_sub_cancel_left]
    simp [Nat.add_comm, Nat.add_left_comm]

/-- A larger storage keeps all bytes and adds zeros. -/
theorem toList_resize (b : ByteArray) (size : Nat) (h : b.size ≤ size) :
    (resize b size).data.toList = b.data.toList ++ List.replicate (size - b.size) 0 := by
  unfold resize
  split
  · have : size = b.size := by omega
    subst this
    simp
  · simp

/-- Storage that is resized has the size asked for, whether it is cut or filled up. -/
@[simp] theorem size_resize (b : ByteArray) (size : Nat) : (resize b size).size = size := by
  unfold resize
  split
  · simp [ByteArray.size_extract]; omega
  · simp [ByteArray.size_append]; omega

/-- A tape with the cursor at its start. -/
def new (growth : Growth) (capacity : Nat) : Tape :=
  { storage := zeros (match growth with
      | .heap | .custom _ => capacity
      | .offHeap => max capacity 1
      | .limited _ => 0)
    cursor := 0
    growth }

instance : Inhabited Tape := ⟨new .heap 0⟩

/-- Number of bytes of the storage. -/
def capacity (t : Tape) : Nat := t.storage.size

/-- Whether the storage lies in memory of its own. -/
def isOffHeap (t : Tape) : Bool :=
  match t.growth with
  | .offHeap => true
  | _ => false

/-- All bytes of the storage. -/
def bytes (t : Tape) : Bytes := t.storage.data.toList

/-- The bytes from one offset up to another, if the storage has them. -/
def slice? (t : Tape) (start stop : Nat) : Option Bytes :=
  if start ≤ stop ∧ stop ≤ t.capacity then some (t.storage.extract start stop).data.toList
  else none

/-- The bytes before the cursor, if the storage has them. -/
def written? (t : Tape) : Option Bytes := t.slice? 0 t.cursor

/-- Moves the cursor. -/
@[inline] def seek (position : Nat) : Action Tape Unit :=
  Action.update fun t => { t with cursor := position }

/-- Moves the cursor to the start. -/
@[inline] def clear : Action Tape Unit := seek 0

/-- Makes the storage hold a number of bytes or more. -/
def grow (needed : Nat) : Action Tape Unit := fun t =>
  match t.growth.next t.capacity needed with
  | .error e => (.error (.error (.sink e)), t)
  | .ok capacity => (.ok (), { t with storage := resize t.storage capacity })

/-- Makes room for a number of bytes after the cursor. -/
def reserve (additional : Nat) : Action Tape Unit := fun t =>
  let needed := t.cursor + additional
  -- A cursor moved far out makes the sum itself too large to ask for.
  if maxPosition < needed then (.error (.error (.sink (.capacityOverflow maxPosition))), t)
  else if t.capacity < needed then grow needed t
  else (.ok (), t)

/-- Writes bytes at the cursor without making room. -/
def put (bs : Bytes) : Action Tape Unit := fun t =>
  let stop := t.cursor + bs.length
  if stop ≤ t.capacity then
    (.ok (), { t with storage := overwrite t.storage t.cursor bs, cursor := stop })
  else (.error .outOfRange, t)

/-- Writes bytes at a place in the storage and leaves the cursor where it is. -/
def patch (offset : Nat) (bs : Bytes) : Action Tape Unit := fun t =>
  if offset + bs.length ≤ t.capacity then
    (.ok (), { t with storage := overwrite t.storage offset bs })
  else (.error .outOfRange, t)

/-- Writes bytes at the cursor. -/
def write (bs : Bytes) : Action Tape Unit := do
  reserve bs.length
  put bs

/-- Writes `length` of the given bytes from `offset` on. -/
def writeRange (bs : Bytes) (offset length : Nat) : Action Tape Unit :=
  if offset + length ≤ bs.length then write ((bs.drop offset).take length)
  else Action.stop .outOfRange

/-- Writes one word. -/
def writeWord {α : Type} [Word α] (x : α) : Action Tape Unit := write (Word.bytes x)

/-- Writes words one after the other, making room for all of them at once. -/
def writeWords {α : Type} [Word α] (xs : List α) : Action Tape Unit := do
  let length := xs.length * Word.width α
  if maxPosition < length then Action.fail (.sink (.capacityOverflow maxPosition))
  reserve length
  put (xs.flatMap Word.bytes)

end Tape

end ObjectWire
