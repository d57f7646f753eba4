import ObjectWire.Proofs.WriterCalls
import ObjectWire.RootWrite

/-!
# All or nothing

A root write that fails leaves no trace before the cursor.  It may fail at any byte of any object, with
any number of writers open, and programs may have swallowed failures before; but whatever was written
went behind the cursor, and every writer took its fields off the stack when it was done
(`WriteM.keeps_writeValue`).  So it is enough to put the cursor back.
-/

namespace ObjectWire

namespace RootM

/-- The tape goes on from the cursor, and the fields of open objects stay. -/
theorem ofSession_keeps (v : Value) (world : World) (scratch : Scratch) :
    let state := (ofSession (WriteM.writeValue v) (world, scratch)).2
    scratch.tape.Onward scratch.tape.cursor state.2.tape ∧ state.2.fields = scratch.fields := by
  have hkeeps : Session.KeepsFrom scratch.tape.cursor _ _ :=
    WriteM.keeps_writeValue v (world.session scratch.tape scratch.fields)
  exact ⟨hkeeps.tape, hkeeps.fields⟩

end RootM

namespace Tape

/-- The bytes before the cursor are still the first ones of the storage. -/
theorem Onward.take_prefix {t t' : Tape} (h : t.Onward t.cursor t') :
    t.bytes.take t.cursor <+: t'.bytes :=
  Tape.take_prefix h.capacity fun i hi => h.below i hi hi

/-- The bytes before a cursor inside the storage are there. -/
theorem written?_eq {t : Tape} (h : t.cursor ≤ t.capacity) : ∃ bytes, t.written? = some bytes :=
  ⟨_, if_pos ⟨Nat.zero_le _, h⟩⟩

/-- A tape that is cleared holds nothing. -/
theorem written?_clear (t : Tape) : Tape.written? { t with cursor := 0 } = some [] := by
  have hnone : ∀ i (hi : i < ([] : Bytes).length), t.byteAt (0 + i) = ([] : Bytes)[i] :=
    fun _ hi => absurd hi (Nat.not_lt_zero _)
  exact slice?_eq (Nat.zero_le _) hnone

end Tape

/-- A write at the cursor leaves all bytes before the cursor and the fields of open objects as they were;
    if it succeeds it tells where the cursor was, and if it fails the cursor is back there.  A write to a
    scratch tape leaves no fields, and before the cursor it leaves the bytes that it tells, or none if it
    fails.  That holds for all programs, wherever they fail and whatever they leave open. -/
theorem encode_allOrNothing (v : Value) (world : World) (scratch : Scratch) :
    let (start, _, behind) := encodeInto v (world, scratch)
    let (bytes, _, used) := encodeWith v (world, scratch)
    (scratch.tape.bytes.take scratch.tape.cursor <+: behind.tape.bytes ∧
      behind.fields = scratch.fields ∧
      match start with
      | .ok start => start = scratch.tape.cursor ∧ start ≤ behind.tape.cursor
      | .error _ => behind.tape.cursor = scratch.tape.cursor) ∧
    used.fields = {} ∧
    used.tape.written? = some (match bytes with
      | .ok bytes => bytes
      | .error _ => []) := by
  have hinto := RootM.ofSession_keeps v world scratch
  have hwith := RootM.ofSession_keeps v world scratch.reset
  simp only [encodeInto, encodeWith]
  generalize RootM.ofSession (WriteM.writeValue v) (world, scratch) = into at hinto ⊢
  generalize RootM.ofSession (WriteM.writeValue v) (world, scratch.reset) = run at hwith ⊢
  constructor
  · obtain ⟨e | _, world', tape, fields⟩ := into
    · obtain ⟨honward, hfields⟩ := hinto
      -- There are no fields above those from before, so none are taken off.
      have hpop : fields.pop (fields.size - scratch.fields.size) = scratch.fields := by
        rw [show fields = scratch.fields from hfields, Nat.sub_self]
        rfl
      exact ⟨honward.take_prefix, hpop, rfl⟩
    · obtain ⟨honward, hfields⟩ := hinto
      exact ⟨honward.take_prefix, hfields, rfl, honward.cursor⟩
  · obtain ⟨e | _, world', tape, fields⟩ := run
    · exact ⟨rfl, tape.written?_clear⟩
    · obtain ⟨honward, hfields⟩ := hwith
      -- The cursor was in the storage to begin with, and so it is in the end.
      obtain ⟨bytes, hbytes⟩ := Tape.written?_eq (honward.room (Nat.zero_le _))
      simp only [hbytes]
      exact ⟨hfields, trivial⟩

end ObjectWire
