import Mathlib.Algebra.Group.Nat.Defs
import ObjectWire.Bytes
import ObjectWire.Wire.OffsetWidth

/-!
# Numbers and their bytes

A string of `n` bytes stands for a number below `256 ^ n`, and reading back a number that was written
in `n` bytes gives it modulo that range.  The width chosen for an offset is the narrowest with the offset in
its range.
-/

namespace ObjectWire.LittleEndian

/-- A string of bytes stands for a number in its range. -/
theorem decode_lt (bs : Bytes) : decode bs < 256 ^ bs.length := by
  induction bs with
  | nil => simp [decode]
  | cons b bs ih =>
    have hb := b.toNat_lt
    simp only [decode, List.length_cons, Nat.pow_succ]
    omega

/-- Reading back what was written gives the number modulo the range of the width. -/
theorem decode_encode (width n : Nat) : decode (encode width n) = n % 256 ^ width := by
  induction width generalizing n with
  | zero => simp [encode, decode, Nat.mod_one]
  | succ width ih =>
    have hb : (UInt8.ofNat n).toNat = n % 256 := UInt8.toNat_ofNat'
    rw [encode, decode, ih, hb, Nat.pow_succ, Nat.mul_comm (256 ^ width) 256, Nat.mod_mul]

end ObjectWire.LittleEndian

namespace ObjectWire.OffsetWidth

/-- The width for an offset holds it and all smaller ones. -/
theorem lt_of_forOffset {n last : Nat} (h : n ≤ last) (hlast : last < 256 ^ 4) :
    n < 256 ^ (forOffset last).bytes := by
  unfold forOffset
  split
  · simp only [bytes]; omega
  · split <;> simp only [bytes] <;> omega

/-- No narrower width holds the offset. -/
theorem forOffset_le {n : Nat} {width : OffsetWidth} (h : n < 256 ^ width.bytes) :
    (forOffset n).bytes ≤ width.bytes := by
  cases width with
  | one =>
    have hone : n < 256 := h
    simp [forOffset, hone]
  | two =>
    have htwo : n < 65536 := h
    by_cases hone : n < 256
    · simp [forOffset, hone, bytes]
    · simp [forOffset, hone, htwo]
  | four => cases forOffset n <;> decide

end ObjectWire.OffsetWidth
