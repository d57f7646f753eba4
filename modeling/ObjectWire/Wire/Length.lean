import ObjectWire.Error

/-!
# Lengths on the wire

Every length, count and relative offset is written as a signed 32-bit word, so it has to stay below
`2 ^ 31`.
-/

namespace ObjectWire

/-- The largest length the wire can carry. -/
def maxWireLength : Nat := 2147483647

/-- A length as a wire word.  `what` names the thing measured in the error for a length that does not
    fit. -/
def wireLength (what : String) (length : Nat) : Except Error Int32 :=
  if length ≤ maxWireLength then .ok (Int32.ofNat length)
  else .error (.tooLarge (what ++ " length " ++ toString length))

/-- A length that can be written is written as its count. -/
theorem wireLength_ok {what : String} {n : Nat} {v : Int32} (h : wireLength what n = .ok v) :
    n ≤ maxWireLength ∧ v = Int32.ofNat n := by
  unfold wireLength at h
  split at h
  · next hle => exact ⟨hle, (Except.ok.inj h).symm⟩
  · cases h

end ObjectWire
