import ObjectWire.Encode.Scalar

/-!
# Arrays on a tape

An array is its tag, the number of its elements, and the elements: bare words for the primitive types,
tagged values or nulls for the others.
-/

namespace ObjectWire.Encode

/-- Writes a tag byte and a number of elements. -/
def arrayHeader (tag : UInt8) (length : Nat) : Action Tape Unit := do
  let length ← Action.ofExcept (wireLength "array" length)
  Tape.reserve 5
  Tape.put (tag :: Word.bytes length)

/-- Writes an array of words, all of them at once. -/
def words {α : Type} [Word α] (tag : Tag) (xs : List α) : Action Tape Unit := do
  arrayHeader tag.code xs.length
  Tape.writeWords xs

/-- Writes an array of tagged elements, one after the other. -/
def elements {α : Type} (tag : Tag) (write : α → Action Tape Unit) (xs : List (Option α)) :
    Action Tape Unit := do
  arrayHeader tag.code xs.length
  Action.forEach (orNull write) xs

end ObjectWire.Encode
