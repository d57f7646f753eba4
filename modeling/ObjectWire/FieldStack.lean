import ObjectWire.Schema
import ObjectWire.Tape
import ObjectWire.Wire.OffsetWidth

/-!
# Field stacks

While an object is written, the id and the offset of each of its fields are kept on a stack.  One stack
serves all objects that are open at a time: an object counts its own fields, looks only at that many
entries on top, and takes them off when it is done.
-/

namespace ObjectWire

/-- A field of an open object. -/
structure FieldEntry where
  id : Int32
  /-- Where the field's value starts, counted from the object's start. -/
  offset : UInt32
deriving DecidableEq, Repr

/-- The fields of all open objects, the latest first. -/
structure FieldStack where
  entries : List FieldEntry := []
deriving DecidableEq, Repr, Inhabited

namespace FieldStack

/-- Number of entries of all open objects. -/
def size (s : FieldStack) : Nat := s.entries.length

/-- Whether there is no entry. -/
def isEmpty (s : FieldStack) : Bool := s.entries.isEmpty

/-- The stack with one more field. -/
def push (s : FieldStack) (id : Int32) (offset : UInt32) : FieldStack :=
  ⟨⟨id, offset⟩ :: s.entries⟩

/-- The stack without its last `count` entries. -/
def pop (s : FieldStack) (count : Nat) : FieldStack := ⟨s.entries.drop count⟩

/-- The last `count` entries in the order they were pushed. -/
def last (s : FieldStack) (count : Nat) : List FieldEntry := (s.entries.take count).reverse

/-- Whether a field id is among the last `count` entries. -/
def contains (s : FieldStack) (count : Nat) (id : Int32) : Bool :=
  (s.last count).any (·.id == id)

/-- The layout of the last `count` entries. -/
def schema (s : FieldStack) (count : Nat) : Schema := ⟨(s.last count).map (·.id)⟩

/-- A field is one more entry on the stack. -/
@[simp] theorem size_push (s : FieldStack) (id : Int32) (offset : UInt32) :
    (s.push id offset).size = s.size + 1 := by
  simp [push, size]

/-- A field just pushed is the last one. -/
@[simp] theorem last_push (s : FieldStack) (id : Int32) (offset : UInt32) (count : Nat) :
    (s.push id offset).last (count + 1) = s.last count ++ [⟨id, offset⟩] := by
  simp [push, last]

/-- Taking off the fields pushed last takes off nothing else. -/
@[simp] theorem pop_push (s : FieldStack) (id : Int32) (offset : UInt32) (count : Nat) :
    (s.push id offset).pop (count + 1) = s.pop count := by
  simp [push, pop]

/-- Off the stack come as many entries as there are, at most. -/
@[simp] theorem size_pop (s : FieldStack) (count : Nat) : (s.pop count).size = s.size - count := by
  simp [pop, size]

end FieldStack

/-- The width of a footer's offsets.  Offsets grow within an object, so the last one decides. -/
def footerWidth (fields : List FieldEntry) : OffsetWidth :=
  OffsetWidth.forOffset ((fields.getLast?.map (·.offset.toNat)).getD 0)

/-- The bytes of one field in a footer: its id, left out of a compact footer, and its offset, cut to
    the footer's width. -/
def footerEntry (width : OffsetWidth) (compact : Bool) (field : FieldEntry) : Bytes :=
  (if compact then [] else Word.bytes field.id) ++
    LittleEndian.encode width.bytes field.offset.toNat

/-- The bytes of a footer. -/
def footer (fields : List FieldEntry) (compact : Bool) : Bytes :=
  fields.flatMap (footerEntry (footerWidth fields) compact)

/-- Writes the footer for the last `count` entries and tells the width of its offsets. -/
def FieldStack.writeFooter (s : FieldStack) (count : Nat) (compact : Bool) :
    Action Tape OffsetWidth := do
  let fields := s.last count
  let width := footerWidth fields
  Tape.reserve (fields.length * (width.bytes + if compact then 0 else 4))
  Tape.put (footer fields compact)
  return width

end ObjectWire
