import ObjectWire.Bytes
import ObjectWire.Wire.Tag
import ObjectWire.Wire.OffsetWidth

/-!
# Object headers

An object starts with a header of 24 bytes: tag, format version, flags, type id, hash code, total
length, schema id, and the offset of the footer or, in an object without fields, of the raw section.
-/

namespace ObjectWire

/-- The type id that announces a type name written inline. -/
def unregisteredTypeId : Int32 := 0

/-- The contents of an object's header. -/
structure Header where
  flags : UInt16
  typeId : Int32
  hashCode : Int32
  /-- Length of the whole object, header and footer included. -/
  totalLength : Int32
  /-- Id of the object's schema, zero for an object without fields. -/
  schemaId : Int32
  /-- Where the footer starts, or the raw section of an object without fields, counted from the
      object's start; zero if there is neither. -/
  offset : Int32
deriving DecidableEq, Repr

namespace Header

/-- Number of bytes of a header. -/
def size : Nat := 24

/-- Where the hash code stands in a header. -/
def hashCodeOffset : Nat := 8

/-- Version of the format. -/
def version : UInt8 := 1

/-- A header's bytes. -/
def bytes (h : Header) : Bytes :=
  Tag.object.code :: version ::
    (Word.bytes h.flags ++ Word.bytes h.typeId ++ Word.bytes h.hashCode ++
      Word.bytes h.totalLength ++ Word.bytes h.schemaId ++ Word.bytes h.offset)

/-- A header has the size that room is made for. -/
@[simp] theorem length_bytes (h : Header) : h.bytes.length = size := by
  simp [bytes, size, Word.width]

end Header

/-- The hash of an object's data: starting from one, 31 times the hash so far plus the next byte taken
    as signed, in wrapping arithmetic. -/
def identityHash (data : Bytes) : Int32 :=
  data.foldl (fun hash b => hash * 31 + b.toInt8.toInt32) 1

end ObjectWire
