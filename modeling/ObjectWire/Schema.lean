import ObjectWire.Bytes

/-!
# Schemas

A schema is the ordered list of field ids of an object's layout.  Its id is a 32-bit hash folded over
the bytes of the field ids, so a writer can keep the id of the fields written so far and fold in one
more field at a time.
-/

namespace ObjectWire

namespace SchemaId

/-- The id of the layout without fields. -/
def seed : Int32 := (0x811C9DC5 : UInt32).toInt32

/-- The multiplier of the hash. -/
def prime : UInt32 := 0x01000193

/-- One step of the hash: mix a byte in, then multiply. -/
def mix (hash : UInt32) (b : UInt8) : UInt32 :=
  (hash ^^^ b.toUInt32) * prime

/-- The id of a layout with one more field, from the id without it: the four bytes of the field id are
    mixed in, least significant first. -/
def push (id fieldId : Int32) : Int32 :=
  ((Word.bytes fieldId).foldl mix id.toUInt32).toInt32

/-- The id of a layout. -/
def ofFields (fieldIds : List Int32) : Int32 := fieldIds.foldl push seed

end SchemaId

/-- The layout of an object: its field ids in write order, with the layout's id. -/
structure Schema where
  fieldIds : List Int32
deriving DecidableEq, Repr

namespace Schema

/-- The layout's id. -/
def id (s : Schema) : Int32 := SchemaId.ofFields s.fieldIds

/-- Number of fields. -/
def size (s : Schema) : Nat := s.fieldIds.length

/-- Whether the layout has no field. -/
def isEmpty (s : Schema) : Bool := s.fieldIds.isEmpty

/-- The field id at a place. -/
def fieldId? (s : Schema) (place : Nat) : Option Int32 := s.fieldIds[place]?

/-- The first place of a field id. -/
def place? (s : Schema) (fieldId : Int32) : Option Nat := s.fieldIds.findIdx? (· == fieldId)

end Schema

end ObjectWire
