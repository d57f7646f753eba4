/-!
# Header flags and offset widths

The header of an object has sixteen flag bits.  Two of them say how wide the offsets in the object's
footer are; a writer takes the narrowest width that holds the largest offset.
-/

namespace ObjectWire

namespace Flag

/-- The object is of a user type. -/
def userType : UInt16 := 0x0001

/-- The object has named fields, and so a footer. -/
def hasSchema : UInt16 := 0x0002

/-- The object has a raw section. -/
def hasRaw : UInt16 := 0x0004

/-- The footer's offsets are one byte wide. -/
def oneByteOffsets : UInt16 := 0x0008

/-- The footer's offsets are two bytes wide. -/
def twoByteOffsets : UInt16 := 0x0010

/-- The footer holds offsets without field ids. -/
def compactFooter : UInt16 := 0x0020

end Flag

/-- How wide one offset in a footer is. -/
inductive OffsetWidth where
  | one
  | two
  | four
deriving DecidableEq, Repr

namespace OffsetWidth

/-- The narrowest width that holds an offset. -/
def forOffset (offset : Nat) : OffsetWidth :=
  if offset < 256 then .one else if offset < 65536 then .two else .four

/-- Number of bytes of an offset. -/
def bytes : OffsetWidth → Nat
  | .one => 1
  | .two => 2
  | .four => 4

/-- The flag bits that announce a width. -/
def flag : OffsetWidth → UInt16
  | .one => Flag.oneByteOffsets
  | .two => Flag.twoByteOffsets
  | .four => 0

/-- The width that flag bits announce; the bit for one byte is looked at first. -/
def ofFlags (bits : UInt16) : OffsetWidth :=
  if bits &&& Flag.oneByteOffsets ≠ 0 then .one
  else if bits &&& Flag.twoByteOffsets ≠ 0 then .two
  else .four

end OffsetWidth

end ObjectWire
