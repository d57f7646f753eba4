import ObjectWire.Decimal.Magnitude
import ObjectWire.Plain
import ObjectWire.Tape
import ObjectWire.Text.Utf16
import ObjectWire.Wire.Length
import ObjectWire.Wire.Tag

/-!
# Single values on a tape

A single value is its tag and its payload.  Every encoder here measures first, then makes room for all
its bytes at once, and only then writes, so that it either writes the whole value or nothing.  The heads
of the values with others inside are written in the same way, but for that of a proxy.
-/

namespace ObjectWire.Encode

/-- Writes a tag and its payload. -/
def tagged (tag : Tag) (payload : Bytes) : Action Tape Unit := do
  Tape.reserve (payload.length + 1)
  Tape.put (tag.code :: payload)

/-- Writes a null. -/
def null : Action Tape Unit := tagged .null []

/-- Writes a value, or a null for none. -/
def orNull {α : Type} (write : α → Action Tape Unit) : Option α → Action Tape Unit
  | none => null
  | some v => write v

/-- Writes a byte. -/
def byte (v : UInt8) : Action Tape Unit := tagged .byte (Word.bytes v)

/-- Writes a 16-bit integer. -/
def short (v : Int16) : Action Tape Unit := tagged .short (Word.bytes v)

/-- Writes a 32-bit integer. -/
def int (v : Int32) : Action Tape Unit := tagged .int (Word.bytes v)

/-- Writes a 64-bit integer. -/
def long (v : Int64) : Action Tape Unit := tagged .long (Word.bytes v)

/-- Writes a number of single precision. -/
def float (v : Single) : Action Tape Unit := tagged .float (Word.bytes v)

/-- Writes a number of double precision. -/
def double (v : Double) : Action Tape Unit := tagged .double (Word.bytes v)

/-- Writes one UTF-16 unit. -/
def char (v : UInt16) : Action Tape Unit := tagged .char (Word.bytes v)

/-- Writes a truth value. -/
def bool (v : Bool) : Action Tape Unit := tagged .bool (Word.bytes v)

/-- Writes text that is already in bytes: their number, then the bytes. -/
def textBytes (bs : Bytes) : Action Tape Unit := do
  let length ← Action.ofExcept (wireLength "string" bs.length)
  tagged .string (Word.bytes length ++ bs)

/-- Writes a text. -/
def string (encoding : StringEncoding) (v : String) : Action Tape Unit :=
  textBytes (Utf16.textBytes v encoding)

/-- Writes a text given as UTF-16 units. -/
def utf16 (encoding : StringEncoding) (v : List UInt16) : Action Tape Unit :=
  textBytes (Utf16.bytes v encoding)

/-- Writes the two halves of an identifier, the most significant one first. -/
def uuid (v : Uuid) : Action Tape Unit := tagged .uuid (Word.bytes v.most ++ Word.bytes v.least)

/-- Writes a date as milliseconds since the epoch. -/
def date (v : Instant) : Action Tape Unit := tagged .date (Word.bytes v.millis)

/-- Writes a timestamp as milliseconds since the epoch and the nanoseconds they leave out. -/
def timestamp (v : Instant) : Action Tape Unit :=
  tagged .timestamp (Word.bytes v.millis ++ Word.bytes v.nanosOfMilli)

/-- Writes a time as milliseconds since the epoch. -/
def time (v : SqlTime) : Action Tape Unit := tagged .time (Word.bytes v.millis)

/-- Writes a decimal: its scale, the number of bytes of its magnitude, and these. -/
def decimal (v : Decimal) : Action Tape Unit := do
  let magnitude := v.magnitude
  let length ← Action.ofExcept (wireLength "decimal magnitude" magnitude.length)
  tagged .decimal (Word.bytes v.scale ++ Word.bytes length ++ magnitude)

/-- Writes an object encoded before: all bytes it lies in, then where it starts in them. -/
def encoded (v : EncodedObject) : Action Tape Unit := do
  let length ← Action.ofExcept (wireLength "binary object" v.bytes.length)
  let start ← Action.ofExcept (wireLength "binary object start" v.start)
  tagged .binaryObject (Word.bytes length ++ v.bytes ++ Word.bytes start)

/-- Writes a reference back, as the distance to where its target was written. -/
def handle (distance : Int32) : Action Tape Unit := tagged .handle (Word.bytes distance)

/-- Writes the type id of a constant of an enumeration, which its name or its ordinal follows. -/
def binaryEnumHead (typeId : Int32) : Action Tape Unit := tagged .binaryEnum (Word.bytes typeId)

/-- Writes the number of items of a collection and the code of its kind. -/
def collectionHead (size : Int32) (kind : UInt8) : Action Tape Unit :=
  tagged .collection (Word.bytes size ++ [kind])

/-- Writes the number of entries of a map and the code of its kind. -/
def mapHead (size : Int32) (kind : UInt8) : Action Tape Unit :=
  tagged .map (Word.bytes size ++ [kind])

/-- Writes the number of interfaces of a proxy.  It is measured last of all, so too many of them are
    refused with the tag written already. -/
def proxyHead (interfaces : Nat) : Action Tape Unit := do
  Tape.reserve 5
  Tape.put [Tag.proxy.code]
  let count ← Action.ofExcept (wireLength "proxy interfaces" interfaces)
  Tape.put (Word.bytes count)

end ObjectWire.Encode
