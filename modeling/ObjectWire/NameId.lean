import ObjectWire.Text.Lowercase
import ObjectWire.Text.Utf16

/-!
# Ids of names

A type or field gets its id from its name: the name is lower-cased, and its UTF-16 units are hashed by
`h ↦ 31 * h + unit` in wrapping 32-bit arithmetic.  An ASCII name is hashed byte by byte without going
through its units.
-/

namespace ObjectWire.NameId

/-- The hash of a sequence of UTF-16 units. -/
def ofUnits (units : List UInt16) : Int32 :=
  units.foldl (fun hash u => hash * 31 + Int32.ofNat u.toNat) 0

/-- The lower-case form of an ASCII letter's byte. -/
def lowerByte (b : UInt8) : UInt8 := if 65 ≤ b && b ≤ 90 then b + 32 else b

/-- The hash of an ASCII name, given as its bytes. -/
def ofBytes (bytes : Bytes) : Int32 :=
  bytes.foldl (fun hash b => hash * 31 + Int32.ofNat (lowerByte b).toNat) 0

/-- The hash of any name, through the units of its lower-case form. -/
def general (name : List Char) : Int32 :=
  ofUnits (Utf16.ofText (Lowercase.ofText name))

/-- The id of a name. -/
def ofName (name : String) : Int32 :=
  if name.toList.all (·.toNat < 128) then ofBytes (name.toList.map fun c => UInt8.ofNat c.toNat)
  else general name.toList

end ObjectWire.NameId
