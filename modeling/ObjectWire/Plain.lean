import ObjectWire.Bytes
import ObjectWire.Decimal.Basic
import ObjectWire.Time

/-!
# Plain values

Plain values have no identity and no type of their own to resolve: numbers, text, times, arrays of
those, and objects that are already encoded.
-/

namespace ObjectWire

/-- A universally unique identifier, as two halves. -/
structure Uuid where
  most : UInt64
  least : UInt64
deriving DecidableEq, Repr, Inhabited

/-- An object encoded before, perhaps inside a longer string of bytes. -/
structure EncodedObject where
  bytes : Bytes
  /-- Where the object starts. -/
  start : Nat
deriving DecidableEq, Repr, Inhabited

/-- A value without identity. -/
inductive Plain where
  | null
  | byte (v : UInt8)
  | short (v : Int16)
  | int (v : Int32)
  | long (v : Int64)
  | float (v : Single)
  | double (v : Double)
  /-- One UTF-16 unit. -/
  | char (v : UInt16)
  | bool (v : Bool)
  | string (v : String)
  /-- Text as UTF-16 units, among them perhaps surrogates without a partner. -/
  | utf16 (v : List UInt16)
  | uuid (v : Uuid)
  | date (v : Instant)
  | timestamp (v : Instant)
  | time (v : SqlTime)
  | decimal (v : Decimal)
  | bytes (v : List UInt8)
  | shorts (v : List Int16)
  | ints (v : List Int32)
  | longs (v : List Int64)
  | floats (v : List Single)
  | doubles (v : List Double)
  | chars (v : List UInt16)
  | bools (v : List Bool)
  | strings (v : List (Option String))
  | uuids (v : List (Option Uuid))
  | dates (v : List (Option Instant))
  | timestamps (v : List (Option Instant))
  | times (v : List (Option SqlTime))
  | decimals (v : List (Option Decimal))
  | encoded (v : EncodedObject)
deriving DecidableEq, Repr, Inhabited

end ObjectWire
