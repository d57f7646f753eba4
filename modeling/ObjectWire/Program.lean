import ObjectWire.Schema
import ObjectWire.Value

/-!
# Programs of writer calls

A user type decides itself what it writes.  Its writing is a program: the sequence of calls that it
makes on the writer of its object, on the raw section, and on the session around the object.  A call
wrapped in `attempt` may fail without ending the program.
-/

namespace ObjectWire

/-- The argument of a call that writes a field of a type known beforehand. -/
inductive TypedField where
  | byte (v : UInt8)
  | short (v : Int16)
  | int (v : Int32)
  | long (v : Int64)
  | float (v : Single)
  | double (v : Double)
  | char (v : UInt16)
  | bool (v : Bool)
  | string (v : Option String)
  | utf16 (v : Option (List UInt16))
  | uuid (v : Option Uuid)
  | date (v : Option Instant)
  | timestamp (v : Option Instant)
  | time (v : Option SqlTime)
  | decimal (v : Option Decimal)
  | bytes (v : Option (List UInt8))
  | ints (v : Option (List Int32))
  | longs (v : Option (List Int64))
  | doubles (v : Option (List Double))
  | strings (v : Option (List (Option String)))
  | object (v : Option NodeId)
  | enum (v : Option EnumConstant)
deriving DecidableEq, Repr

namespace TypedField

/-- The value that a typed field writes. -/
def toValue : TypedField → Value
  | .byte v => .plain (.byte v)
  | .short v => .plain (.short v)
  | .int v => .plain (.int v)
  | .long v => .plain (.long v)
  | .float v => .plain (.float v)
  | .double v => .plain (.double v)
  | .char v => .plain (.char v)
  | .bool v => .plain (.bool v)
  | .string v => v.elim .null fun v => .plain (.string v)
  | .utf16 v => v.elim .null fun v => .plain (.utf16 v)
  | .uuid v => v.elim .null fun v => .plain (.uuid v)
  | .date v => v.elim .null fun v => .plain (.date v)
  | .timestamp v => v.elim .null fun v => .plain (.timestamp v)
  | .time v => v.elim .null fun v => .plain (.time v)
  | .decimal v => v.elim .null fun v => .plain (.decimal v)
  | .bytes v => v.elim .null fun v => .plain (.bytes v)
  | .ints v => v.elim .null fun v => .plain (.ints v)
  | .longs v => v.elim .null fun v => .plain (.longs v)
  | .doubles v => v.elim .null fun v => .plain (.doubles v)
  | .strings v => v.elim .null fun v => .plain (.strings v)
  | .object v => v.elim .null .ref
  | .enum v => v.elim .null .enum

end TypedField

/-- A call on the raw section of an object. -/
inductive RawOp where
  | u8 (v : UInt8)
  | i16 (v : Int16)
  | u16 (v : UInt16)
  | i32 (v : Int32)
  | i64 (v : Int64)
  | f32 (v : Single)
  | f64 (v : Double)
  | bool (v : Bool)
  | bytes (v : List UInt8)
  /-- A tagged text or null. -/
  | text (v : Option String)
  /-- A tagged value. -/
  | value (v : Value)
  /-- A tagged value that shares no references with what is around it. -/
  | detached (v : Value)
  /-- Room for four bytes to be filled in later. -/
  | reserve
  /-- The word for one of the places reserved by the calls that this one is among, counted from the
      first. -/
  | fill (slot : Nat) (v : Int32)
  /-- The word for one of all the places that the object has reserved so far, counted from the first. -/
  | fillEarlier (slot : Nat) (v : Int32)
deriving DecidableEq, Repr

mutual

/-- A call on the writer of an object. -/
inductive ObjectOp where
  /-- A named field through the call for its type. -/
  | typed (name : String) (v : TypedField)
  /-- A named field. -/
  | field (name : String) (v : Value)
  /-- A field by its id. -/
  | fieldId (id : Int32) (v : Value)
  /-- A field by its id that is left out of the schema id. -/
  | fieldIdUnfolded (id : Int32) (v : Value)
  /-- A named field that shares no references with what is around it. -/
  | detached (name : String) (v : Value)
  /-- A schema id known beforehand. -/
  | setSchemaId (id : Int32)
  /-- A look at the schema of the fields so far. -/
  | schema
  /-- Calls on the raw section. -/
  | raw (ops : List RawOp)
  /-- Calls on the session around the object. -/
  | session (ops : List SessionOp)
  /-- A call whose failure does not end the program. -/
  | attempt (op : ObjectOp)

/-- A call on a session. -/
inductive SessionOp where
  /-- A value. -/
  | value (v : Value)
  /-- A value that shares no references with what is around it. -/
  | detached (v : Value)
  /-- A user object. -/
  | object (node : NodeId)
  /-- Bytes as they are. -/
  | bytes (v : List UInt8)
  /-- An object written by calls of its own.  It is finished as a user type or a system type, or left
      unfinished. -/
  | begin (typeId : Int32) (inlineName : Option String) (userType : Option Bool)
      (ops : List ObjectOp)
  /-- A call whose failure does not end the program. -/
  | attempt (op : SessionOp)
  /-- A look at the id of a field. -/
  | fieldId (typeId : Int32) (name : String)
  /-- A look at the session. -/
  | summary

end

instance : Inhabited ObjectOp := ⟨.schema⟩

instance : Inhabited SessionOp := ⟨.summary⟩

end ObjectWire
