import ObjectWire.Error
import ObjectWire.Program

/-!
# Journals

A journal lists what the programs of a write did, in the order in which it was done: each call once it
has succeeded, with what could be seen then, and the points at which a programmed object was entered or
replaced.
-/

namespace ObjectWire

/-- Summary of a finished object. -/
structure WrittenObject where
  /-- Position of its header. -/
  start : Nat
  /-- Number of its bytes, from header to footer. -/
  length : Nat
  /-- Its schema id, zero if it has no field. -/
  schemaId : Int32
  /-- Number of its fields. -/
  fieldCount : Nat
deriving DecidableEq, Repr, Inhabited

/-- The result of a call, if it has one to show. -/
inductive Outcome where
  | none
  /-- The error of a call that was allowed to fail. -/
  | failed (e : Error)
  | written (o : WrittenObject)
  | schema (s : Schema)
  /-- Positions of the places reserved in a raw section. -/
  | positions (ps : List Nat)
  | fieldId (id : Int32)
  | text (s : String)
deriving DecidableEq, Repr

/-- The outcome of a call that was allowed to fail. -/
def Outcome.ofAttempt : Except Error Unit → Outcome
  | .ok () => .none
  | .error e => .failed e

/-- A line of a journal. -/
inductive JournalEntry where
  /-- A call on a session, with the position and the number of handles after it. -/
  | session (op : SessionOp) (position handles : Nat) (outcome : Outcome)
  /-- A call on an object's writer, with the position, the number of handles, the number of fields and
      the schema id after it. -/
  | object (op : ObjectOp) (position handles fieldCount : Nat) (schemaId : Int32)
      (outcome : Outcome)
  /-- A programmed object begins to write itself. -/
  | entered (node : NodeId) (start : Nat) (typeId : Int32)
  /-- A programmed object gives way to another value. -/
  | replaced (node : NodeId)

/-- What was done so far, the latest first. -/
abbrev Journal := List JournalEntry

end ObjectWire
