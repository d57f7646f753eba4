import ObjectWire.Encode.Plain
import ObjectWire.FieldStack
import ObjectWire.Graph
import ObjectWire.HandleTable
import ObjectWire.Journal
import ObjectWire.TypeService

/-!
# Sessions

A session is one root write in progress.  It holds the tape, the fields of the open objects, the type
service, the graph, and the handles: where each object, object array, collection and map was written
first, so that writing it again becomes a reference back to that place.
-/

namespace ObjectWire

/-- One root write in progress. -/
structure Session where
  tape : Tape
  fields : FieldStack
  service : TypeService
  handles : HandleTable
  graph : Graph
  journal : Journal

/-- A step of a write. -/
abbrev WriteM := Action Session

namespace Session

/-- A line about the session for its developers. -/
def summary (s : Session) : String :=
  "WriteSession \x7b position: " ++ toString s.tape.cursor ++ ", open_fields: " ++
    toString s.fields.size ++ ", handles: " ++ toString s.handles.size ++ ", .. \x7d"

end Session

namespace WriteM

/-- Runs an action on the tape. -/
@[inline] def onTape {α : Type} (x : Action Tape α) : WriteM α := fun s =>
  match s with
  | ⟨tape, fields, service, handles, graph, journal⟩ =>
    match x tape with
    | (result, tape) => (result, ⟨tape, fields, service, handles, graph, journal⟩)

/-- Runs an action on the type service. -/
@[inline] def onService {α : Type} (x : Action TypeService α) : WriteM α := fun s =>
  match s with
  | ⟨tape, fields, service, handles, graph, journal⟩ =>
    match x service with
    | (result, service) => (result, ⟨tape, fields, service, handles, graph, journal⟩)

/-- The options in force. -/
def config : WriteM Config := Action.read (·.service.config)

/-- The position of the tape's cursor. -/
def position : WriteM Nat := Action.read (·.tape.cursor)

/-- Adds a line to the journal. -/
def note (entry : JournalEntry) : WriteM Unit :=
  Action.update fun s => { s with journal := entry :: s.journal }

/-- Adds a line about a session call to the journal. -/
def noteSession (op : SessionOp) (outcome : Outcome) : WriteM Unit :=
  Action.update fun s =>
    { s with journal := .session op s.tape.cursor s.handles.size outcome :: s.journal }

/-- How far one position lies before another.  Positions only grow during a write, so the other order
    is out of range. -/
def distance (start stop : Nat) : WriteM Nat :=
  if start ≤ stop then pure (stop - start) else Action.stop .outOfRange

/-- Records the cursor's position for a node and answers no; or, if the node was written before, writes
    a reference back to it and answers yes. -/
def writeHandle (node : NodeId) : WriteM Bool := do
  let here ← position
  let seen ← fun s =>
    match s.handles.put node here with
    | (seen, handles) => (.ok seen, { s with handles })
  match seen with
  | none => return false
  | some first =>
    let delta ← Action.ofExcept (wireLength "handle offset" (← distance first here))
    onTape (Encode.handle delta)
    return true

/-- Runs a write with handles of its own.  The handles from before are in force again afterwards,
    whether the write succeeds or not. -/
def detached {α : Type} (x : WriteM α) : WriteM α := fun s =>
  let outer := s.handles
  match x { s with handles := .empty } with
  | (result, s) => (result, { s with handles := outer })

/-- Writes a plain value. -/
def writePlain (v : Plain) : WriteM Unit := do
  let config ← config
  onTape (Encode.plain config.stringEncoding v)

/-- Writes a reference to a type: its id if it is registered, and otherwise the id zero and its
    name. -/
def writeTypeRef (name : String) (kind : TypeKind) (failIfUnregistered : Bool) : WriteM Unit := do
  let resolved ← onService (TypeService.resolve name kind failIfUnregistered)
  if resolved.registered then onTape (Tape.writeWord resolved.typeId)
  else
    onTape (Tape.writeWord unregisteredTypeId)
    writePlain (.string name)

/-- Writes a tag byte. -/
def writeTag (tag : Tag) : WriteM Unit := onTape (Tape.writeWord tag.code)

/-- Writes a number of items. -/
def writeCount (what : String) (count : Nat) : WriteM Unit := do
  let count ← Action.ofExcept (wireLength what count)
  onTape (Tape.writeWord count)

/-- Writes a constant of an enumeration. -/
def writeEnum (v : EnumConstant) : WriteM Unit := do
  let config ← config
  writeTag .enum
  writeTypeRef v.typeName .enum config.failIfUnregistered
  onTape (Tape.writeWord v.ordinal)

/-- Writes an array of constants of an enumeration. -/
def writeEnumArray (typeName : String) (items : List (Option EnumConstant)) : WriteM Unit := do
  let config ← config
  writeTag .enumArray
  writeTypeRef typeName .enum config.failIfUnregistered
  writeCount "enum array" items.length
  Action.forEach (fun item => item.elim (onTape Encode.null) writeEnum) items

/-- Writes a constant of an enumeration whose type id is known. -/
def writeBinaryEnum (v : BinaryEnum) : WriteM Unit := do
  onTape (Encode.binaryEnumHead v.typeId)
  if v.typeId = unregisteredTypeId then
    match v.typeName with
    | some name => writePlain (.string name)
    | none => Action.fail (.unresolved "<unnamed binary enum>")
  onTape (Tape.writeWord v.ordinal)

/-- Writes a type as a value.  A type that is not registered is always written by name. -/
def writeClassRef (typeName : String) : WriteM Unit := do
  writeTag .classRef
  writeTypeRef typeName .classRef false

end WriteM

end ObjectWire
