import ObjectWire.Session

/-!
# Object writers

An object is written front to back: room for the header, the type's name if the type is not
registered, the values of the fields one after the other, the raw section, and the footer with the
offsets of the fields.  Only then is the header filled in.  Once the raw section is begun there are no
more fields.

The writer of an object counts its fields; their ids and offsets are the top entries of the session's
field stack, which come off when the writer is done, whether it finished the object or not.
-/

namespace ObjectWire

/-- The writer of one object. -/
structure ObjectWriter where
  /-- Position of the header. -/
  start : Nat
  /-- Position after the header and the inline name. -/
  dataStart : Nat
  /-- Id of the type, by which fields get their ids. -/
  typeId : Int32
  /-- Whether the type's id is written; otherwise its name stands after the header. -/
  registered : Bool
  /-- Id of the fields so far. -/
  schemaId : Int32
  /-- Number of fields so far. -/
  fieldCount : Nat
  /-- Position of the raw section, once it is begun. -/
  rawStart : Option Nat
  /-- Positions of the places reserved in the raw section so far.  Whoever makes the calls keeps them, to
      fill the places in whenever their words are known. -/
  slots : List Nat
deriving DecidableEq, Repr, Inhabited

/-- Leaves four bytes open at the cursor, to be filled in later, and tells where they are. -/
def WriteM.reserveSlot : WriteM Nat := do
  let here ← position
  onTape (Tape.reserve 4)
  onTape (Tape.seek (here + 4))
  return here

/-- An object's writer with the session around it. -/
structure OpenObject where
  writer : ObjectWriter
  session : Session

/-- A step of writing an object. -/
abbrev ObjectM := Action OpenObject

namespace ObjectM

/-- Runs a step of the session around the object. -/
@[inline] def inSession {α : Type} (x : WriteM α) : ObjectM α := fun s =>
  match s with
  | ⟨writer, session⟩ =>
    match x session with
    | (result, session) => (result, ⟨writer, session⟩)

/-- The object's writer. -/
def writer : ObjectM ObjectWriter := Action.read (·.writer)

/-- Changes the object's writer. -/
def updateWriter (f : ObjectWriter → ObjectWriter) : ObjectM Unit :=
  Action.update fun s => { s with writer := f s.writer }

/-- The schema of the fields so far. -/
def schema : ObjectM Schema :=
  Action.read fun s => s.session.fields.schema s.writer.fieldCount

/-- Adds a line about a call on the writer to the journal. -/
def noteObject (op : ObjectOp) (outcome : Outcome) : ObjectM Unit :=
  Action.update fun s =>
    let entry := JournalEntry.object op s.session.tape.cursor s.session.handles.size
      s.writer.fieldCount s.writer.schemaId outcome
    { s with session.journal := entry :: s.session.journal }

/-- Begins a field: refuses it once the raw section is begun or if the object has a field of that id,
    and otherwise puts it on the field stack.  `fold` says whether the schema id takes part. -/
def pushField (id : Int32) (fold : Bool) : ObjectM Unit := do
  let w ← writer
  if w.rawStart.isSome then Action.fail .rawModeActive
  if ← Action.read (·.session.fields.contains w.fieldCount id) then
    Action.fail (.duplicateField id)
  let offset ← inSession (do WriteM.distance w.start (← WriteM.position))
  -- The stack keeps offsets in 32 bits, more than a tape that doubles can hold.
  if UInt32.size ≤ offset then Action.fail (.tooLarge ("field offset " ++ toString offset))
  Action.update fun s =>
    { s with session.fields := s.session.fields.push id (UInt32.ofNat offset) }
  updateWriter fun w =>
    { w with
      schemaId := if fold then SchemaId.push w.schemaId id else w.schemaId
      fieldCount := w.fieldCount + 1 }

/-- Begins a field by its name. -/
def beginField (name : String) : ObjectM Unit := do
  let w ← writer
  if w.rawStart.isSome then Action.fail .rawModeActive
  match ← Action.read (·.session.service.fieldId? w.typeId name) with
  | some id => pushField id true
  | none => Action.fail (.unresolvedField w.typeId name)

/-- Begins the raw section, if it is not begun yet. -/
def enterRaw : ObjectM Unit := do
  let here ← inSession WriteM.position
  updateWriter fun w => { w with rawStart := some (w.rawStart.getD here) }

/-- Leaves a place of four bytes open in the raw section. -/
def reserveSlot : ObjectM Unit := do
  let here ← inSession WriteM.reserveSlot
  updateWriter fun w => { w with slots := w.slots ++ [here] }

/-- Puts a word into one of the places left open, counted from the first. -/
def fillSlot (slot : Nat) (v : Int32) : ObjectM Unit := do
  match (← writer).slots[slot]? with
  | some position => inSession (WriteM.onTape (Tape.patch position (Word.bytes v)))
  | none => Action.stop .outOfRange

end ObjectM

namespace ObjectWriter

/-- Makes room for a header and writes the type's name after it, if one is given. -/
def begin (typeId : Int32) (inlineName : Option String) : WriteM ObjectWriter := do
  let start ← WriteM.position
  WriteM.onTape (Tape.reserve Header.size)
  WriteM.onTape (Tape.seek (start + Header.size))
  match inlineName with
  | some name => WriteM.writePlain (.string name)
  | none => pure ()
  let dataStart ← WriteM.position
  return {
    start, dataStart, typeId
    registered := inlineName.isNone
    schemaId := SchemaId.seed
    fieldCount := 0
    rawStart := none
    slots := [] }

/-- How far a position lies behind the object's start, as a wire word. -/
def relative (w : ObjectWriter) (position : Nat) : WriteM Int32 := do
  let offset ← WriteM.distance w.start position
  Action.ofExcept (wireLength "object" offset)

/-- What the end of an object puts into its header. -/
structure Ending where
  flags : UInt16
  schemaId : Int32
  offset : Int32

/-- Writes what follows the data of an object: the footer, and the place of the raw section behind the
    footer.  An object without fields has no footer, and the header tells the place of the raw
    section. -/
def writeEnding (w : ObjectWriter) (compact : Bool) : WriteM Ending := do
  if w.fieldCount ≠ 0 then
    let offset ← w.relative (← WriteM.position)
    let fields ← Action.read (·.fields)
    let width ← WriteM.onTape (fields.writeFooter w.fieldCount compact)
    let flags := Flag.hasSchema ||| width.flag
    match w.rawStart with
    | some raw =>
      let raw ← w.relative raw
      WriteM.onTape (Tape.writeWord raw)
      return ⟨flags ||| Flag.hasRaw, w.schemaId, offset⟩
    | none => return ⟨flags, w.schemaId, offset⟩
  else
    match w.rawStart with
    | some raw => return ⟨Flag.hasRaw, 0, ← w.relative raw⟩
    | none => return ⟨0, 0, 0⟩

/-- Tells the type service the object's schema, unless it knows one under the id in the header. -/
def registerSchema (w : ObjectWriter) (schemaId : Int32) : WriteM Unit :=
  Action.update fun s =>
    if s.service.hasSchema w.typeId schemaId then s
    else { s with service := s.service.addSchema w.typeId (s.fields.schema w.fieldCount) }

/-- Fills in the hash code: the hash of what lies between header and inline name before it and the
    footer behind it. -/
def writeHash (w : ObjectWriter) (dataEnd : Nat) : WriteM Unit := do
  match ← Action.read (·.tape.slice? w.dataStart dataEnd) with
  | some data =>
    WriteM.onTape (Tape.patch (w.start + Header.hashCodeOffset) (Word.bytes (identityHash data)))
  | none => Action.stop .outOfRange

/-- Writes the footer and fills in the header. -/
def finish (w : ObjectWriter) (userType : Bool) : WriteM WrittenObject := do
  let config ← WriteM.config
  let compact := userType && config.compactFooter
  let dataEnd ← WriteM.position
  let ending ← w.writeEnding compact
  let stop ← WriteM.position
  let totalLength ← w.relative stop
  let header : Header := {
    flags := (if userType then Flag.userType else 0) |||
      (if compact then Flag.compactFooter else 0) ||| ending.flags
    typeId := if w.registered then w.typeId else unregisteredTypeId
    hashCode := 0
    totalLength
    schemaId := ending.schemaId
    offset := ending.offset }
  -- The header goes into the room left for it; the cursor stays behind the object.
  WriteM.onTape (Tape.patch w.start header.bytes)
  if w.fieldCount ≠ 0 then w.registerSchema ending.schemaId
  -- The hash covers the data between header and footer, so it can be taken only now.
  if config.identityHash then w.writeHash dataEnd
  return {
    start := w.start
    length := stop - w.start
    schemaId := ending.schemaId
    fieldCount := w.fieldCount }

/-- The session after a writer is done: its fields are off the stack. -/
def release (w : ObjectWriter) (s : Session) : Session :=
  { s with fields := s.fields.pop w.fieldCount }

end ObjectWriter

/-- Writes an object: begins it, runs its body, and finishes it as a user type or a system type, or
    leaves it unfinished.  However this ends, the writer's fields come off the stack. -/
def WriteM.writeFramed (typeId : Int32) (inlineName : Option String) (body : ObjectM Unit)
    (userType : Option Bool) : WriteM (Option WrittenObject) := do
  let writer ← ObjectWriter.begin typeId inlineName
  fun session =>
    match body ⟨writer, session⟩ with
    | (.error e, ⟨writer, session⟩) => (.error e, writer.release session)
    | (.ok (), ⟨writer, session⟩) =>
      match userType with
      | none => (.ok none, writer.release session)
      | some userType =>
        match writer.finish userType session with
        | (.error e, session) => (.error e, writer.release session)
        | (.ok written, session) => (.ok (some written), writer.release session)

end ObjectWire
