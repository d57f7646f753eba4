import ObjectWire.ObjectWriter

/-!
# Running programs

What each call of a program does.  Every function here is given `rec`, the way to write a value with
everything inside it, and takes care of what stands around the values: the field is begun before its
value is written, so a value that fails leaves its field counted, and a call is entered into the
journal once it has succeeded.  Nothing is undone for a call that fails inside an `attempt`; the places
that it reserved can be filled in later as any others.
-/

namespace ObjectWire

namespace ObjectM

/-- Writes a field through the call for its type, which goes straight to the encoder. -/
def writeTyped (rec : Value → WriteM Unit) (name : String) (v : TypedField) : ObjectM Unit := do
  beginField name
  inSession do
    let encoding := (← WriteM.config).stringEncoding
    match v with
    | .byte v => WriteM.onTape (Encode.byte v)
    | .short v => WriteM.onTape (Encode.short v)
    | .int v => WriteM.onTape (Encode.int v)
    | .long v => WriteM.onTape (Encode.long v)
    | .float v => WriteM.onTape (Encode.float v)
    | .double v => WriteM.onTape (Encode.double v)
    | .char v => WriteM.onTape (Encode.char v)
    | .bool v => WriteM.onTape (Encode.bool v)
    | .string v => WriteM.onTape (Encode.orNull (Encode.string encoding) v)
    | .utf16 v => WriteM.onTape (Encode.orNull (Encode.utf16 encoding) v)
    | .uuid v => WriteM.onTape (Encode.orNull Encode.uuid v)
    | .date v => WriteM.onTape (Encode.orNull Encode.date v)
    | .timestamp v => WriteM.onTape (Encode.orNull Encode.timestamp v)
    | .time v => WriteM.onTape (Encode.orNull Encode.time v)
    | .decimal v => WriteM.onTape (Encode.orNull Encode.decimal v)
    | .bytes v => WriteM.onTape (Encode.orNull (Encode.words .byteArray) v)
    | .ints v => WriteM.onTape (Encode.orNull (Encode.words .intArray) v)
    | .longs v => WriteM.onTape (Encode.orNull (Encode.words .longArray) v)
    | .doubles v => WriteM.onTape (Encode.orNull (Encode.words .doubleArray) v)
    | .strings v =>
      WriteM.onTape (Encode.orNull (Encode.elements .stringArray (Encode.string encoding)) v)
    | .object (some node) => rec (.ref node)
    | .object none => WriteM.onTape Encode.null
    | .enum (some v) => rec (.enum v)
    | .enum none => WriteM.onTape Encode.null

/-- Writes a named field. -/
def writeField (rec : Value → WriteM Unit) (name : String) (v : Value) : ObjectM Unit := do
  beginField name
  inSession (rec v)

/-- Writes a named field with handles of its own. -/
def writeFieldDetached (rec : Value → WriteM Unit) (name : String) (v : Value) : ObjectM Unit := do
  beginField name
  inSession (WriteM.detached (rec v))

/-- Writes a field by its id. -/
def writeFieldId (rec : Value → WriteM Unit) (id : Int32) (fold : Bool) (v : Value) :
    ObjectM Unit := do
  pushField id fold
  inSession (rec v)

/-- Runs a call on the raw section.  The calls that it is among reserve their places from `first` on. -/
def runRaw (rec : Value → WriteM Unit) (first : Nat) : RawOp → ObjectM Unit
  | .u8 v => inSession (WriteM.onTape (Tape.writeWord v))
  | .i16 v => inSession (WriteM.onTape (Tape.writeWord v))
  | .u16 v => inSession (WriteM.onTape (Tape.writeWord v))
  | .i32 v => inSession (WriteM.onTape (Tape.writeWord v))
  | .i64 v => inSession (WriteM.onTape (Tape.writeWord v))
  | .f32 v => inSession (WriteM.onTape (Tape.writeWord v))
  | .f64 v => inSession (WriteM.onTape (Tape.writeWord v))
  | .bool v => inSession (WriteM.onTape (Tape.writeWord v))
  | .bytes v => inSession (WriteM.onTape (Tape.write v))
  | .text v => inSession (WriteM.writePlain (v.elim .null .string))
  | .value v => inSession (rec v)
  | .detached v => inSession (WriteM.detached (rec v))
  | .reserve => reserveSlot
  | .fill slot v => fillSlot (first + slot) v
  | .fillEarlier slot v => fillSlot slot v

/-- Runs calls on the raw section and tells the positions of the places they reserved. -/
def runRaws (rec : Value → WriteM Unit) (ops : List RawOp) : ObjectM (List Nat) := do
  let first := (← writer).slots.length
  Action.forEach (runRaw rec first) ops
  return (← writer).slots.drop first

end ObjectM

mutual

/-- Runs a call on the writer of an object. -/
def ObjectM.runOp (rec : Value → WriteM Unit) : ObjectOp → ObjectM Unit
  | .typed name v => do
    ObjectM.writeTyped rec name v
    ObjectM.noteObject (.typed name v) .none
  | .field name v => do
    ObjectM.writeField rec name v
    ObjectM.noteObject (.field name v) .none
  | .fieldId id v => do
    ObjectM.writeFieldId rec id true v
    ObjectM.noteObject (.fieldId id v) .none
  | .fieldIdUnfolded id v => do
    ObjectM.writeFieldId rec id false v
    ObjectM.noteObject (.fieldIdUnfolded id v) .none
  | .detached name v => do
    ObjectM.writeFieldDetached rec name v
    ObjectM.noteObject (.detached name v) .none
  | .setSchemaId id => do
    ObjectM.updateWriter fun w => { w with schemaId := id }
    ObjectM.noteObject (.setSchemaId id) .none
  | .schema => do
    ObjectM.noteObject .schema (.schema (← ObjectM.schema))
  | .raw ops => do
    ObjectM.enterRaw
    let positions ← ObjectM.runRaws rec ops
    ObjectM.noteObject (.raw ops) (.positions positions)
  | .session ops => do
    ObjectM.inSession (WriteM.runOps rec ops)
    ObjectM.noteObject (.session ops) .none
  | .attempt op => do
    let result ← Action.attempt (ObjectM.runOp rec op)
    ObjectM.noteObject (.attempt op) (.ofAttempt result)

/-- Runs calls on the writer of an object. -/
def ObjectM.runOps (rec : Value → WriteM Unit) : List ObjectOp → ObjectM Unit
  | [] => pure ()
  | op :: ops => do
    ObjectM.runOp rec op
    ObjectM.runOps rec ops

/-- Runs a call on a session. -/
def WriteM.runOp (rec : Value → WriteM Unit) : SessionOp → WriteM Unit
  | .value v => do
    rec v
    WriteM.noteSession (.value v) .none
  | .detached v => do
    WriteM.detached (rec v)
    WriteM.noteSession (.detached v) .none
  | .object node => do
    rec (.ref node)
    WriteM.noteSession (.object node) .none
  | .bytes v => do
    WriteM.onTape (Tape.write v)
    WriteM.noteSession (.bytes v) .none
  | .begin typeId inlineName userType ops => do
    let written ← WriteM.writeFramed typeId inlineName (ObjectM.runOps rec ops) userType
    WriteM.noteSession (.begin typeId inlineName userType ops) (written.elim .none .written)
  | .attempt op => do
    let result ← Action.attempt (WriteM.runOp rec op)
    WriteM.noteSession (.attempt op) (.ofAttempt result)
  | .fieldId typeId name => do
    let id ← Action.read (·.service.fieldId? typeId name)
    WriteM.noteSession (.fieldId typeId name) (id.elim .none .fieldId)
  | .summary => do
    WriteM.noteSession .summary (.text (← Action.read Session.summary))

/-- Runs calls on a session. -/
def WriteM.runOps (rec : Value → WriteM Unit) : List SessionOp → WriteM Unit
  | [] => pure ()
  | op :: ops => do
    WriteM.runOp rec op
    WriteM.runOps rec ops

end

end ObjectWire
