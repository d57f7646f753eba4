import ObjectWire.Program.Run

/-!
# Writing values

`writeWith` writes one value and leaves the values inside it to a function given to it.  `writeDepth`
ties the knot: it writes values nested down to some depth.  Every two levels of nesting put at least
one byte on the tape, so the depth that `writeValue` allows is never the reason for a write to stop.

A user object is written in full the first time and as a reference back after that.  Its type is
resolved in any case; after that the object may give way to another value, which is not asked again if
it is an object itself.
-/

namespace ObjectWire

namespace WriteM

/-- Writes the fields and the raw section of a user object. -/
def writeBody (rec : Value → WriteM Unit) (node : NodeId) : UserObject → ObjectM Unit
  | .dynamic o => do
    Action.forEach (fun (name, v) => ObjectM.writeField rec name v) o.fields
    match o.raw with
    | some raw =>
      ObjectM.enterRaw
      ObjectM.inSession (onTape (Tape.write raw))
    | none => pure ()
  | .programmed o => do
    let w ← ObjectM.writer
    ObjectM.inSession (note (.entered node w.start w.typeId))
    ObjectM.runOps rec o.program

/-- Finds the id of a user object's type. -/
def resolveObject (o : UserObject) : WriteM ResolvedType := do
  let config ← config
  onService (TypeService.resolve o.typeName .object config.failIfUnregistered)

/-- Writes a user object whose type is resolved, in full or as a reference back. -/
def writeResolved (rec : Value → WriteM Unit) (node : NodeId) (o : UserObject)
    (resolved : ResolvedType) : WriteM Unit := do
  if ← writeHandle node then return
  let inlineName := if resolved.registered then none else some o.typeName
  let _ ← writeFramed resolved.typeId inlineName (writeBody rec node o) (some resolved.userType)

/-- Writes a user object, or the value that takes its place. -/
def writeObject (rec : Value → WriteM Unit) (node : NodeId) (o : UserObject) : WriteM Unit := do
  -- The type has to resolve even if another value takes the object's place.
  let resolved ← resolveObject o
  match o.replacement with
  | none => writeResolved rec node o resolved
  | some replacement =>
    note (.replaced node)
    let v ← fun s =>
      let (v, graph) := s.graph.instantiate replacement
      (.ok v, { s with graph })
    match v with
    | .ref other =>
      match ← Action.read (·.graph.object? other) with
      -- An object in the place of another is not asked for a replacement of its own.
      | some o => writeResolved rec other o (← resolveObject o)
      | none => rec v
    | v => rec v

/-- Writes an object array. -/
def writeArray (rec : Value → WriteM Unit) (node : NodeId) (componentType : String)
    (items : List Value) : WriteM Unit := do
  if ← writeHandle node then return
  let config ← config
  writeTag .objectArray
  writeTypeRef componentType .object config.failIfUnregistered
  writeCount "object array" items.length
  Action.forEach rec items

/-- Writes a collection. -/
def writeCollection (rec : Value → WriteM Unit) (node : NodeId) (typeName : String)
    (items : List Value) : WriteM Unit := do
  if ← writeHandle node then return
  let size ← Action.ofExcept (wireLength "collection" items.length)
  let kind ← Action.read (·.service.registry.collectionKind typeName)
  onTape (Encode.collectionHead size kind.code)
  Action.forEach rec items

/-- Writes a map, each key before its value. -/
def writeMap (rec : Value → WriteM Unit) (node : NodeId) (typeName : String)
    (entries : List (Value × Value)) : WriteM Unit := do
  if ← writeHandle node then return
  let size ← Action.ofExcept (wireLength "map" entries.length)
  let kind ← Action.read (·.service.registry.mapKind typeName)
  onTape (Encode.mapHead size kind.code)
  Action.forEach (fun (key, value) => do rec key; rec value) entries

/-- Writes a proxy: its interfaces, then its handler. -/
def writeProxy (rec : Value → WriteM Unit) (interfaces : List String) (handler : Value) :
    WriteM Unit := do
  let config ← config
  onTape (Encode.proxyHead interfaces.length)
  Action.forEach (fun name => writeTypeRef name .proxyInterface config.failIfUnregistered)
    interfaces
  rec handler

/-- Writes a node of the graph. -/
def writeNode (rec : Value → WriteM Unit) (node : NodeId) : Node → WriteM Unit
  | .object o => writeObject rec node o
  | .array componentType items => writeArray rec node componentType items
  | .collection typeName items => writeCollection rec node typeName items
  | .map typeName entries => writeMap rec node typeName entries
  | .proxy interfaces handler => writeProxy rec interfaces handler

/-- Writes a value, given how to write the values inside it. -/
def writeWith (rec : Value → WriteM Unit) : Value → WriteM Unit
  | .plain v => writePlain v
  | .enum v => writeEnum v
  | .enumArray typeName items => writeEnumArray typeName items
  | .binaryEnum v => writeBinaryEnum v
  | .classRef typeName => writeClassRef typeName
  | .ref node => do
    match ← Action.read (·.graph.node? node) with
    | some n => writeNode rec node n
    | none => Action.stop .outOfRange

/-- Writes a value nested down to some depth. -/
def writeDepth : (depth : Nat) → Value → WriteM Unit
  | 0, _ => Action.stop .tooDeep
  | depth + 1, v => writeWith (writeDepth depth) v

/-- More levels than values can be nested on a tape: of two levels in a row at least one puts bytes on
    the tape. -/
def depthOn (tape : Tape) : Nat := 2 * max tape.growth.largest tape.capacity + 4

/-- Writes a value. -/
def writeValue (v : Value) : WriteM Unit := fun s => writeDepth (depthOn s.tape) v s

/-- Runs calls on a session one after the other. -/
def runProgram (ops : List SessionOp) : WriteM Unit := runOps writeValue ops

end WriteM

end ObjectWire
