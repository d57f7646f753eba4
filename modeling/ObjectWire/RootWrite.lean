import ObjectWire.Write

/-!
# Root writes

A root write encodes one value with no reference to anything written before.  It goes to the cursor of
a given tape (`encodeInto`), to a scratch tape that is used again and again (`encodeWith`), or to a tape
of its own (`encode`).  Either the whole value is written or the tape is left as it was.
-/

namespace ObjectWire

/-- What outlives a root write: the type service, the graph, and the journal. -/
structure World where
  service : TypeService
  graph : Graph := {}
  journal : Journal := []

namespace World

/-- The start of a root write on a tape. -/
def session (w : World) (tape : Tape) (fields : FieldStack) : Session where
  tape
  fields
  service := w.service
  handles := .empty
  graph := w.graph
  journal := w.journal

/-- What a session leaves behind. -/
def ofSession (s : Session) : World := ⟨s.service, s.graph, s.journal⟩

end World

/-- A tape with the fields of its open objects. -/
structure Scratch where
  tape : Tape
  fields : FieldStack := {}
deriving Inhabited

namespace Scratch

/-- A scratch tape of some capacity. -/
def new (capacity : Nat) : Scratch := { tape := Tape.new .heap capacity }

/-- The scratch tape with its contents forgotten. -/
def reset (s : Scratch) : Scratch := { tape := { s.tape with cursor := 0 }, fields := {} }

end Scratch

/-- A root write on some tape. -/
abbrev RootM := Action (World × Scratch)

/-- Runs a session on a tape. -/
def RootM.ofSession {α : Type} (x : WriteM α) : RootM α := fun (world, scratch) =>
  match x (world.session scratch.tape scratch.fields) with
  | (result, s) => (result, (World.ofSession s, ⟨s.tape, s.fields⟩))

/-- Writes a value at the cursor and tells where it starts.  If that fails the cursor goes back and the
    fields of objects left open come off the stack. -/
def encodeInto (v : Value) : RootM Nat := fun (world, scratch) =>
  let start := scratch.tape.cursor
  let depth := scratch.fields.size
  match RootM.ofSession (WriteM.writeValue v) (world, scratch) with
  | (.ok (), state) => (.ok start, state)
  | (.error e, (world, scratch)) =>
    (.error e, (world, {
      tape := { scratch.tape with cursor := start }
      fields := scratch.fields.pop (scratch.fields.size - depth) }))

/-- Writes a value to a scratch tape, whose earlier contents are forgotten, and tells its bytes.  If
    that fails the scratch tape is left empty. -/
def encodeWith (v : Value) : RootM Bytes := fun (world, scratch) =>
  match RootM.ofSession (WriteM.writeValue v) (world, scratch.reset) with
  | (.ok (), (world, scratch)) =>
    match scratch.tape.written? with
    | some bytes => (.ok bytes, (world, scratch))
    | none => (.error .outOfRange, (world, scratch))
  | (.error e, (world, scratch)) => (.error e, (world, scratch.reset))

/-- The bytes of a value. -/
def encode (v : Value) : Action World Bytes := fun world =>
  match encodeWith v (world, Scratch.new world.service.config.initialCapacity) with
  | (result, (world, _)) => (result, world)

end ObjectWire
