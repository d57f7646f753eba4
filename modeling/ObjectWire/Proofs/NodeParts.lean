import ObjectWire.Proofs.InRange
import ObjectWire.Proofs.SessionImage

/-!
# Nodes taken apart

A node is written in two parts, what stands before its values and the values themselves, and all nodes but
proxies are written in full only once (`WriteM.writeOnce`).  Containers differ in their heads alone
(`WriteM.writeHead`), so what is to be said of all of them is said of one head and one list of values; only
objects have a frame that is closed behind their values.
-/

namespace ObjectWire

open ObjectWire.Action

namespace WriteM

/-- Writes a reference back from one place to another. -/
def writeBack (first here : Nat) : WriteM Unit := do
  let delta ← Action.ofExcept (wireLength "handle offset" (← distance first here))
  onTape (Encode.handle delta)

/-- Writes a reference back to a node that was written before.  A node that was not is recorded, and then
    written. -/
def writeOnce (node : NodeId) (body : WriteM Unit) : WriteM Unit := do
  if ← writeHandle node then return
  body

/-- Writes what stands before the values of a container. -/
def writeHead : Node → WriteM Unit
  | .object _ => pure ()
  | .array componentType items => do
    let config ← config
    writeTag .objectArray
    writeTypeRef componentType .object config.failIfUnregistered
    writeCount "object array" items.length
  | .collection typeName items => do
    let size ← Action.ofExcept (wireLength "collection" items.length)
    let kind ← Action.read (·.service.registry.collectionKind typeName)
    onTape (Encode.collectionHead size kind.code)
  | .map typeName entries => do
    let size ← Action.ofExcept (wireLength "map" entries.length)
    let kind ← Action.read (·.service.registry.mapKind typeName)
    onTape (Encode.mapHead size kind.code)
  | .proxy interfaces _ => do
    let config ← config
    onTape (Encode.proxyHead interfaces.length)
    Action.forEach (fun name => writeTypeRef name .proxyInterface config.failIfUnregistered) interfaces

/-- Writes the head of a container and then its values. -/
def writeContents (rec : Value → WriteM Unit) (n : Node) : WriteM Unit := do
  writeHead n
  Action.forEach rec n.values

variable (rec : Value → WriteM Unit) (node : NodeId)

theorem writeNode_array (componentType : String) (items : List Value) :
    writeNode rec node (.array componentType items) =
      writeOnce node (writeContents rec (.array componentType items)) := by
  simp only [writeNode, writeArray, writeOnce, writeContents, writeHead, Node.values, bind_assoc]

theorem writeNode_collection (typeName : String) (items : List Value) :
    writeNode rec node (.collection typeName items) =
      writeOnce node (writeContents rec (.collection typeName items)) := by
  simp only [writeNode, writeCollection, writeOnce, writeContents, writeHead, Node.values, bind_assoc]

theorem writeNode_map (typeName : String) (entries : List (Value × Value)) :
    writeNode rec node (.map typeName entries) =
      writeOnce node (writeContents rec (.map typeName entries)) := by
  simp only [writeNode, writeMap, writeOnce, writeContents, writeHead, Node.values, bind_assoc,
    forEach_pairs]

/-- A proxy is the only node that is written anew whenever it is met. -/
theorem writeNode_proxy (interfaces : List String) (handler : Value) :
    writeNode rec node (.proxy interfaces handler) = writeContents rec (.proxy interfaces handler) := by
  simp only [writeNode, writeProxy, writeContents, writeHead, Node.values, bind_assoc,
    forEach_singleton]

/-- Writes a user object whose type is resolved, in full. -/
def writeWhole (node : NodeId) (o : UserObject) (resolved : ResolvedType) : WriteM Unit := do
  let inlineName := if resolved.registered then none else some o.typeName
  let _ ← writeFramed resolved.typeId inlineName (writeBody rec node o) (some resolved.userType)

theorem writeResolved_eq (o : UserObject) (resolved : ResolvedType) :
    writeResolved rec node o resolved = writeOnce node (writeWhole rec node o resolved) := rfl

/-- Writes a node of a kind that has no replacements, and marks where a body is entered that is entered
    once only. -/
def markedNode (mark : WriteM Unit → WriteM Unit) (rec : Value → WriteM Unit) (node : NodeId) :
    Node → WriteM Unit
  | .object o => resolveObject o >>= fun resolved => writeOnce node (mark (writeWhole rec node o resolved))
  | .proxy interfaces handler => writeContents rec (.proxy interfaces handler)
  | n => writeOnce node (mark (writeContents rec n))

/-- No value takes the place of a dynamic object. -/
theorem writeNode_dynamic (d : DynamicObject) :
    writeNode rec node (.object (.dynamic d)) =
      resolveObject (.dynamic d) >>= fun resolved =>
        writeOnce node (writeWhole rec node (.dynamic d) resolved) := rfl

/-- Unmarked, that is what is written of a node, unless the node is an object of another kind. -/
theorem writeNode_eq {n : Node} (hdynamic : ∀ o, n = .object o → ∃ d, o = .dynamic d) :
    writeNode rec node n = markedNode id rec node n := by
  cases n with
  | object o =>
    obtain ⟨d, rfl⟩ := hdynamic o rfl
    exact writeNode_dynamic rec node d
  | array componentType items => exact writeNode_array rec node componentType items
  | collection typeName items => exact writeNode_collection rec node typeName items
  | map typeName entries => exact writeNode_map rec node typeName entries
  | proxy interfaces handler => exact writeNode_proxy rec node interfaces handler

variable {rec node} {s s' : Session}

/-- A node that was seen is referred back to, and one that was not is recorded. -/
theorem writeHandle_run (node : NodeId) (s : Session) :
    (writeHandle node).run s = match s.handles.find? node with
      | none => (.ok false, recorded node s)
      | some first => (writeBack first s.tape.cursor >>= fun _ => pure true).run (recorded node s) := by
  -- The node is put into the table first, whether it was there or not.
  have hput : (writeHandle node).run s = Action.run (match (s.handles.put node s.tape.cursor).1 with
      | none => pure false
      | some first => do
        let delta ← Action.ofExcept (wireLength "handle offset" (← distance first s.tape.cursor))
        onTape (Encode.handle delta)
        pure true) (recorded node s) := rfl
  rw [hput, HandleTable.put_fst]
  cases s.handles.find? node with
  | none => rfl
  | some first => simp only [writeBack, bind_assoc]

/-- A node met for the first time is recorded and written in full. -/
theorem writeOnce_new {body : WriteM Unit} (h : s.handles.find? node = none) :
    (writeOnce node body).run s = body.run (recorded node s) := by
  rw [writeOnce, run_bind, writeHandle_run, h]
  rfl

/-- A node met again becomes a back reference to where it was met first; it is still counted. -/
theorem writeOnce_seen {body : WriteM Unit} {first : Nat} (h : s.handles.find? node = some first) :
    (writeOnce node body).run s = (writeBack first s.tape.cursor).run (recorded node s) := by
  rw [writeOnce, run_bind, writeHandle_run, h]
  simp only [run_bind]
  cases (writeBack first s.tape.cursor).run (recorded node s) with
  | mk result s' => cases result <;> rfl

/-- A node is written in full only if it was not written before. -/
theorem writeOnce_yields {body : WriteM Unit} {u : Unit} (h : (writeOnce node body).Yields s u s') :
    (∃ first, s.handles.find? node = some first) ∨
      s.handles.find? node = none ∧ body.Yields (recorded node s) u s' := by
  obtain ⟨seen, s₁, hseen, h⟩ := (yields_bind ..).mp h
  obtain ⟨hnone, rfl, rfl⟩ | ⟨first, hfind, -⟩ := writeHandle_cases hseen
  · exact .inr ⟨hnone, h⟩
  · exact .inl ⟨first, hfind⟩

/-- An object resolves as its type name does. -/
theorem resolveObject_yields {o : UserObject} {resolved : ResolvedType}
    (h : (resolveObject o).Yields s resolved s') :
    ∃ r, (Registry.resolve o.typeName .object s.service.config.failIfUnregistered).Yields
        s.service.registry resolved r ∧ s' = { s with service.registry := r } := by
  simp only [resolveObject, yields_bind, yields_config, yields_onService] at h
  obtain ⟨_, _, ⟨rfl, rfl⟩, service, hservice, rfl⟩ := h
  obtain ⟨r, hr, rfl⟩ := (TypeService.yields_onRegistry ..).mp hservice
  exact ⟨r, hr, rfl⟩

end WriteM

end ObjectWire
