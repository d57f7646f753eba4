import ObjectWire.Proofs.Finish
import ObjectWire.Proofs.SideBySide
import ObjectWire.Proofs.Untaught

/-!
# A ledger of finished objects

A recorded write keeps a ledger beside the session: whenever a writer has finished its object, the object
is entered, with its schema and whether that was added to the registry (`Finished`).  The ledger is never
read, so a recorded write is the write itself (`Books`).  What it has of the schemas is complete: those that
a write leaves are those from before it with the ledger's added (`RecordM.recorded_writeDepth`).
-/

namespace ObjectWire

open ObjectWire.Action

/-- An object that was finished. -/
structure Finished where
  typeId : Int32
  /-- The fields of the object. -/
  schema : Schema
  /-- Whether the schema was added when the object was finished. -/
  added : Bool
deriving DecidableEq, Repr

/-- The schemas after an object was finished. -/
def Finished.file (f : Finished) (schemas : Dict (Int32 × Int32) Schema) :
    Dict (Int32 × Int32) Schema :=
  if f.added then schemas.insertNew (f.typeId, f.schema.id) f.schema else schemas

/-- What is entered for an object that is finished in a session.  Its schema is added if it has fields and
    none is known under the schema id in the header. -/
def ObjectWriter.entry (w : ObjectWriter) (s : Session) : Finished where
  typeId := w.typeId
  schema := s.fields.schema w.fieldCount
  added := w.fieldCount ≠ 0 && s.service.keepsSchemas && !s.service.hasSchema w.typeId w.schemaId

/-- An action with a ledger, the latest entry first. -/
abbrev RecordM (σ : Type) := Action (σ × List Finished)

namespace RecordM

variable {σ α : Type}

/-- An action that finishes no object. -/
def aside (x : Action σ α) : RecordM σ α := fun (s, ledger) =>
  match x s with
  | (result, s) => (result, (s, ledger))

/-- Runs a step of the session around the object. -/
def inSession (x : RecordM Session α) : RecordM OpenObject α := fun (o, ledger) =>
  match x (o.session, ledger) with
  | (result, (session, ledger)) => (result, (⟨o.writer, session⟩, ledger))

/-- Runs a write with handles of its own. -/
def detached (x : RecordM Session α) : RecordM Session α := fun (s, ledger) =>
  match x ({ s with handles := .empty }, ledger) with
  | (result, (s', ledger)) => (result, ({ s' with handles := s.handles }, ledger))

/-- Finishes an object and enters it. -/
def finish (w : ObjectWriter) (userType : Bool) : RecordM Session WrittenObject := fun (s, ledger) =>
  match w.finish userType s with
  | (.error e, s') => (.error e, (s', ledger))
  | (.ok written, s') => (.ok written, (s', w.entry s :: ledger))

/-- Writes an object. -/
def writeFramed (typeId : Int32) (inlineName : Option String) (body : RecordM OpenObject Unit)
    (userType : Option Bool) : RecordM Session (Option WrittenObject) := do
  let writer ← aside (ObjectWriter.begin typeId inlineName)
  fun (session, ledger) =>
    match body (⟨writer, session⟩, ledger) with
    | (.error e, (⟨writer, session⟩, ledger)) => (.error e, (writer.release session, ledger))
    | (.ok (), (⟨writer, session⟩, ledger)) =>
      match userType with
      | none => (.ok none, (writer.release session, ledger))
      | some userType =>
        match finish writer userType (session, ledger) with
        | (.error e, (session, ledger)) => (.error e, (writer.release session, ledger))
        | (.ok written, (session, ledger)) => (.ok (some written), (writer.release session, ledger))

/-- Writes a node in full unless it was written before. -/
def writeOnce (node : NodeId) (body : RecordM Session Unit) : RecordM Session Unit := do
  if ← aside (WriteM.writeHandle node) then return
  body

section

variable (rec : Value → RecordM Session Unit)

/-- Writes the value of a field. -/
def content : ObjectOp → RecordM Session Unit
  | .typed _ v =>
    match v.toValue with
    | .plain p => aside (WriteM.writePlain p)
    | v => rec v
  | .field _ v | .fieldId _ v | .fieldIdUnfolded _ v => rec v
  | .detached _ v => detached (rec v)
  | .setSchemaId _ | .schema | .raw _ | .session _ | .attempt _ => pure ()

/-- Runs a call for a field. -/
def runField (op : ObjectOp) : RecordM OpenObject Unit := do
  aside op.beginning
  inSession (content rec op)
  aside (ObjectM.noteObject op .none)

/-- Runs a call on a raw section, whose calls reserve their places from `first` on. -/
def runRaw (first : Nat) : RawOp → RecordM OpenObject Unit
  | .value v => inSession (rec v)
  | .detached v => inSession (detached (rec v))
  | op => aside (ObjectM.runRaw (fun _ => pure ()) first op)

/-- Runs calls on a raw section and tells the positions of the places they reserved. -/
def runRaws (ops : List RawOp) : RecordM OpenObject (List Nat) := do
  let first := (← aside ObjectM.writer).slots.length
  Action.forEach (runRaw rec first) ops
  return (← aside ObjectM.writer).slots.drop first

end

mutual

/-- Runs a call on the writer of an object. -/
def runObjectOp (rec : Value → RecordM Session Unit) : ObjectOp → RecordM OpenObject Unit
  | .typed name v => runField rec (.typed name v)
  | .field name v => runField rec (.field name v)
  | .fieldId id v => runField rec (.fieldId id v)
  | .fieldIdUnfolded id v => runField rec (.fieldIdUnfolded id v)
  | .detached name v => runField rec (.detached name v)
  | .setSchemaId id => aside (ObjectM.runOp (fun _ => pure ()) (.setSchemaId id))
  | .schema => aside (ObjectM.runOp (fun _ => pure ()) .schema)
  | .raw ops => do
    aside ObjectM.enterRaw
    let positions ← runRaws rec ops
    aside (ObjectM.noteObject (.raw ops) (.positions positions))
  | .session ops => do
    inSession (runSessionOps rec ops)
    aside (ObjectM.noteObject (.session ops) .none)
  | .attempt op => do
    let result ← Action.attempt (runObjectOp rec op)
    aside (ObjectM.noteObject (.attempt op) (.ofAttempt result))

/-- Runs calls on the writer of an object. -/
def runObjectOps (rec : Value → RecordM Session Unit) : List ObjectOp → RecordM OpenObject Unit
  | [] => pure ()
  | op :: ops => do
    runObjectOp rec op
    runObjectOps rec ops

/-- Runs a call on a session. -/
def runSessionOp (rec : Value → RecordM Session Unit) : SessionOp → RecordM Session Unit
  | .value v => do
    rec v
    aside (WriteM.noteSession (.value v) .none)
  | .detached v => do
    detached (rec v)
    aside (WriteM.noteSession (.detached v) .none)
  | .object node => do
    rec (.ref node)
    aside (WriteM.noteSession (.object node) .none)
  | .begin typeId inlineName userType ops => do
    let written ← writeFramed typeId inlineName (runObjectOps rec ops) userType
    aside (WriteM.noteSession (.begin typeId inlineName userType ops) (written.elim .none .written))
  | .attempt op => do
    let result ← Action.attempt (runSessionOp rec op)
    aside (WriteM.noteSession (.attempt op) (.ofAttempt result))
  | .bytes v => aside (WriteM.runOp (fun _ => pure ()) (.bytes v))
  | .fieldId typeId name => aside (WriteM.runOp (fun _ => pure ()) (.fieldId typeId name))
  | .summary => aside (WriteM.runOp (fun _ => pure ()) .summary)

/-- Runs calls on a session. -/
def runSessionOps (rec : Value → RecordM Session Unit) : List SessionOp → RecordM Session Unit
  | [] => pure ()
  | op :: ops => do
    runSessionOp rec op
    runSessionOps rec ops

end

section

variable (rec : Value → RecordM Session Unit)

/-- Writes the fields and the raw section of a user object. -/
def writeBody (node : NodeId) : UserObject → RecordM OpenObject Unit
  | .dynamic o => do
    Action.forEach (fun (name, v) => do aside (ObjectM.beginField name); inSession (rec v)) o.fields
    match o.raw with
    | some raw =>
      aside ObjectM.enterRaw
      aside (ObjectM.inSession (WriteM.onTape (Tape.write raw)))
    | none => pure ()
  | .programmed o => do
    let w ← aside ObjectM.writer
    aside (ObjectM.inSession (WriteM.note (.entered node w.start w.typeId)))
    runObjectOps rec o.program

/-- Writes a user object whose type is resolved, in full or as a reference back. -/
def writeResolved (node : NodeId) (o : UserObject) (resolved : ResolvedType) : RecordM Session Unit :=
  writeOnce node do
    let inlineName := if resolved.registered then none else some o.typeName
    let _ ← writeFramed resolved.typeId inlineName (writeBody rec node o) (some resolved.userType)

/-- Writes a user object, or the value that takes its place. -/
def writeObject (node : NodeId) (o : UserObject) : RecordM Session Unit := do
  let resolved ← aside (WriteM.resolveObject o)
  match o.replacement with
  | none => writeResolved rec node o resolved
  | some replacement =>
    aside (WriteM.note (.replaced node))
    let v ← aside fun s : Session =>
      let (v, graph) := s.graph.instantiate replacement
      (.ok v, { s with graph })
    match v with
    | .ref other =>
      match ← aside (Action.read fun s : Session => s.graph.object? other) with
      | some o => writeResolved rec other o (← aside (WriteM.resolveObject o))
      | none => rec v
    | v => rec v

/-- Writes the head of a container and then its values. -/
def writeContents (n : Node) : RecordM Session Unit := do
  aside (WriteM.writeHead n)
  Action.forEach rec n.values

/-- Writes a node of the graph. -/
def writeNode (node : NodeId) : Node → RecordM Session Unit
  | .object o => writeObject rec node o
  | .proxy interfaces handler => writeContents rec (.proxy interfaces handler)
  | n => writeOnce node (writeContents rec n)

/-- Writes a value, given how to write the values inside it. -/
def writeWith : Value → RecordM Session Unit
  | .ref node => do
    match ← aside (Action.read fun s : Session => s.graph.node? node) with
    | some n => writeNode rec node n
    | none => Action.stop .outOfRange
  | v => aside (WriteM.writeWith (fun _ => pure ()) v)

end

/-- Writes a value nested down to some depth. -/
def writeDepth : (depth : Nat) → Value → RecordM Session Unit
  | 0, _ => Action.stop .tooDeep
  | depth + 1, v => writeWith (writeDepth depth) v

/-- Writes a value. -/
def writeValue (v : Value) : RecordM Session Unit := fun s => writeDepth (WriteM.depthOn s.1.tape) v s

end RecordM

/-- A session, or an object with the session around it, beside itself with a ledger: the ledger's schemas,
    added to those from the start, are the schemas by now. -/
def Books {σ : Type} (base : Dict (Int32 × Int32) Schema) (service : σ → TypeService) (s : σ)
    (p : σ × List Finished) : Prop :=
  p.1 = s ∧ (service s).registry.schemas = p.2.foldr Finished.file base

/-- The recorded action goes as the action itself, and its books are kept. -/
abbrev Action.Recorded {σ α : Type} (base : Dict (Int32 × Int32) Schema) (service : σ → TypeService)
    (x : Action σ α) (y : RecordM σ α) : Prop := Mirrors (fun _ => False) (Books base service) x y

/-- The recorded step of a session. -/
abbrev WriteM.Recorded {α : Type} (base : Dict (Int32 × Int32) Schema) (x : WriteM α)
    (y : RecordM Session α) : Prop := Action.Recorded base (·.service) x y

/-- The recorded step of a writer. -/
abbrev ObjectM.Recorded {α : Type} (base : Dict (Int32 × Int32) Schema) (x : ObjectM α)
    (y : RecordM OpenObject α) : Prop := Action.Recorded base (·.session.service) x y

namespace RecordM

variable {σ α : Type} {base : Dict (Int32 × Int32) Schema}

/-- A step that adds no schema needs no entry. -/
theorem recorded_aside {service : σ → TypeService} {x : Action σ α}
    (h : ∀ s, (service (x s).2).registry.schemas = (service s).registry.schemas) :
    Action.Recorded base service x (aside x) := by
  intro s p hp
  obtain ⟨_, ledger⟩ := p
  obtain ⟨rfl, hfiled⟩ := hp
  exact .inr ⟨rfl, rfl, (h _).trans hfiled⟩

/-- A write that leaves the schemas alone is recorded with nothing entered. -/
theorem recorded_quiet {x : WriteM α} (h : Within Session.Untaught x) :
    WriteM.Recorded base x (aside x) := recorded_aside h

theorem recorded_still {x : ObjectM α} (h : Within OpenObject.Untaught x) :
    ObjectM.Recorded base x (aside x) := recorded_aside h

/-- A recorded run differs from the run itself in nothing but its ledger. -/
theorem eq_of_matches {service : σ → TypeService} {a : Except Stop α × σ}
    {b : Except Stop α × (σ × List Finished)}
    (h : Matches (fun _ => False) (Books base service) a b) :
    ∃ ledger, b = (a.1, (a.2, ledger)) ∧
      (service a.2).registry.schemas = ledger.foldr Finished.file base := by
  obtain ⟨result, s⟩ := a
  obtain ⟨result', s', ledger⟩ := b
  obtain ⟨_, -, hfalse⟩ | ⟨hresult, hs, hfiled⟩ := h
  · exact hfalse.elim
  · obtain rfl : result' = result := hresult
    obtain rfl : s' = s := hs
    exact ⟨ledger, rfl, hfiled⟩

/-- A recorded write is recorded in a writer too, where the session is only a part of the state. -/
theorem recorded_inSession {x : WriteM α} {y : RecordM Session α} (hxy : WriteM.Recorded base x y) :
    ObjectM.Recorded base (ObjectM.inSession x) (inSession y) := by
  intro _ p hp
  obtain ⟨o, ledger⟩ := p
  obtain ⟨rfl, hfiled⟩ := hp
  have hstart : Books base (·.service) o.session (o.session, ledger) := ⟨rfl, hfiled⟩
  obtain ⟨ledger', hrun, hfiled'⟩ := eq_of_matches (hxy hstart)
  simp only [inSession, hrun]
  exact .inr ⟨rfl, rfl, hfiled'⟩

/-- Detaching a write changes the handles it sees, and they are no part of the books. -/
theorem recorded_detached {x : WriteM α} {y : RecordM Session α} (hxy : WriteM.Recorded base x y) :
    WriteM.Recorded base (WriteM.detached x) (detached y) := by
  intro _ p hp
  obtain ⟨s, ledger⟩ := p
  obtain ⟨rfl, hfiled⟩ := hp
  have hstart : Books base (·.service) { s with handles := .empty } ({ s with handles := .empty }, ledger) :=
    ⟨rfl, hfiled⟩
  obtain ⟨ledger', hrun, hfiled'⟩ := eq_of_matches (hxy hstart)
  simp only [detached, hrun]
  exact .inr ⟨rfl, rfl, hfiled'⟩

/-- What is entered for an object is what becomes of the schemas. -/
theorem taught_files (w : ObjectWriter) (s : Session) :
    (if w.fieldCount = 0 then s.service else w.taught w.schemaId s).registry.schemas =
      (w.entry s).file s.service.registry.schemas := by
  simp only [ObjectWriter.entry, Finished.file, ObjectWriter.taught, TypeService.addSchema]
  by_cases hcount : w.fieldCount = 0
  · simp [hcount]
  · by_cases hknown : s.service.hasSchema w.typeId w.schemaId
    · simp [hcount, hknown]
    · by_cases hkeeps : s.service.keepsSchemas <;> simp [hcount, hknown, hkeeps, Registry.addSchema]

/-- The entry made for a finished object says what finishing it did to the schemas. -/
theorem finish_files {w : ObjectWriter} {userType : Bool} {s s' : Session} {written : WrittenObject}
    (h : (w.finish userType).Yields s written s') :
    s'.service.registry.schemas = (w.entry s).file s.service.registry.schemas := by
  obtain ⟨ending, s₁, s₂, s₃, hending, -, hpatch, hs₃, hhash, -⟩ := ObjectWriter.finish_yields h
  -- The hash that may come last adds no schema.
  have hlast : s₃.Untaught s' := by
    refine Within.of_yields ?_ hhash
    split
    · exact ObjectWriter.untaught_writeHash w _
    · exact .pure _
  obtain ⟨⟨tape, rfl⟩, -, -, rfl⟩ := writeEnding_laid hending
  obtain ⟨tape', -, rfl⟩ := (WriteM.yields_onTape ..).mp hpatch
  refine Eq.trans hlast ?_
  rw [hs₃, ← taught_files w s]
  by_cases hcount : w.fieldCount = 0
  · simp only [hcount, if_true]
  · simp only [hcount, if_false]
    rfl

/-- Finishing an object whose header and data lie in the storage. -/
theorem matches_finish {w : ObjectWriter} {s : Session} {ledger : List Finished}
    (hheader : w.start + Header.size ≤ w.dataStart) (hdata : w.dataStart ≤ s.tape.cursor)
    (hroom : s.tape.cursor ≤ s.tape.capacity) (userType : Bool)
    (hfiled : s.service.registry.schemas = ledger.foldr Finished.file base) :
    Matches (fun _ => False) (Books base (·.service)) (w.finish userType s)
      (finish w userType (s, ledger)) := by
  simp only [finish]
  cases hrun : w.finish userType s with
  | mk result s' =>
    -- If the object cannot be finished, no schema was filed, so nothing is entered either.
    cases result with
    | error e =>
      have hfails : s.Untaught s' := ObjectWriter.finish_fails hheader hdata hroom userType e s' hrun
      exact .inr ⟨rfl, rfl, Eq.trans hfails hfiled⟩
    | ok written =>
      refine .inr ⟨rfl, rfl, ?_⟩
      rw [finish_files hrun, hfiled]
      rfl

/-- An object is entered if it is finished.  Whatever its body does, the header and the data behind it
    lie in the storage, so that nothing fails once the schema is added. -/
theorem recorded_writeFramed {body : ObjectM Unit} {body' : RecordM OpenObject Unit}
    (hgrows : ∀ {place : Nat}, Within (OpenObject.Grows place) body)
    (hbody : ObjectM.Recorded base body body') (typeId : Int32) (inlineName : Option String)
    (userType : Option Bool) :
    WriteM.Recorded base (WriteM.writeFramed typeId inlineName body userType)
      (writeFramed typeId inlineName body' userType) := by
  intro s₀ p₀ h₀
  have hbegin := recorded_quiet (ObjectWriter.untaught_begin typeId inlineName) h₀
  refine Mirrors.bind_at hbegin fun {w _ p} hbegun hp => ?_
  obtain ⟨s, ledger⟩ := p
  obtain ⟨rfl, hfiled⟩ := hp
  obtain ⟨hw, hheader, hroom⟩ := ObjectWriter.begin_fresh hbegun
  have hadds : OpenObject.Grows 0 _ _ := hgrows ⟨w, s⟩
  obtain ⟨entries, raw, hadds⟩ := hadds
  have hstart : Books base (·.session.service) (OpenObject.mk w s) (OpenObject.mk w s, ledger) :=
    ⟨rfl, hfiled⟩
  -- The body ends as it does without a ledger, and has entered what was finished inside it.
  obtain ⟨ledger', hrun, hfiled'⟩ := eq_of_matches (hbody hstart)
  simp only [hrun]
  generalize body ⟨w, s⟩ = run at hadds hfiled' ⊢
  obtain ⟨e | u, o⟩ := run
  · exact .inr ⟨rfl, rfl, hfiled'⟩
  cases userType with
  | none => exact .inr ⟨rfl, rfl, hfiled'⟩
  | some userType =>
    -- The room for the header is still there, so that only a step before the schema can fail.
    have hheader' : o.writer.start + Header.size ≤ o.writer.dataStart := by
      rw [hadds.start, hadds.dataStart, hw]
      exact hheader
    have hdata : o.writer.dataStart ≤ o.session.tape.cursor := by
      rw [hadds.dataStart, hw]
      exact hadds.session.cursor
    have hmatches := matches_finish hheader' hdata (hadds.session.tape.room hroom) userType hfiled'
    obtain ⟨ledger₁, hfinish, hfiled₁⟩ := eq_of_matches hmatches
    simp only [hfinish]
    generalize o.writer.finish userType o.session = run at hfiled₁ ⊢
    obtain ⟨e | written, s₁⟩ := run <;> exact .inr ⟨rfl, rfl, hfiled₁⟩

/-- A node met again is written as a back reference, which finishes no object; so only the first write of
    it has anything to enter. -/
theorem recorded_writeOnce {node : NodeId} {x : WriteM Unit} {y : RecordM Session Unit}
    (hxy : WriteM.Recorded base x y) : WriteM.Recorded base (WriteM.writeOnce node x) (writeOnce node y) := by
  refine (recorded_quiet (WriteM.untaught_writeHandle node)).bind fun seen => ?_
  cases seen with
  | true => exact .pure ()
  | false => exact hxy

section

variable {rec : Value → WriteM Unit} {rec' : Value → RecordM Session Unit}
  (hrec : ∀ v, WriteM.Recorded base (rec v) (rec' v))

include hrec

/-- What a field holds is written by the session alone, or is a value. -/
theorem recorded_content (op : ObjectOp) : WriteM.Recorded base (op.content rec) (content rec' op) := by
  cases op with
  | typed name v =>
    simp only [ObjectOp.content, content]
    cases v.toValue with
    | plain p => exact recorded_quiet (WriteM.untaught_writePlain p)
    | _ => exact hrec _
  | field name v | fieldId id v | fieldIdUnfolded id v => exact hrec v
  | detached name v => exact recorded_detached (hrec v)
  | _ => exact .pure ()

/-- A field enters what its content enters; to file it under the object changes no schema. -/
theorem recorded_runField {op : ObjectOp} (hop : op.isField) :
    ObjectM.Recorded base (ObjectM.runOp rec op) (runField rec' op) := by
  rw [ObjectM.runOp_field rec hop]
  apply (recorded_still (ObjectM.untaught_beginning op)).bind
  intro _
  apply (recorded_inSession (recorded_content hrec op)).bind
  exact fun _ => recorded_still (ObjectM.untaught_noteObject _ _)

/-- Of the calls on a raw section only those that write a value enter anything. -/
theorem recorded_runRaw (first : Nat) (op : RawOp) :
    ObjectM.Recorded base (ObjectM.runRaw rec first op) (runRaw rec' first op) := by
  cases op with
  | value v => exact recorded_inSession (hrec v)
  | detached v => exact recorded_inSession (recorded_detached (hrec v))
  | text v => exact recorded_still (ObjectM.untaught_inSession (WriteM.untaught_writePlain _))
  | reserve => exact recorded_still ObjectM.untaught_reserveSlot
  | fill slot v => exact recorded_still (ObjectM.untaught_fillSlot _ v)
  | fillEarlier slot v => exact recorded_still (ObjectM.untaught_fillSlot slot v)
  | _ => exact recorded_still (ObjectM.untaught_inSession (WriteM.untaught_onTape _))

/-- A run of such calls enters what they enter one after another. -/
theorem recorded_runRaws (ops : List RawOp) :
    ObjectM.Recorded base (ObjectM.runRaws rec ops) (runRaws rec' ops) := by
  have hwriter : ObjectM.Recorded base ObjectM.writer (aside ObjectM.writer) :=
    recorded_still fun _ => rfl
  apply hwriter.bind
  intro w
  apply (Mirrors.forEach fun op _ => recorded_runRaw hrec _ op).bind
  intro _
  exact hwriter.bind fun w => .pure _

end

end RecordM

section

open RecordM

variable {base : Dict (Int32 × Int32) Schema} {rec : Value → WriteM Unit}
  {rec' : Value → RecordM Session Unit}

mutual

/-- A call on a writer goes as it does without a ledger. -/
theorem RecordM.recorded_runObjectOp
    (hkeeps : ∀ {place : Nat} (v : Value), Within (Session.KeepsFrom place) (rec v))
    (hrec : ∀ v, WriteM.Recorded base (rec v) (rec' v)) : (op : ObjectOp) →
    ObjectM.Recorded base (ObjectM.runOp rec op) (runObjectOp rec' op)
  | .typed name v | .field name v | .detached name v => by
    rw [runObjectOp]
    exact recorded_runField hrec rfl
  | .fieldId id v | .fieldIdUnfolded id v => by
    rw [runObjectOp]
    exact recorded_runField hrec rfl
  | .setSchemaId id => by
    rw [ObjectM.runOp, runObjectOp, ObjectM.runOp]
    exact recorded_still fun _ => rfl
  | .schema => by
    rw [ObjectM.runOp, runObjectOp, ObjectM.runOp]
    exact recorded_still fun _ => rfl
  | .raw ops => by
    rw [ObjectM.runOp, runObjectOp]
    apply (recorded_still ObjectM.untaught_enterRaw).bind
    intro _
    apply (recorded_runRaws hrec ops).bind
    exact fun _ => recorded_still (ObjectM.untaught_noteObject _ _)
  | .session ops => by
    rw [ObjectM.runOp, runObjectOp]
    apply (recorded_inSession (RecordM.recorded_runSessionOps hkeeps hrec ops)).bind
    exact fun _ => recorded_still (ObjectM.untaught_noteObject _ _)
  | .attempt op => by
    rw [ObjectM.runOp, runObjectOp]
    apply (Mirrors.attempt (RecordM.recorded_runObjectOp hkeeps hrec op)).bind
    exact fun _ => recorded_still (ObjectM.untaught_noteObject _ _)

/-- Calls on a writer are recorded one after another. -/
theorem RecordM.recorded_runObjectOps
    (hkeeps : ∀ {place : Nat} (v : Value), Within (Session.KeepsFrom place) (rec v))
    (hrec : ∀ v, WriteM.Recorded base (rec v) (rec' v)) : (ops : List ObjectOp) →
    ObjectM.Recorded base (ObjectM.runOps rec ops) (runObjectOps rec' ops)
  | [] => by
    rw [ObjectM.runOps, runObjectOps]
    exact .pure ()
  | op :: ops => by
    rw [ObjectM.runOps, runObjectOps]
    exact (RecordM.recorded_runObjectOp hkeeps hrec op).bind fun _ =>
      RecordM.recorded_runObjectOps hkeeps hrec ops

/-- A call on a session goes as it does without a ledger. -/
theorem RecordM.recorded_runSessionOp
    (hkeeps : ∀ {place : Nat} (v : Value), Within (Session.KeepsFrom place) (rec v))
    (hrec : ∀ v, WriteM.Recorded base (rec v) (rec' v)) : (op : SessionOp) →
    WriteM.Recorded base (WriteM.runOp rec op) (runSessionOp rec' op)
  | .value v => by
    rw [WriteM.runOp, runSessionOp]
    exact (hrec v).bind fun _ => recorded_quiet (WriteM.untaught_noteSession _ _)
  | .detached v => by
    rw [WriteM.runOp, runSessionOp]
    exact (recorded_detached (hrec v)).bind fun _ => recorded_quiet (WriteM.untaught_noteSession _ _)
  | .object node => by
    rw [WriteM.runOp, runSessionOp]
    exact (hrec (.ref node)).bind fun _ => recorded_quiet (WriteM.untaught_noteSession _ _)
  | .begin typeId inlineName userType ops => by
    rw [WriteM.runOp, runSessionOp]
    have hops := RecordM.recorded_runObjectOps hkeeps hrec ops
    apply (recorded_writeFramed (ObjectM.grows_runOps hkeeps ops) hops typeId inlineName userType).bind
    exact fun _ => recorded_quiet (WriteM.untaught_noteSession _ _)
  | .attempt op => by
    rw [WriteM.runOp, runSessionOp]
    apply (Mirrors.attempt (RecordM.recorded_runSessionOp hkeeps hrec op)).bind
    exact fun _ => recorded_quiet (WriteM.untaught_noteSession _ _)
  | .bytes v => by
    rw [WriteM.runOp, runSessionOp, WriteM.runOp]
    exact recorded_quiet ((WriteM.untaught_onTape _).bind fun _ => WriteM.untaught_noteSession _ _)
  | .fieldId typeId name => by
    rw [WriteM.runOp, runSessionOp, WriteM.runOp]
    exact recorded_quiet fun _ => rfl
  | .summary => by
    rw [WriteM.runOp, runSessionOp, WriteM.runOp]
    exact recorded_quiet fun _ => rfl

/-- Calls on a session are recorded one after another. -/
theorem RecordM.recorded_runSessionOps
    (hkeeps : ∀ {place : Nat} (v : Value), Within (Session.KeepsFrom place) (rec v))
    (hrec : ∀ v, WriteM.Recorded base (rec v) (rec' v)) : (ops : List SessionOp) →
    WriteM.Recorded base (WriteM.runOps rec ops) (runSessionOps rec' ops)
  | [] => by
    rw [WriteM.runOps, runSessionOps]
    exact .pure ()
  | op :: ops => by
    rw [WriteM.runOps, runSessionOps]
    exact (RecordM.recorded_runSessionOp hkeeps hrec op).bind fun _ =>
      RecordM.recorded_runSessionOps hkeeps hrec ops

end

namespace RecordM

section

variable (hkeeps : ∀ {place : Nat} (v : Value), Within (Session.KeepsFrom place) (rec v))
  (hrec : ∀ v, WriteM.Recorded base (rec v) (rec' v))

include hkeeps hrec

/-- The body of an object is either its fields or the calls that the object makes itself. -/
theorem recorded_writeBody (node : NodeId) (o : UserObject) :
    ObjectM.Recorded base (WriteM.writeBody rec node o) (writeBody rec' node o) := by
  cases o with
  | dynamic o =>
    -- A field is begun aside from the ledger, so only the write of its value enters anything.
    have hfields : ObjectM.Recorded base
        (Action.forEach (fun (name, v) => ObjectM.writeField rec name v) o.fields)
        (Action.forEach (fun (name, v) => do
          aside (ObjectM.beginField name); inSession (rec' v)) o.fields) := by
      refine .forEach fun field _ => ?_
      exact (recorded_still (ObjectM.untaught_beginField field.1)).bind fun _ =>
        recorded_inSession (hrec field.2)
    apply hfields.bind
    intro _
    cases o.raw with
    | none => exact .pure ()
    | some raw =>
      exact (recorded_still ObjectM.untaught_enterRaw).bind fun _ =>
        recorded_still (ObjectM.untaught_inSession (WriteM.untaught_onTape _))
  | programmed o =>
    apply (recorded_still (Within.read _)).bind
    intro w
    apply (recorded_still (ObjectM.untaught_inSession (WriteM.untaught_note _))).bind
    exact fun _ => recorded_runObjectOps hkeeps hrec o.program

/-- An object under the type it resolved to is entered behind everything that its body entered. -/
theorem recorded_writeResolved (node : NodeId) (o : UserObject) (resolved : ResolvedType) :
    WriteM.Recorded base (WriteM.writeResolved rec node o resolved)
      (writeResolved rec' node o resolved) := by
  rw [WriteM.writeResolved_eq]
  apply recorded_writeOnce
  apply (recorded_writeFramed (WriteM.grows_writeBody hkeeps node o)
    (recorded_writeBody hkeeps hrec node o) _ _ _).bind
  exact fun _ => .pure ()

/-- If an object asks to be replaced, what it enters is what its replacement enters. -/
theorem recorded_writeObject (node : NodeId) (o : UserObject) :
    WriteM.Recorded base (WriteM.writeObject rec node o) (writeObject rec' node o) := by
  apply (recorded_quiet (WriteM.untaught_resolveObject o)).bind
  intro resolved
  cases o.replacement with
  | none => exact recorded_writeResolved hkeeps hrec node o resolved
  | some replacement =>
    apply (recorded_quiet (WriteM.untaught_note _)).bind
    intro _
    apply Mirrors.bind
    · -- The program that substitutes the object changes the graph only.
      exact recorded_quiet fun _ => rfl
    · intro v
      cases v with
      | ref other =>
        apply (recorded_quiet (Within.read _)).bind
        intro found
        cases found with
        | none => exact hrec _
        | some o =>
          exact (recorded_quiet (WriteM.untaught_resolveObject o)).bind fun resolved =>
            recorded_writeResolved hkeeps hrec other o resolved
      | _ => exact hrec _

/-- Nodes other than objects enter what their values enter. -/
theorem recorded_writeNode (node : NodeId) (n : Node) :
    WriteM.Recorded base (WriteM.writeNode rec node n) (writeNode rec' node n) := by
  -- The head of a container teaches no schema, so all its entries come from the values behind it.
  have hcontents : ∀ n, WriteM.Recorded base (WriteM.writeContents rec n) (writeContents rec' n) :=
    fun n => (recorded_quiet (WriteM.untaught_writeHead n)).bind fun _ => .forEach fun v _ => hrec v
  cases n with
  | object o => exact recorded_writeObject hkeeps hrec node o
  | array componentType items =>
    rw [WriteM.writeNode_array]
    exact recorded_writeOnce (hcontents _)
  | collection typeName items =>
    rw [WriteM.writeNode_collection]
    exact recorded_writeOnce (hcontents _)
  | map typeName entries =>
    rw [WriteM.writeNode_map]
    exact recorded_writeOnce (hcontents _)
  | proxy interfaces handler =>
    rw [WriteM.writeNode_proxy]
    exact hcontents _

end

/-- A recorded write goes as the write itself, and its ledger has all schemas that the write adds. -/
theorem recorded_writeDepth (depth : Nat) (v : Value) :
    WriteM.Recorded base (WriteM.writeDepth depth v) (writeDepth depth v) := by
  induction depth generalizing v with
  | zero => exact .stop _
  | succ depth ih =>
    cases v with
    | plain v => exact recorded_quiet (WriteM.untaught_writePlain v)
    | enum v => exact recorded_quiet (WriteM.untaught_writeEnum v)
    | enumArray typeName items => exact recorded_quiet (WriteM.untaught_writeEnumArray typeName items)
    | binaryEnum v => exact recorded_quiet (WriteM.untaught_writeBinaryEnum v)
    | classRef typeName => exact recorded_quiet (WriteM.untaught_writeClassRef typeName)
    | ref node =>
      apply Mirrors.bind (recorded_quiet (Within.read _))
      intro found
      cases found with
      | none => exact .stop _
      | some n => exact recorded_writeNode (WriteM.keeps_writeDepth depth) ih node n

/-- Every value is written at some depth, and writes at every depth are recorded. -/
theorem recorded_writeValue (v : Value) :
    WriteM.Recorded base (WriteM.writeValue v) (writeValue v) := by
  intro _ p hp
  obtain ⟨s, ledger⟩ := p
  obtain ⟨rfl, hfiled⟩ := hp
  exact recorded_writeDepth _ v ⟨rfl, hfiled⟩

end RecordM

end

end ObjectWire
