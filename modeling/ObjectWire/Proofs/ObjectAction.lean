import ObjectWire.Program.Run
import ObjectWire.Proofs.Additions
import ObjectWire.Proofs.EncodeImage

/-!
# Steps on an open object that succeed

What it takes for the steps of an object's writer to succeed, and what they leave.
-/

namespace ObjectWire

open ObjectWire.Action

namespace ObjectM

variable {α : Type} {o o' : OpenObject} {u : Unit}

/-- A write in the session leaves the writer as it is. -/
@[simp] theorem yields_inSession (x : WriteM α) (o o' : OpenObject) (a : α) :
    (inSession x).Yields o a o' ↔
      ∃ s', x.Yields o.session a s' ∧ { o with session := s' } = o' :=
  yields_part (inSession x) x (fun s => { o with session := s }) rfl

/-- To look at the writer changes nothing. -/
@[simp] theorem yields_writer (o o' : OpenObject) (w : ObjectWriter) :
    writer.Yields o w o' ↔ o.writer = w ∧ o = o' := by
  simp [writer]

/-- To change the writer leaves the session as it is. -/
@[simp] theorem yields_updateWriter (f : ObjectWriter → ObjectWriter) (o o' : OpenObject) (u : Unit) :
    (updateWriter f).Yields o u o' ↔ { o with writer := f o.writer } = o' := by
  simp [updateWriter]

/-- The journal is all that a note changes. -/
theorem noteObject_yields {op : ObjectOp} {outcome : Outcome}
    (h : (noteObject op outcome).Yields o u o') :
    ∃ journal, o' = { o with session := { o.session with journal } } := by
  simp only [noteObject, yields_update] at h
  exact ⟨_, h.symm⟩

/-- The object with a field more, that starts where the cursor is. -/
def withField (o : OpenObject) (id : Int32) (fold : Bool) : OpenObject where
  writer := { o.writer with
    schemaId := if fold then SchemaId.push o.writer.schemaId id else o.writer.schemaId
    fieldCount := o.writer.fieldCount + 1 }
  session := { o.session with
    fields := o.session.fields.push id (UInt32.ofNat (o.session.tape.cursor - o.writer.start)) }

/-- A field is begun only before the raw section, once, and at an offset of 32 bits. -/
theorem pushField_yields {id : Int32} {fold : Bool} (h : (pushField id fold).Yields o u o') :
    o.writer.rawStart = none ∧ o.session.fields.contains o.writer.fieldCount id = false ∧
      o.writer.start ≤ o.session.tape.cursor ∧
      o.session.tape.cursor - o.writer.start < UInt32.size ∧ o' = withField o id fold := by
  simp only [pushField, yields_bind, yields_writer] at h
  obtain ⟨_, _, ⟨rfl, rfl⟩, h⟩ := h
  -- Each guard that lets pass leaves its condition.
  obtain ⟨hraw, h⟩ := yields_guard.mp h
  simp only [yields_bind, yields_read] at h
  obtain ⟨_, _, ⟨rfl, rfl⟩, h⟩ := h
  obtain ⟨hnew, h⟩ := yields_guard.mp h
  simp only [yields_bind, yields_inSession, WriteM.yields_position, WriteM.yields_distance] at h
  obtain ⟨_, _, ⟨_, ⟨_, _, ⟨rfl, rfl⟩, ⟨hle, rfl⟩, rfl⟩, rfl⟩, h⟩ := h
  obtain ⟨hsize, h⟩ := yields_guard.mp h
  simp only [yields_bind, yields_update, yields_updateWriter] at h
  obtain ⟨_, _, rfl, rfl⟩ := h
  exact ⟨by simpa using hraw, by simpa using hnew, hle, by omega, rfl⟩

/-- The id of a field is derived from its name. -/
theorem beginField_yields {name : String} (h : (beginField name).Yields o u o') :
    (pushField (NameId.ofName name) true).Yields o u o' := by
  simp only [beginField, yields_bind, yields_writer] at h
  obtain ⟨_, _, ⟨rfl, rfl⟩, h⟩ := h
  obtain ⟨-, h⟩ := yields_guard.mp h
  simp only [yields_bind, yields_read] at h
  obtain ⟨_, _, ⟨rfl, rfl⟩, h⟩ := h
  split at h
  · next id hid =>
    -- The fields of a type that the registry has mapped have the ids of their names.
    simp only [TypeService.fieldId?, Registry.fieldId?] at hid
    split at hid
    · split at hid
      · cases hid
        exact h
      · cases hid
    · cases hid
  · simp at h

/-- To enter the raw section closes the data before it, the first time only. -/
theorem enterRaw_yields (h : enterRaw.Yields o u o') :
    o' = { o with
      writer := { o.writer with
        rawStart := some (o.writer.rawStart.getD o.session.tape.cursor) } } := by
  simp only [enterRaw, yields_bind, yields_inSession, WriteM.yields_position,
    yields_updateWriter] at h
  obtain ⟨_, _, ⟨_, ⟨rfl, rfl⟩, rfl⟩, rfl⟩ := h
  rfl

/-- A typed field is written as the value that it stands for. -/
theorem writeTyped_eq (rec : Value → WriteM Unit) (name : String) (v : TypedField) :
    writeTyped rec name v = (do
      beginField name
      inSession (match v.toValue with
        | .plain p => WriteM.writePlain p
        | v => rec v)) := by
  cases v with
  | string v | utf16 v | uuid v | date v | timestamp v | time v | decimal v | bytes v | ints v
  | longs v | doubles v | strings v | object v | enum v => cases v <;> rfl
  | _ => rfl

end ObjectM

/-- An object that is written and finished is begun, has its body run, and is finished; then its fields
    come off the stack. -/
theorem WriteM.writeFramed_yields {typeId : Int32} {inlineName : Option String} {body : ObjectM Unit}
    {userType : Bool} {s s' : Session} {a : Option WrittenObject}
    (h : (writeFramed typeId inlineName body (some userType)).Yields s a s') :
    ∃ w s₁ o written s₂, (ObjectWriter.begin typeId inlineName).Yields s w s₁ ∧
      body.Yields ⟨w, s₁⟩ () o ∧ (o.writer.finish userType).Yields o.session written s₂ ∧
      s' = o.writer.release s₂ := by
  obtain ⟨w, s₁, hbegin, h⟩ := (yields_bind ..).mp h
  simp only [Yields] at h
  split at h
  · cases h
  · next writer session hbody =>
    split at h
    · cases h
    · next written s₂ hfinish =>
      exact ⟨w, s₁, ⟨writer, session⟩, written, s₂, hbegin, hbody, hfinish,
        (congrArg Prod.snd h).symm⟩

namespace ObjectWriter

variable {w : ObjectWriter} {s s' : Session}

/-- A relative place is the distance from the start of the object, and within 31 bits. -/
theorem relative_yields {p : Nat} {v : Int32}
    (h : (w.relative p).Yields s v s') :
    w.start ≤ p ∧ p - w.start ≤ maxWireLength ∧ v = Int32.ofNat (p - w.start) ∧ s = s' := by
  simp only [relative, yields_bind, WriteM.yields_distance, yields_ofExcept] at h
  obtain ⟨_, _, ⟨⟨hle, rfl⟩, rfl⟩, hv, rfl⟩ := h
  obtain ⟨hmax, rfl⟩ := wireLength_ok hv
  exact ⟨hle, hmax, rfl, rfl⟩

/-- The type service after it was told the object's schema: it knows one under the id already, or it adds
    the schema under an id of its own making. -/
def taught (w : ObjectWriter) (schemaId : Int32) (s : Session) : TypeService :=
  if s.service.hasSchema w.typeId schemaId then s.service
  else s.service.addSchema w.typeId (s.fields.schema w.fieldCount)

/-- A schema filed with the registry takes nothing from it. -/
theorem evolves_taught (w : ObjectWriter) (schemaId : Int32) (s : Session) :
    s.service.Evolves (w.taught schemaId s) := by
  unfold taught
  split
  · exact .refl _
  · exact TypeService.evolves_addSchema _ _ _

/-- To register the schema of an object changes the session by no more than that. -/
theorem registerSchema_yields {schemaId : Int32} {u : Unit}
    (h : (w.registerSchema schemaId).Yields s u s') : s' = { s with service := w.taught schemaId s } := by
  simp only [registerSchema, yields_update] at h
  subst h
  unfold taught
  split <;> rfl

/-- Finishing an object writes its end, then the header, and then, if it is asked for, the hash.  Only an
    object that has fields registers its schema. -/
theorem finish_yields {userType : Bool} {written : WrittenObject}
    (h : (w.finish userType).Yields s written s') :
    ∃ ending s₁ s₂ s₃,
      (w.writeEnding (userType && s.service.config.compactFooter)).Yields s ending s₁ ∧
      s₁.tape.cursor - w.start ≤ maxWireLength ∧
      (WriteM.onTape (Tape.patch w.start (Header.bytes {
        flags := (if userType then Flag.userType else 0) |||
          (if userType && s.service.config.compactFooter then Flag.compactFooter else 0) |||
          ending.flags
        typeId := if w.registered then w.typeId else unregisteredTypeId
        hashCode := 0
        totalLength := Int32.ofNat (s₁.tape.cursor - w.start)
        schemaId := ending.schemaId
        offset := ending.offset }))).Yields s₁ () s₂ ∧
      s₃ = { s₂ with
        service := if w.fieldCount = 0 then s₂.service else w.taught ending.schemaId s₂ } ∧
      (if s.service.config.identityHash then w.writeHash s.tape.cursor else pure ()).Yields
        s₃ () s' ∧
      written = ⟨w.start, s₁.tape.cursor - w.start, ending.schemaId, w.fieldCount⟩ := by
  simp only [finish, yields_bind, WriteM.yields_config, WriteM.yields_position] at h
  obtain ⟨_, _, ⟨rfl, rfl⟩, _, _, ⟨rfl, rfl⟩, ending, s₁, hend, _, _, ⟨rfl, rfl⟩, total, _, htotal,
    _, s₂, hpatch, h⟩ := h
  obtain ⟨-, hmax, rfl, rfl⟩ := relative_yields htotal
  obtain ⟨s₃, hschema, h⟩ := yields_when.mp h
  obtain ⟨s₄, hhash, h⟩ := yields_when.mp h
  simp only [yields_pure] at h
  obtain ⟨hwritten, rfl⟩ := h
  refine ⟨ending, s₁, s₂, s₃, hend, hmax, hpatch, ?_, hhash, hwritten.symm⟩
  -- Without fields there is no schema, and the service stays as it is.
  split at hschema
  · next hcount =>
    rw [if_neg hcount]
    exact registerSchema_yields hschema
  · next hcount =>
    rw [if_pos (not_not.mp hcount)]
    simp only [yields_pure, true_and] at hschema
    exact hschema.symm

end ObjectWriter

end ObjectWire
