import ObjectWire.Proofs.WriterStack

/-!
# Calls for a field

A call for a field has its writer begin the field and then writes the value.  All reasons of the writer's
own to refuse the field are checked before anything is changed (`ObjectWriter.refusal?`), so a call that is
refused leaves everything as it was, and what comes after it goes as if the call had not been made
(`Desk.refused_call`).  A field that is begun is counted, whatever becomes of the value
(`ObjectM.run_beginning`, `ObjectM.runOp_field`).

The call for a type begins the field in the same way and goes straight to the encoder, which is where the
value it stands for comes to as well (`ObjectM.writeTyped_alike`).
-/

namespace ObjectWire

open ObjectWire.Action

namespace WriteM

/-- A value without others inside goes to the encoder, whatever writes the others. -/
def PlainFirst (rec : Value → WriteM Unit) : Prop := ∀ p, rec (.plain p) = writePlain p

/-- A writer of values writes plain ones at once. -/
theorem plainFirst_writeWith (rec : Value → WriteM Unit) : PlainFirst (writeWith rec) := fun _ => rfl

/-- So does the writer of values to their full depth. -/
theorem plainFirst_writeValue : PlainFirst writeValue := fun _ => rfl

end WriteM

namespace ObjectOp

/-- Whether a call is for a field. -/
def isField : ObjectOp → Bool
  | .typed _ _ | .field _ _ | .fieldId _ _ | .fieldIdUnfolded _ _ | .detached _ _ => true
  | .setSchemaId _ | .schema | .raw _ | .session _ | .attempt _ => false

/-- The name of the field that a call is for, if it tells the name. -/
def fieldName? : ObjectOp → Option String
  | .typed name _ | .field name _ | .detached name _ => some name
  | .fieldId _ _ | .fieldIdUnfolded _ _ | .setSchemaId _ | .schema | .raw _ | .session _
  | .attempt _ => none

/-- How a call for a field begins it. -/
def beginning : ObjectOp → ObjectM Unit
  | .typed name _ | .field name _ | .detached name _ => ObjectM.beginField name
  | .fieldId id _ => ObjectM.pushField id true
  | .fieldIdUnfolded id _ => ObjectM.pushField id false
  | .setSchemaId _ | .schema | .raw _ | .session _ | .attempt _ => pure ()

/-- How a call for a field writes the value, once the field is begun.  The call for a type goes straight to
    the encoder, unless its value has others inside. -/
def content (rec : Value → WriteM Unit) : ObjectOp → WriteM Unit
  | .typed _ v =>
    match v.toValue with
    | .plain p => WriteM.writePlain p
    | v => rec v
  | .field _ v | .fieldId _ v | .fieldIdUnfolded _ v => rec v
  | .detached _ v => WriteM.detached (rec v)
  | .setSchemaId _ | .schema | .raw _ | .session _ | .attempt _ => pure ()

end ObjectOp

namespace ObjectWriter

variable {w : ObjectWriter} {s : Session} {ids : List Int32} {op : ObjectOp} {e : Stop}

/-- Why a writer with fields of the given ids refuses a call for a field, if it does. -/
def refusal? (w : ObjectWriter) (s : Session) (ids : List Int32) (op : ObjectOp) : Option Stop :=
  if w.rawStart.isSome then some (.error .rawModeActive)
  else
    match op.fieldId? s.service w.typeId with
    | some id => w.refuses? s.tape.cursor ids id
    | none => op.fieldName?.map fun name => .error (.unresolvedField w.typeId name)

/-- Before the raw section, a field is refused for its id or for where it would start. -/
theorem refuses?_eq_some {cursor : Nat} {id : Int32} (hraw : w.rawStart = none)
    (hstart : w.start ≤ cursor) : w.refuses? cursor ids id = some e ↔
      id ∈ ids ∧ e = .error (.duplicateField id) ∨
      id ∉ ids ∧ UInt32.size ≤ cursor - w.start ∧
        e = .error (.tooLarge ("field offset " ++ toString (cursor - w.start))) := by
  rw [refuses?, hraw, if_neg (by decide), if_neg (Nat.not_lt.mpr hstart)]
  by_cases hids : id ∈ ids
  · simp [hids, eq_comm]
  · by_cases hsize : UInt32.size ≤ cursor - w.start
    · simp [hids, hsize, eq_comm]
    · simp [hids, hsize]

/-- The reasons to refuse a call for a field. -/
theorem refusal?_eq_some (hstart : w.start ≤ s.tape.cursor) :
    w.refusal? s ids op = some e ↔
      w.rawStart.isSome ∧ e = .error .rawModeActive ∨
      w.rawStart = none ∧
        ((∃ name, op.fieldName? = some name ∧ op.fieldId? s.service w.typeId = none ∧
          e = .error (.unresolvedField w.typeId name)) ∨
        ∃ id, op.fieldId? s.service w.typeId = some id ∧
          (id ∈ ids ∧ e = .error (.duplicateField id) ∨
          id ∉ ids ∧ UInt32.size ≤ s.tape.cursor - w.start ∧
            e = .error (.tooLarge ("field offset " ++ toString (s.tape.cursor - w.start))))) := by
  rw [refusal?]
  -- The raw section is asked after first, then the id, and then whether that is new and in range.
  by_cases hraw : w.rawStart.isSome
  · have hne : w.rawStart ≠ none := Option.isSome_iff_ne_none.mp hraw
    simp [hraw, hne, eq_comm]
  · have hnone : w.rawStart = none := Option.not_isSome_iff_eq_none.mp hraw
    rw [if_neg hraw]
    cases op.fieldId? s.service w.typeId with
    | some id => simp [hnone, refuses?_eq_some hnone hstart]
    | none => simp [hnone, eq_comm]

end ObjectWriter

/-- The object with the field of a call begun. -/
def OpenObject.begun (o : OpenObject) (op : ObjectOp) : OpenObject :=
  match op.fieldId? o.session.service o.writer.typeId with
  | some id => ObjectM.withField o id op.folds
  | none => o

namespace ObjectM

variable {o : OpenObject} {op : ObjectOp} {rec : Value → WriteM Unit}

/-- The field of a call is begun, or refused with nothing changed. -/
theorem run_beginning (hop : op.isField) (o : OpenObject) :
    op.beginning.run o = (o.writer.refusal? o.session o.fieldIds op).elim (.ok (), o.begun op)
      fun e => (.error e, o) := by
  have hid : ∀ {id : Int32} {fold : Bool}, op.fieldId? o.session.service o.writer.typeId = some id →
      op.folds = fold → (pushField id fold).run o =
        (o.writer.refusal? o.session o.fieldIds op).elim (.ok (), o.begun op) fun e => (.error e, o) := by
    intro id fold hid hfold
    rw [run_pushField, ObjectWriter.refusal?, OpenObject.begun, hid, hfold]
    -- Both look at the raw section first.
    by_cases hraw : o.writer.rawStart.isSome
    · simp only [ObjectWriter.refuses?, hraw, if_true]
    · simp only [hraw, Bool.false_eq_true, if_false]
  have hname : ∀ {name : String}, op.fieldName? = some name → op.folds = true →
      op.fieldId? o.session.service o.writer.typeId =
        o.session.service.fieldId? o.writer.typeId name →
      (beginField name).run o =
        (o.writer.refusal? o.session o.fieldIds op).elim (.ok (), o.begun op) fun e => (.error e, o) := by
    intro name hname hfold heq
    rw [run_beginField]
    cases hknown : o.session.service.fieldId? o.writer.typeId name with
    | some id =>
      simp only [hid (heq.trans hknown) hfold]
      split
      · next hraw => simp only [ObjectWriter.refusal?, hraw, if_true, Option.elim_some]
      · rfl
    | none =>
      rw [ObjectWriter.refusal?, heq, hknown, hname]
      by_cases hraw : o.writer.rawStart.isSome
      · simp only [hraw, if_true, Option.elim_some]
      · simp only [hraw, Bool.false_eq_true, if_false, Option.map_some, Option.elim_some]
  cases op with
  | typed name v | field name v | detached name v => exact hname rfl rfl rfl
  | fieldId id v | fieldIdUnfolded id v => exact hid rfl rfl
  | setSchemaId _ | schema | raw _ | session _ | attempt _ => cases hop

/-- The call for a type comes to the same as the call with a value. -/
theorem writeTyped_eq_writeField (hrec : WriteM.PlainFirst rec) (name : String) (v : TypedField) :
    writeTyped rec name v = writeField rec name v.toValue := by
  rw [writeTyped_eq, writeField]
  cases v.toValue with
  | plain p => rw [hrec p]
  | _ => rfl

/-- A call for a field begins it, writes the value, and is noted in the end. -/
theorem runOp_field (rec : Value → WriteM Unit) (hop : op.isField) :
    runOp rec op = (do
      op.beginning
      inSession (op.content rec)
      noteObject op .none) := by
  -- Each call on a field is a beginning and a content, put together in its own way.
  cases op with
  | typed name v =>
    simp only [runOp, writeTyped_eq, bind_assoc]
    rfl
  | field name v =>
    simp only [runOp, writeField, bind_assoc]
    rfl
  | fieldId id v | fieldIdUnfolded id v =>
    simp only [runOp, writeFieldId, bind_assoc]
    rfl
  | detached name v =>
    simp only [runOp, writeFieldDetached, bind_assoc]
    rfl
  | setSchemaId _ | schema | raw _ | session _ | attempt _ => cases hop

/-- A call for a field that is refused changes nothing. -/
theorem runOp_refused (rec : Value → WriteM Unit) (hop : op.isField) {e : Stop}
    (h : o.writer.refusal? o.session o.fieldIds op = some e) : (runOp rec op).run o = (.error e, o) := by
  rw [runOp_field rec hop, run_bind, run_beginning hop, h, Option.elim_some]

/-- A call for a field that is not refused begins it.  What is left is its value's. -/
theorem runOp_begun (rec : Value → WriteM Unit) (hop : op.isField)
    (h : o.writer.refusal? o.session o.fieldIds op = none) :
    (runOp rec op).run o = (do inSession (op.content rec); noteObject op .none).run (o.begun op) := by
  rw [runOp_field rec hop, run_bind, run_beginning hop, h, Option.elim_none]

/-- A field that is not refused counts as one more. -/
theorem fieldCount_begun (hop : op.isField) (h : o.writer.refusal? o.session o.fieldIds op = none) :
    (o.begun op).writer.fieldCount = o.writer.fieldCount + 1 := by
  rw [ObjectWriter.refusal?] at h
  split at h
  · cases h
  · rw [OpenObject.begun]
    cases hid : op.fieldId? o.session.service o.writer.typeId with
    | some id => rfl
    | none =>
      rw [hid] at h
      cases op with
      | typed name v | field name v | detached name v => cases h
      | fieldId id v | fieldIdUnfolded id v => cases hid
      | setSchemaId _ | schema | raw _ | session _ | attempt _ => cases hop

/-- A call for a type and the call with the value that it stands for end in the same way and leave the
    same behind, in whatever state they find the writer, also if they fail; only the journal tells which
    of them it was.  That holds for a writer of one's own and, with `inner` to write the values inside,
    for the writer of an object that is itself inside a value. -/
theorem writeTyped_alike (inner : Option (Value → WriteM Unit)) (name : String) (v : TypedField) :
    let write := inner.elim WriteM.writeValue WriteM.writeWith
    writeTyped write name v = writeField write name v.toValue ∧
      ∀ o, (runOp write (.typed name v) o).1 = (runOp write (.field name v.toValue) o).1 ∧
        ∃ journal, (runOp write (.typed name v) o).2 =
          { (runOp write (.field name v.toValue) o).2 with session.journal := journal } := by
  intro write
  have hplain : WriteM.PlainFirst write := by
    cases inner with
    | none => exact WriteM.plainFirst_writeValue
    | some inner => exact WriteM.plainFirst_writeWith inner
  have heq : writeTyped write name v = writeField write name v.toValue :=
    writeTyped_eq_writeField hplain name v
  refine ⟨heq, fun o => ?_⟩
  -- What is left of both calls is the note at the end, which succeeds.
  show ((do writeTyped write name v; noteObject (.typed name v) .none).run o).1 =
      ((do writeField write name v.toValue; noteObject (.field name v.toValue) .none).run o).1 ∧
    ∃ journal, ((do writeTyped write name v; noteObject (.typed name v) .none).run o).2 =
      { ((do writeField write name v.toValue; noteObject (.field name v.toValue) .none).run o).2 with
        session.journal := journal }
  rw [heq, run_bind, run_bind]
  cases (writeField write name v.toValue).run o with
  | mk result o' =>
    cases result with
    | error e => exact ⟨rfl, o'.session.journal, rfl⟩
    | ok u => exact ⟨rfl, _, rfl⟩

end ObjectM

namespace Desk

/-- What there is at a desk, without what callers know of their writers. -/
def view (d : Desk) : Session × List ObjectWriter := (d.session, d.opened.map (·.writer))

/-- No move reads what callers know. -/
theorem view_step {d d' : Desk} (h : d.view = d'.view) (move : Move) :
    (d.step move).view = (d'.step move).view := by
  obtain ⟨s, opened⟩ := d
  obtain ⟨s', opened'⟩ := d'
  obtain ⟨hs, hwriters⟩ := Prod.mk.inj h
  obtain rfl : s = s' := hs
  replace hwriters : opened.map (·.writer) = opened'.map (·.writer) := hwriters
  -- Only the writers of the frames are looked at, so what their callers know does not matter.
  cases move with
  | session op => exact congrArg (Prod.mk _) hwriters
  | patch position v => exact congrArg (Prod.mk _) hwriters
  | begin typeId inlineName =>
    unfold step
    simp only
    generalize ObjectWriter.begin typeId inlineName s = result
    obtain ⟨e | w, s₁⟩ := result
    · exact congrArg (Prod.mk s₁) hwriters
    · exact congrArg (fun writers => (s₁, w :: writers)) hwriters
  | call op | finish userType | drop =>
    cases opened with
    | nil =>
      rw [List.map_nil, eq_comm, List.map_eq_nil_iff] at hwriters
      rw [hwriters]
    | cons f rest =>
      obtain ⟨f', rest', rfl, hf, hrest⟩ := List.map_eq_cons_iff.mp hwriters.symm
      simp only [view, step, hf, hrest, List.map_cons, Frame.called]

/-- What can be seen of a desk after some moves depends on what could be seen of it before. -/
theorem view_run {d d' : Desk} (h : d.view = d'.view) (moves : List Move) :
    (d.run moves).view = (d'.run moves).view := by
  induction moves generalizing d d' with
  | nil => exact h
  | cons move moves ih => exact ih (view_step h move)

/-- A call that changes nothing about its writer and the session changes nothing at the desk. -/
theorem view_call {s : Session} {f : Frame} {rest : List Frame} {op : ObjectOp} {e : Stop}
    (h : ObjectM.runOp WriteM.writeValue op ⟨f.writer, s⟩ = (.error e, ⟨f.writer, s⟩)) :
    (step ⟨s, f :: rest⟩ (.call op)).view = view ⟨s, f :: rest⟩ := by
  simp only [step, h]
  rfl

/-- Whatever was done at a desk before, the innermost writer refuses a call for a field for one of four
    reasons: the raw section is begun, which is looked at first; the name has no id; the id is that of a
    field that this very writer accepted; or the offset does not fit 32 bits.  A call that is refused
    leaves everything as it is, so whatever is done afterwards, up to finishing the object and beyond, goes
    as if the call had not been made.  A call that is not refused has its field begun, and can fail by its
    value only.  No offset is too large on a tape that holds less than 32 bits can count. -/
theorem refused_call {s : Session} {moves : List Move} {f : Frame} {rest : List Frame}
    (h : (run ⟨s, []⟩ moves).opened = f :: rest) {op : ObjectOp} (hop : op.isField) :
    let d := run ⟨s, []⟩ moves
    let o : OpenObject := ⟨f.writer, d.session⟩
    let id? := op.fieldId? d.session.service f.writer.typeId
    let offset := d.session.tape.cursor - f.writer.start
    let refusal := f.writer.refusal? d.session f.ids op
    (∀ e, refusal = some e ↔
      f.writer.rawStart.isSome ∧ e = .error .rawModeActive ∨
      f.writer.rawStart = none ∧
        ((∃ name, op.fieldName? = some name ∧ id? = none ∧
          e = .error (.unresolvedField f.writer.typeId name)) ∨
        ∃ id, id? = some id ∧
          (id ∈ f.ids ∧ e = .error (.duplicateField id) ∨
          id ∉ f.ids ∧ UInt32.size ≤ offset ∧
            e = .error (.tooLarge ("field offset " ++ toString offset))))) ∧
    (∀ e, refusal = some e →
      (∀ rec, (ObjectM.runOp rec op).run o = (.error e, o)) ∧
      ∀ later, ((d.step (.call op)).run later).view = (d.run later).view) ∧
    (refusal = none → (o.begun op).writer.fieldCount = f.writer.fieldCount + 1 ∧
      ∀ rec, (ObjectM.runOp rec op).run o =
        (do ObjectM.inSession (op.content rec); ObjectM.noteObject op .none).run (o.begun op)) ∧
    (max s.tape.capacity s.tape.growth.largest < UInt32.size → offset < UInt32.size) := by
  intro d o id? offset refusal
  have hempty : Sound ⟨s, []⟩ := trivial
  have hchain : Chain d.opened d.session.fields d.session.tape.cursor := hempty.run moves
  rw [h] at hchain
  have hf : f.Sound d.session.fields d.session.tape.cursor := hchain.1
  have hids : o.fieldIds = f.ids := congrArg Schema.fieldIds hf.schema
  have hrefusal : o.writer.refusal? o.session o.fieldIds op = refusal := by rw [hids]
  refine ⟨fun e => ?_, fun e he => ?_, fun hnone => ?_, fun hbound => ?_⟩
  · have hstart : f.writer.start ≤ d.session.tape.cursor := by
      obtain ⟨hheader, hdata⟩ := hf.data
      omega
    exact ObjectWriter.refusal?_eq_some hstart
  · have hrefused := fun rec => ObjectM.runOp_refused rec hop (hrefusal.trans he)
    refine ⟨hrefused, fun later => view_run ?_ later⟩
    have hd : d = ⟨d.session, f :: rest⟩ := congrArg (Desk.mk d.session) h
    rw [hd]
    exact view_call (hrefused WriteM.writeValue)
  · exact ⟨ObjectM.fieldCount_begun hop (hrefusal.trans hnone),
      fun rec => ObjectM.runOp_begun rec hop (hrefusal.trans hnone)⟩
  · -- The cursor is in the storage, and the storage does not outgrow its bound.
    have hroomy : Roomy ⟨s, []⟩ := fun hopened => absurd rfl hopened
    have hroom : d.session.tape.cursor ≤ d.session.tape.capacity :=
      hroomy.run moves fun hclosed => by cases h.symm.trans hclosed
    have hbounded : d.session.tape.capacity ≤ max s.tape.capacity s.tape.growth.largest :=
      (onward_run ⟨s, []⟩ moves).tape.bounded
    omega

/-- A field whose name was there in another spelling is refused, and nothing is written for it. -/
theorem refused_call_sample : ∃ f, (run ⟨sampleStart, []⟩ sampleMoves).opened = [f] ∧
    (ObjectOp.field "A" .null).isField = true ∧
    let d := run ⟨sampleStart, []⟩ sampleMoves
    (ObjectM.runOp WriteM.writeValue (.field "A" .null)).run ⟨f.writer, d.session⟩ =
        (.error (.error (.duplicateField 97)), ⟨f.writer, d.session⟩) ∧
      ∀ later, ((d.step (.call (.field "A" .null))).run later).view = (d.run later).view := by
  have hopened : (run ⟨sampleStart, []⟩ sampleMoves).opened.map
      (fun f => (f.ids, f.writer.rawStart, f.writer.typeId)) = [([97, 12], none, 7)] := by
    decide +kernel
  obtain ⟨f, rest, hf, hknown, hrest⟩ := List.map_eq_cons_iff.mp hopened
  obtain ⟨hids, hknown⟩ := Prod.mk.inj hknown
  obtain ⟨hraw, htype⟩ := Prod.mk.inj hknown
  rw [List.map_eq_nil_iff.mp hrest] at hf
  have hop : (ObjectOp.field "A" .null).isField = true := rfl
  -- The names of fields do not tell the case of their letters.
  have hid : (run ⟨sampleStart, []⟩ sampleMoves).session.service.fieldId? f.writer.typeId "A" =
      some 97 := by
    rw [htype]
    decide +kernel
  have hmem : (97 : Int32) ∈ f.ids := by rw [hids]; decide
  obtain ⟨hreasons, hrefused, -, -⟩ := refused_call hf hop
  have hduplicate := (hreasons (.error (.duplicateField 97))).mpr
    (.inr ⟨hraw, .inr ⟨97, hid, .inl ⟨hmem, rfl⟩⟩⟩)
  obtain ⟨hrun, hlater⟩ := hrefused _ hduplicate
  exact ⟨f, hf, hop, hrun WriteM.writeValue, hlater⟩

end Desk

end ObjectWire
