import ObjectWire.Proofs.Keeps
import ObjectWire.Proofs.ObjectAction

/-!
# What a call on a writer puts on the stack

A call on an object's writer puts at most one entry on the field stack, and which one is known before
the call: `ObjectWriter.newFields`.  Whether the call succeeds is of no account, since a value that
fails leaves its field counted.  Nor does it matter for the raw section, which is begun at the cursor
before anything is written to it.  Everything below the entry stays, whatever other writers are begun
inside the call and however they end (`OpenObject.Adds`).
-/

namespace ObjectWire

open ObjectWire.Action

/-- The id under which a call begins a field, if there is one. -/
def ObjectOp.fieldId? (service : TypeService) (typeId : Int32) : ObjectOp → Option Int32
  | .typed name _ | .field name _ | .detached name _ => service.fieldId? typeId name
  | .fieldId id _ | .fieldIdUnfolded id _ => some id
  | .setSchemaId _ | .schema | .raw _ | .session _ => none
  | .attempt op => op.fieldId? service typeId

/-- Whether the schema id keeps up with the fields over a call. -/
def ObjectOp.folds : ObjectOp → Bool
  | .fieldIdUnfolded _ _ | .setSchemaId _ => false
  | .attempt op => op.folds
  | .typed _ _ | .field _ _ | .fieldId _ _ | .detached _ _ | .schema | .raw _ | .session _ => true

/-- Whether a call begins the raw section, unless it is begun already. -/
def ObjectOp.entersRaw : ObjectOp → Bool
  | .raw _ => true
  | .attempt op => op.entersRaw
  | .typed _ _ | .field _ _ | .fieldId _ _ | .fieldIdUnfolded _ _ | .detached _ _ | .setSchemaId _
  | .schema | .session _ => false

/-- Where a call begins the raw section. -/
def ObjectOp.rawPlace? (cursor : Nat) (op : ObjectOp) : Option Nat :=
  if op.entersRaw then some cursor else none

/-- The entry that a field gets: its id and the offset of the cursor.  None once the raw section is
    begun, for an id that a field of the object has, and for an offset that 32 bits cannot hold. -/
def ObjectWriter.accept? (w : ObjectWriter) (cursor : Nat) (ids : List Int32) (id : Int32) :
    Option FieldEntry :=
  if w.rawStart = none ∧ id ∉ ids ∧ w.start ≤ cursor ∧ cursor - w.start < UInt32.size then
    some ⟨id, UInt32.ofNat (cursor - w.start)⟩
  else none

/-- Why a writer with fields of the given ids refuses one more, if it does. -/
def ObjectWriter.refuses? (w : ObjectWriter) (cursor : Nat) (ids : List Int32) (id : Int32) :
    Option Stop :=
  if w.rawStart.isSome then some (.error .rawModeActive)
  else if id ∈ ids then some (.error (.duplicateField id))
  else if cursor < w.start then some .outOfRange
  else if UInt32.size ≤ cursor - w.start then
    some (.error (.tooLarge ("field offset " ++ toString (cursor - w.start))))
  else none

/-- A writer accepts a field before its raw section, under a new id and within 32 bits of its start. -/
theorem ObjectWriter.refuses?_eq_none {w : ObjectWriter} {cursor : Nat} {ids : List Int32} {id : Int32} :
    w.refuses? cursor ids id = none ↔
      w.rawStart = none ∧ id ∉ ids ∧ w.start ≤ cursor ∧ cursor - w.start < UInt32.size := by
  simp only [refuses?]
  by_cases hraw : w.rawStart.isSome
  · have hne : w.rawStart ≠ none := Option.isSome_iff_ne_none.mp hraw
    simp [hraw, hne]
  · have hnone : w.rawStart = none := Option.not_isSome_iff_eq_none.mp hraw
    by_cases hids : id ∈ ids
    · simp [hnone, hids]
    · by_cases hstart : cursor < w.start
      · simp [hnone, hids, hstart]
      · simp [hnone, hids, hstart, Nat.le_of_not_lt hstart]

/-- A field that is not refused is accepted. -/
theorem ObjectWriter.accept?_isSome {w : ObjectWriter} {cursor : Nat} {ids : List Int32} {id : Int32} :
    (w.accept? cursor ids id).isSome ↔ w.refuses? cursor ids id = none := by
  rw [refuses?_eq_none, accept?]
  split
  · next haccept => exact iff_of_true rfl haccept
  · next hrefuse => exact iff_of_false Bool.false_ne_true hrefuse

/-- The entries that a call puts on the stack, for a writer with fields of the given ids. -/
def ObjectWriter.newFields (w : ObjectWriter) (s : Session) (ids : List Int32) (op : ObjectOp) :
    List FieldEntry :=
  ((op.fieldId? s.service w.typeId).bind (w.accept? s.tape.cursor ids)).toList

namespace OpenObject

/-- The ids of the fields so far, as the stack has them. -/
def fieldIds (o : OpenObject) : List Int32 :=
  (o.session.fields.schema o.writer.fieldCount).fieldIds

/-- The place lies before the cursor and before every place left open in the raw section. -/
structure Behind (place : Nat) (o : OpenObject) : Prop where
  cursor : place ≤ o.session.tape.cursor
  slots : ∀ slot ∈ o.writer.slots, place ≤ slot

/-- The entries are put on the stack and counted by the writer, and the session is kept otherwise.  If
    `folds` holds, the schema id takes them in.  The raw section is begun at `raw`, unless it was begun
    before.  An object behind `place` stays so, and leaves the bytes before it as they are. -/
structure Adds (place : Nat) (entries : List FieldEntry) (folds : Bool) (raw : Option Nat)
    (o o' : OpenObject) : Prop where
  start : o'.writer.start = o.writer.start
  dataStart : o'.writer.dataStart = o.writer.dataStart
  typeId : o'.writer.typeId = o.writer.typeId
  registered : o'.writer.registered = o.writer.registered
  session : o.session.Onward 0 o'.session
  kept : o.Behind place → o.session.Onward place o'.session ∧ o'.Behind place
  fields : o'.session.fields.entries = entries.reverse ++ o.session.fields.entries
  fieldCount : o'.writer.fieldCount = o.writer.fieldCount + entries.length
  schemaId : folds →
    o'.writer.schemaId = (entries.map (·.id)).foldl SchemaId.push o.writer.schemaId
  rawStart : o'.writer.rawStart = o.writer.rawStart.or raw

namespace Adds

variable {place : Nat} {o o₁ o₂ : OpenObject} {entries entries' : List FieldEntry} {folds : Bool}
  {raw raw' : Option Nat}

/-- A step of the session alone, which may count on all that is before the object. -/
theorem of_behind {s : Session} (h : o.session.Keeps s)
    (hkept : o.Behind place → o.session.KeepsFrom place s) (folds : Bool) :
    Adds place [] folds none o { o with session := s } where
  start := rfl
  dataStart := rfl
  typeId := rfl
  registered := rfl
  session := h.toOnward
  kept hbehind := ⟨(hkept hbehind).toOnward, Nat.le_trans hbehind.cursor h.cursor, hbehind.slots⟩
  fields := congrArg FieldStack.entries h.fields
  fieldCount := rfl
  schemaId _ := rfl
  rawStart := (Option.or_none ..).symm

/-- A step of the session alone. -/
theorem of_session {s : Session} (h : o.session.KeepsFrom place s) (folds : Bool) :
    Adds place [] folds none o { o with session := s } := of_behind h.bare (fun _ => h) folds

theorem nothing (place : Nat) (folds : Bool) (o : OpenObject) : Adds place [] folds none o o :=
  of_session (refl_of (Session.KeepsFrom place) o.session) folds

/-- Calls one after the other add their entries one on top of the other. -/
theorem append (h : Adds place entries folds raw o o₁) (h' : Adds place entries' folds raw' o₁ o₂) :
    Adds place (entries ++ entries') folds (raw.or raw') o o₂ where
  start := h'.start.trans h.start
  dataStart := h'.dataStart.trans h.dataStart
  typeId := h'.typeId.trans h.typeId
  registered := h'.registered.trans h.registered
  session := h.session.trans h'.session
  kept hbehind := by
    obtain ⟨honward, hbehind₁⟩ := h.kept hbehind
    obtain ⟨honward', hbehind₂⟩ := h'.kept hbehind₁
    exact ⟨honward.trans honward', hbehind₂⟩
  fields := by rw [h'.fields, h.fields, List.reverse_append, List.append_assoc]
  fieldCount := by rw [h'.fieldCount, h.fieldCount, List.length_append, Nat.add_assoc]
  schemaId hfolds := by
    rw [h'.schemaId hfolds, h.schemaId hfolds, List.map_append, List.foldl_append]
  rawStart := by rw [h'.rawStart, h.rawStart, Option.or_assoc]

theorem weaken (h : Adds place entries folds raw o o₁) : Adds place entries false raw o o₁ :=
  { h with schemaId := fun hfolds => absurd hfolds Bool.false_ne_true }

end Adds

variable {place : Nat}

/-- No entry is put on the stack, and the raw section is not begun. -/
abbrev Quiet (place : Nat) : OpenObject → OpenObject → Prop := Adds place [] true none

/-- Entries are put on the stack, and nothing below them is touched. -/
def Grows (place : Nat) (o o' : OpenObject) : Prop := ∃ entries raw, Adds place entries false raw o o'

instance : IsPreorder OpenObject (Quiet place) where
  refl := .nothing place true
  trans _ _ _ h h' := h.append h'

instance : IsPreorder OpenObject (Grows place) where
  refl o := ⟨[], none, .nothing place false o⟩
  trans _ _ _ := by
    rintro ⟨_, _, h⟩ ⟨_, _, h'⟩
    exact ⟨_, _, h.append h'⟩

/-- A quiet step behind another one adds nothing to what that one adds. -/
theorem Adds.quiet {o o₁ o₂ : OpenObject} {entries : List FieldEntry} {folds : Bool} {raw : Option Nat}
    (h : Adds place entries folds raw o o₁) (h' : Quiet place o₁ o₂) :
    Adds place entries folds raw o o₂ := by
  have hq : Adds place [] folds none o₁ o₂ := { h' with schemaId := fun _ => h'.schemaId rfl }
  have happend := h.append hq
  rwa [List.append_nil, Option.or_none] at happend

end OpenObject

namespace ObjectM

open OpenObject

variable {α : Type} {place : Nat}

/-- What follows a call quietly is part of the call. -/
theorem adds_bind {β : Type} {entries : OpenObject → List FieldEntry} {folds : Bool}
    {raw : OpenObject → Option Nat} {x : ObjectM α} {f : α → ObjectM β}
    (hx : Within (fun o => Adds place (entries o) folds (raw o) o) x)
    (hf : ∀ a, Within (Quiet place) (f a)) :
    Within (fun o => Adds place (entries o) folds (raw o) o) (x >>= f) := by
  have hquiet : ∀ o o₁ o', Adds place (entries o) folds (raw o) o o₁ → Quiet place o₁ o' →
      Adds place (entries o) folds (raw o) o o' := fun _ _ _ => Adds.quiet
  exact Within.seq hquiet hx fun _ => hf _ _

/-- A write in the session puts nothing on the stack of the object's own fields. -/
theorem quiet_inSession {x : WriteM α} (h : Within (Session.KeepsFrom place) x) :
    Within (Quiet place) (inSession x) := fun o => .of_session (h o.session) true

/-- A note adds nothing. -/
theorem quiet_note (op : ObjectOp) (outcome : Outcome) :
    Within (Quiet place) (noteObject op outcome) :=
  .update fun o => .of_session (WriteM.keeps_journal (fun _ => _) o.session) true

/-- To begin the raw section adds no field, and closes the object for more. -/
theorem adds_enterRaw :
    Within (fun o => Adds place [] true (some o.session.tape.cursor) o) enterRaw := by
  intro o
  have hquiet : Quiet place o o := .nothing place true o
  refine { hquiet with kept := fun hbehind => ⟨.refl .., hbehind.cursor, hbehind.slots⟩, rawStart := ?_ }
  show some (o.writer.rawStart.getD o.session.tape.cursor) = _
  cases o.writer.rawStart <;> rfl

/-- How far the object has come is measured without changing anything. -/
theorem run_distance (o : OpenObject) :
    (inSession (do WriteM.distance o.writer.start (← WriteM.position))).run o =
      if o.writer.start ≤ o.session.tape.cursor then
        (.ok (o.session.tape.cursor - o.writer.start), o)
      else (.error .outOfRange, o) := by
  show (inSession (WriteM.distance o.writer.start o.session.tape.cursor)).run o = _
  unfold WriteM.distance
  split <;> rfl

/-- The ids on top of the stack are those of the object. -/
theorem contains_iff {o : OpenObject} {id : Int32} :
    o.session.fields.contains o.writer.fieldCount id = true ↔ id ∈ o.fieldIds := by
  simp [FieldStack.contains, fieldIds, FieldStack.schema]

/-- A field is begun, or refused with nothing changed. -/
theorem run_pushField (id : Int32) (fold : Bool) (o : OpenObject) :
    (pushField id fold).run o =
      (o.writer.refuses? o.session.tape.cursor o.fieldIds id).elim (.ok (), withField o id fold)
        fun e => (.error e, o) := by
  -- The checks come in the order of the code; each that fails leaves the writer as it is.
  simp only [pushField, writer, run_read_bind, ObjectWriter.refuses?]
  by_cases hraw : o.writer.rawStart.isSome
  · simp only [hraw, if_true, run_fail_bind, Option.elim_some]
  · simp only [hraw, Bool.false_eq_true, if_false, run_read_bind]
    by_cases hnew : id ∈ o.fieldIds
    · simp only [contains_iff.mpr hnew, hnew, if_true, run_fail_bind, Option.elim_some]
    · rw [if_neg (fun h => hnew (contains_iff.mp h)), if_neg hnew, run_bind, run_distance]
      by_cases hstart : o.writer.start ≤ o.session.tape.cursor
      · simp only [hstart, if_true, Nat.not_lt.mpr hstart, if_false]
        by_cases hsize : UInt32.size ≤ o.session.tape.cursor - o.writer.start
        · simp only [hsize, if_true, run_fail_bind, Option.elim_some]
        · simp only [hsize, if_false]
          rfl
      · simp only [hstart, if_false, Nat.lt_of_not_le hstart, if_true, Option.elim_some]

/-- A field that is accepted is put on the stack, and one that is not changes nothing. -/
theorem pushField_state (id : Int32) (fold : Bool) (o : OpenObject) :
    ((pushField id fold).run o).2 =
      if (o.writer.accept? o.session.tape.cursor o.fieldIds id).isSome then withField o id fold
      else o := by
  rw [run_pushField]
  cases hrefuses : o.writer.refuses? o.session.tape.cursor o.fieldIds id with
  | none => rw [if_pos (ObjectWriter.accept?_isSome.mpr hrefuses), Option.elim_none]
  | some e =>
    have hnone : ¬ (o.writer.accept? o.session.tape.cursor o.fieldIds id).isSome := fun haccept => by
      cases hrefuses.symm.trans (ObjectWriter.accept?_isSome.mp haccept)
    rw [if_neg hnone, Option.elim_some]

/-- A field is put on the stack if the writer accepts its id, and otherwise the call stops before. -/
theorem adds_pushField (id : Int32) (fold : Bool) :
    Within (fun o =>
        Adds place (o.writer.accept? o.session.tape.cursor o.fieldIds id).toList fold none o)
      (pushField id fold) := by
  intro o
  have hstate := pushField_state id fold o
  unfold run at hstate
  rw [hstate]
  -- The field is on the stack if and only if the writer accepted it.
  cases haccept : o.writer.accept? o.session.tape.cursor o.fieldIds id with
  | none => exact .nothing place fold o
  | some entry =>
    have hentry : entry = ⟨id, UInt32.ofNat (o.session.tape.cursor - o.writer.start)⟩ := by
      unfold ObjectWriter.accept? at haccept
      split at haccept
      · exact (Option.some.inj haccept).symm
      · cases haccept
    subst hentry
    exact {
      start := rfl
      dataStart := rfl
      typeId := rfl
      registered := rfl
      session := .of_fields (.refl 0 o.session) _
      kept := fun hbehind => ⟨.of_fields (.refl place o.session) _, hbehind.cursor, hbehind.slots⟩
      fields := rfl
      fieldCount := rfl
      schemaId := fun hfold => if_pos hfold
      rawStart := (Option.or_none ..).symm }

/-- A name is looked up only before the raw section. -/
theorem run_beginField (name : String) (o : OpenObject) :
    (beginField name).run o =
      if o.writer.rawStart.isSome then (.error (.error .rawModeActive), o)
      else
        match o.session.service.fieldId? o.writer.typeId name with
        | some id => (pushField id true).run o
        | none => (.error (.error (.unresolvedField o.writer.typeId name)), o) := by
  simp only [beginField, writer, run_read_bind]
  by_cases hraw : o.writer.rawStart.isSome
  · simp only [hraw, if_true, run_fail_bind]
  · simp only [hraw, Bool.false_eq_true, if_false, run_read_bind]
    cases o.session.service.fieldId? o.writer.typeId name <;> rfl

/-- A named field is accepted under the id of its name. -/
theorem adds_beginField (name : String) :
    Within (fun o => Adds place ((o.session.service.fieldId? o.writer.typeId name).bind
        (o.writer.accept? o.session.tape.cursor o.fieldIds)).toList true none o)
      (beginField name) := by
  intro o
  show Adds place _ true none o ((beginField name).run o).2
  rw [run_beginField]
  by_cases hraw : o.writer.rawStart.isSome
  · -- Whatever the name's id is, it would not be accepted.
    have hnone : ∀ id, o.writer.accept? o.session.tape.cursor o.fieldIds id = none :=
      fun id => if_neg fun h => Option.isSome_iff_ne_none.mp hraw h.1
    rw [if_pos hraw]
    cases o.session.service.fieldId? o.writer.typeId name with
    | none => exact .nothing place true o
    | some id =>
      rw [Option.bind_some, hnone]
      exact .nothing place true o
  · rw [if_neg hraw]
    cases o.session.service.fieldId? o.writer.typeId name with
    | none => exact .nothing place true o
    | some id => exact adds_pushField id true o

end ObjectM

/-- A writer that is begun has no fields, the schema id of no fields, and its data at the cursor, behind
    the room for the header and inside the storage. -/
theorem ObjectWriter.begin_fresh {typeId : Int32} {inlineName : Option String} {s s' : Session}
    {w : ObjectWriter} (h : (begin typeId inlineName).Yields s w s') :
    w = {
      start := s.tape.cursor
      dataStart := s'.tape.cursor
      typeId
      registered := inlineName.isNone
      schemaId := SchemaId.seed
      fieldCount := 0
      rawStart := none
      slots := [] } ∧
      s.tape.cursor + Header.size ≤ s'.tape.cursor ∧ s'.tape.cursor ≤ s'.tape.capacity := by
  -- The place where the data starts is read off the cursor last of all.
  simp only [begin, yields_bind, WriteM.yields_position, WriteM.yields_onTape, Tape.seek,
    yields_update] at h
  obtain ⟨_, _, ⟨rfl, rfl⟩, _, _, ⟨t, hreserve, rfl⟩, _, s₂, ⟨_, rfl, hskip⟩, h⟩ := h
  have hcursor : s₂.tape.cursor = s.tape.cursor + Header.size := by rw [← hskip]
  have hroom : s₂.tape.cursor ≤ s₂.tape.capacity := by
    rw [← hskip]
    exact (Tape.reserve_grown hreserve).2
  cases inlineName with
  | none =>
    simp only [yields_bind, WriteM.yields_position, yields_pure] at h
    obtain ⟨_, _, ⟨rfl, rfl⟩, rfl, rfl⟩ := h
    exact ⟨rfl, Nat.le_of_eq hcursor.symm, hroom⟩
  | some name =>
    simp only [yields_bind, WriteM.yields_position, yields_pure] at h
    obtain ⟨_, _, hname, _, _, ⟨rfl, rfl⟩, rfl, rfl⟩ := h
    have hkeeps : Session.Keeps s₂ _ := (WriteM.keeps_writePlain (.string name)).of_yields hname
    exact ⟨rfl, hcursor ▸ hkeeps.cursor, hkeeps.tape.room hroom⟩

/-- Writing an object keeps the fields of the objects around it, since what its body adds is just what
    comes off in the end. -/
theorem WriteM.keeps_writeFramed {place : Nat} {body : ObjectM Unit}
    (h : ∀ {place : Nat}, Within (OpenObject.Grows place) body) (typeId : Int32)
    (inlineName : Option String) (userType : Option Bool) :
    Within (Session.KeepsFrom place) (writeFramed typeId inlineName body userType) := by
  intro s₀
  -- The header is filled in where the cursor was, so all bytes before that stay.
  apply Session.KeepsFrom.of_cursor
  refine Within.bind_at (ObjectWriter.keeps_begin typeId inlineName s₀) fun {w s} hbegin => ?_
  obtain ⟨hw, hdata, -⟩ := ObjectWriter.begin_fresh hbegin
  have hgrows : OpenObject.Grows s₀.tape.cursor _ _ := h ⟨w, s⟩
  obtain ⟨entries, raw, hadds⟩ := hgrows
  have hstart : s₀.tape.cursor = w.start := by rw [hw]
  have hcount : w.fieldCount = 0 := by rw [hw]
  have hbehind : OpenObject.Behind s₀.tape.cursor ⟨w, s⟩ :=
    ⟨Nat.le_trans (Nat.le_add_right ..) hdata, by simp [hw]⟩
  generalize s₀.tape.cursor = place at hstart hadds hbehind ⊢
  -- Off the stack come as many entries as the body has put on it.
  have hrelease : ∀ {o : OpenObject} {s' : Session},
      OpenObject.Adds place entries false raw ⟨w, s⟩ o → o.session.KeepsFrom place s' →
      s.KeepsFrom place (o.writer.release s') := by
    intro o s' ho hs'
    have hpop : o.session.fields.entries.drop o.writer.fieldCount = s.fields.entries := by
      rw [ho.fields, ho.fieldCount, hcount, Nat.zero_add, ← List.length_reverse, List.drop_left]
    have honward : s.Onward place o.session := (ho.kept hbehind).1
    exact ⟨.of_fields (honward.trans hs'.toOnward) _, congrArg FieldStack.mk (hs'.fields ▸ hpop)⟩
  generalize body ⟨w, s⟩ = result at hadds ⊢
  -- The entries come off when the body fails, when the writer is dropped, and at its end or failure.
  obtain ⟨e | _, writer, session⟩ := result
  · exact hrelease hadds (refl_of (Session.KeepsFrom place) session)
  · cases userType with
    | none => exact hrelease hadds (refl_of (Session.KeepsFrom place) session)
    | some userType =>
      have hplace : place ≤ writer.start := Nat.le_of_eq (hstart.trans hadds.start.symm)
      have hfinish := ObjectWriter.keepsFrom_finish hplace userType session
      simp only
      generalize writer.finish userType session = result at hfinish ⊢
      obtain ⟨e | written, s'⟩ := result
      · exact hrelease hadds hfinish
      · exact hrelease hadds hfinish

namespace ObjectM

open OpenObject WriteM

variable {rec : Value → WriteM Unit} {place : Nat}
  (hrec : ∀ {place : Nat} (v : Value), Within (Session.KeepsFrom place) (rec v))

include hrec

omit hrec in
/-- A place that is reserved lies at the cursor. -/
theorem quiet_reserveSlot : Within (Quiet place) reserveSlot := by
  intro o
  refine Within.seq_at (Q := fun o₁ o' => o' = { o₁ with
      writer := { o₁.writer with slots := o₁.writer.slots ++ [o.session.tape.cursor] } }) ?_
    (quiet_inSession (keeps_skip 4 fun _ => .pure _) o) ?_
  · rintro o₁ _ hskip rfl
    refine { hskip with kept := fun hbehind => ?_ }
    obtain ⟨honward, hbehind₁⟩ := hskip.kept hbehind
    refine ⟨honward, hbehind₁.cursor, fun slot hslot => ?_⟩
    -- The new place is where the cursor was, and no earlier.
    obtain hslot | hslot := List.mem_append.mp hslot
    · exact hbehind₁.slots slot hslot
    · exact List.mem_singleton.mp hslot ▸ hbehind.cursor
  · intro here o₁ hskip
    simp only [WriteM.reserveSlot, yields_inSession, yields_bind, yields_position, yields_pure] at hskip
    obtain ⟨_, ⟨_, _, ⟨rfl, rfl⟩, _, _, -, _, _, -, rfl, -⟩, -⟩ := hskip
    rfl

omit hrec in
/-- A place that is filled in is one of those left open. -/
theorem quiet_fillSlot (slot : Nat) (v : Int32) : Within (Quiet place) (fillSlot slot v) := by
  intro o
  refine Within.bind_at (refl_of (Quiet place) o) fun {w o₁} hw => ?_
  obtain ⟨rfl, rfl⟩ := (yields_writer ..).mp hw
  cases hslot : o.writer.slots[slot]? with
  | none => exact refl_of (Quiet place) o
  | some position =>
    have hpatch : ∀ {p : Nat}, p ≤ position → o.session.KeepsFrom p
        (onTape (Tape.patch position (Word.bytes v)) o.session).2 :=
      fun hle => keeps_onTape (Tape.onward_patch hle _) o.session
    exact .of_behind (hpatch (Nat.zero_le _))
      (fun hbehind => hpatch (hbehind.slots position (List.mem_of_getElem? hslot))) true

/-- No call on the raw section adds a field. -/
theorem quiet_runRaw (first : Nat) (op : RawOp) : Within (Quiet place) (runRaw rec first op) := by
  cases op with
  | text v => exact quiet_inSession (keeps_writePlain _)
  | value v => exact quiet_inSession (hrec v)
  | detached v => exact quiet_inSession (keeps_detached (hrec v))
  | reserve => exact quiet_reserveSlot
  | fill slot v => exact quiet_fillSlot _ v
  | fillEarlier slot v => exact quiet_fillSlot slot v
  | bytes v => exact quiet_inSession (keeps_onTape (Tape.onward_write v))
  | u8 v | i16 v | u16 v | i32 v | i64 v | f32 v | f64 v | bool v =>
    exact quiet_inSession (keeps_writeWord v)

/-- The raw section is begun at the cursor, and its places all lie behind that. -/
theorem adds_raw (ops : List RawOp) :
    Within (fun o => Adds place [] true (some o.session.tape.cursor) o)
      (enterRaw >>= fun _ => runRaws rec ops) := by
  apply adds_bind adds_enterRaw
  intro _
  refine Within.bind (.read _) fun w => ?_
  apply (Within.forEach (quiet_runRaw hrec _) ops).bind
  intro _
  exact Within.bind (.read _) fun w => .pure _

/-- A typed field is accepted or not before its value is written. -/
theorem adds_writeTyped (name : String) (v : TypedField) :
    Within (fun o => Adds place (o.writer.newFields o.session o.fieldIds (.typed name v)) true none o)
      (writeTyped rec name v) := by
  rw [writeTyped_eq]
  -- What a value of a primitive type writes adds no fields, and neither does an object in its place.
  refine adds_bind (adds_beginField name) fun _ => quiet_inSession ?_
  split
  · exact keeps_writePlain _
  · exact hrec _

omit hrec in
/-- A call for no field puts no entry on the stack. -/
theorem adds_fieldless {op : ObjectOp} {folds : Bool} {raw : OpenObject → Option Nat} {x : ObjectM Unit}
    (hid : ∀ service typeId, op.fieldId? service typeId = none)
    (h : Within (fun o => Adds place [] folds (raw o) o) x) :
    Within (fun o => Adds place (o.writer.newFields o.session o.fieldIds op) folds (raw o) o) x := by
  intro o
  have hnew : o.writer.newFields o.session o.fieldIds op = [] := by
    rw [ObjectWriter.newFields, hid]
    rfl
  rw [hnew]
  exact h o

end ObjectM

section

open OpenObject WriteM ObjectM

variable {rec : Value → WriteM Unit}

mutual

/-- Every call on a writer puts on the stack the entry known before, if there is one, whether the call
    succeeds or not. -/
theorem ObjectM.adds_runOp
    (hrec : ∀ {place : Nat} (v : Value), Within (Session.KeepsFrom place) (rec v)) {place : Nat} :
    (op : ObjectOp) →
    Within (fun o => Adds place (o.writer.newFields o.session o.fieldIds op) op.folds
      (op.rawPlace? o.session.tape.cursor) o) (ObjectM.runOp rec op)
  | .typed name v => by
    rw [ObjectM.runOp]
    exact adds_bind (adds_writeTyped hrec name v) fun _ => quiet_note _ _
  | .field name v => by
    rw [ObjectM.runOp]
    refine adds_bind ?_ fun _ => quiet_note _ _
    exact adds_bind (adds_beginField name) fun _ => quiet_inSession (hrec v)
  | .fieldId id v => by
    rw [ObjectM.runOp]
    refine adds_bind ?_ fun _ => quiet_note _ _
    exact adds_bind (adds_pushField id true) fun _ => quiet_inSession (hrec v)
  | .fieldIdUnfolded id v => by
    rw [ObjectM.runOp]
    refine adds_bind ?_ fun _ => quiet_note _ _
    exact adds_bind (adds_pushField id false) fun _ => quiet_inSession (hrec v)
  | .detached name v => by
    rw [ObjectM.runOp]
    refine adds_bind ?_ fun _ => quiet_note _ _
    exact adds_bind (adds_beginField name) fun _ => quiet_inSession (keeps_detached (hrec v))
  | .setSchemaId id => by
    rw [ObjectM.runOp]
    refine adds_bind ?_ fun _ => quiet_note _ _
    -- The id is replaced, so nothing is promised about it.
    intro o
    exact { Adds.nothing place false o with
      kept := fun hbehind => ⟨.refl .., hbehind.cursor, hbehind.slots⟩
      schemaId := fun h => absurd h Bool.false_ne_true }
  | .schema => by
    rw [ObjectM.runOp]
    apply adds_fieldless fun _ _ => rfl
    have hread : Within (Quiet place) ObjectM.schema := .read _
    exact hread.bind fun _ => quiet_note _ _
  | .raw ops => by
    rw [ObjectM.runOp, ← bind_assoc]
    apply adds_fieldless fun _ _ => rfl
    exact adds_bind (adds_raw hrec ops) fun _ => quiet_note _ _
  | .session ops => by
    rw [ObjectM.runOp]
    apply adds_fieldless fun _ _ => rfl
    have hops : Within (Quiet place) (inSession (WriteM.runOps rec ops)) :=
      quiet_inSession (WriteM.keeps_runOps hrec ops)
    exact hops.bind fun _ => quiet_note _ _
  | .attempt op => by
    rw [ObjectM.runOp]
    exact adds_bind (ObjectM.adds_runOp hrec op).attempt fun _ => quiet_note _ _

/-- Calls on a writer leave everything below its own entries. -/
theorem ObjectM.grows_runOps
    (hrec : ∀ {place : Nat} (v : Value), Within (Session.KeepsFrom place) (rec v)) {place : Nat} :
    (ops : List ObjectOp) → Within (Grows place) (ObjectM.runOps rec ops)
  | [] => by
    rw [ObjectM.runOps]
    exact .pure ()
  | op :: ops => by
    rw [ObjectM.runOps]
    have hop : Within (Grows place) (ObjectM.runOp rec op) := by
      intro o
      exact ⟨_, _, (ObjectM.adds_runOp hrec op o).weaken⟩
    exact hop.bind fun _ => ObjectM.grows_runOps hrec ops

/-- Calls on a session keep the fields of the objects that are open. -/
theorem WriteM.keeps_runOp
    (hrec : ∀ {place : Nat} (v : Value), Within (Session.KeepsFrom place) (rec v)) {place : Nat} :
    (op : SessionOp) → Within (Session.KeepsFrom place) (WriteM.runOp rec op)
  | .value v => by
    rw [WriteM.runOp]
    exact (hrec v).bind fun _ => keeps_noteSession _ _
  | .detached v => by
    rw [WriteM.runOp]
    exact (keeps_detached (hrec v)).bind fun _ => keeps_noteSession _ _
  | .object node => by
    rw [WriteM.runOp]
    exact (hrec (.ref node)).bind fun _ => keeps_noteSession _ _
  | .bytes v => by
    rw [WriteM.runOp]
    exact (keeps_onTape (Tape.onward_write v)).bind fun _ => keeps_noteSession _ _
  | .begin typeId inlineName userType ops => by
    rw [WriteM.runOp]
    -- The calls on the new writer only grow the stack, and the frame takes off what they add.
    exact (keeps_writeFramed (ObjectM.grows_runOps hrec ops) typeId inlineName userType).bind fun _ =>
      keeps_noteSession _ _
  | .attempt op => by
    rw [WriteM.runOp]
    exact (WriteM.keeps_runOp hrec op).attempt.bind fun _ => keeps_noteSession _ _
  | .fieldId typeId name => by
    rw [WriteM.runOp]
    exact Within.bind (.read _) fun _ => keeps_noteSession _ _
  | .summary => by
    rw [WriteM.runOp]
    exact Within.bind (.read _) fun _ => keeps_noteSession _ _

/-- Calls on the session keep what lies before a place, one after the other. -/
theorem WriteM.keeps_runOps
    (hrec : ∀ {place : Nat} (v : Value), Within (Session.KeepsFrom place) (rec v)) {place : Nat} :
    (ops : List SessionOp) → Within (Session.KeepsFrom place) (WriteM.runOps rec ops)
  | [] => by
    rw [WriteM.runOps]
    exact .pure ()
  | op :: ops => by
    rw [WriteM.runOps]
    exact (WriteM.keeps_runOp hrec op).bind fun _ => WriteM.keeps_runOps hrec ops

end

variable {place : Nat}

section

variable (hrec : ∀ {place : Nat} (v : Value), Within (Session.KeepsFrom place) (rec v))

include hrec

/-- The body of an object grows behind the place that it began at. -/
theorem WriteM.grows_writeBody (node : NodeId) (o : UserObject) :
    Within (Grows place) (writeBody rec node o) := by
  have hquiet : ∀ {α : Type} {x : ObjectM α}, Within (Quiet place) x → Within (Grows place) x :=
    fun h o => ⟨[], none, (h o).weaken⟩
  cases o with
  | dynamic o =>
    -- A field adds its entry, and what is written for its value adds none here.
    have hfield : ∀ field : String × Value, Within (Grows place) (writeField rec field.1 field.2) := by
      intro field o
      exact ⟨_, _,
        (adds_bind (adds_beginField field.1) (fun _ => quiet_inSession (hrec field.2)) o).weaken⟩
    apply (Within.forEach hfield o.fields).bind
    intro _
    split
    · have henter : Within (Grows place) enterRaw := fun o => ⟨_, _, (adds_enterRaw o).weaken⟩
      apply henter.bind
      intro _
      exact hquiet (quiet_inSession (keeps_onTape (Tape.onward_write _)))
    · exact .pure ()
  | programmed o =>
    refine Within.bind (.read _) fun w => ?_
    apply (hquiet (quiet_inSession (keeps_note _))).bind
    intro _
    exact grows_runOps hrec o.program

/-- An object, recorded or new, keeps what lies before it. -/
theorem WriteM.keeps_writeResolved (node : NodeId) (o : UserObject) (resolved : ResolvedType) :
    Within (Session.KeepsFrom place) (writeResolved rec node o resolved) := by
  apply (keeps_writeHandle node).bind
  intro seen
  split
  · exact .pure ()
  · exact (keeps_writeFramed (grows_writeBody hrec node o) _ _ _).bind fun _ => .pure ()

omit hrec in
theorem WriteM.keeps_resolveObject (o : UserObject) :
    Within (Session.KeepsFrom place) (resolveObject o) :=
  keeps_config.bind fun _ => keeps_onService (TypeService.evolves_resolve _ _ _)

/-- An object that another one stands in for keeps what lies before it as well. -/
theorem WriteM.keeps_writeObject (node : NodeId) (o : UserObject) :
    Within (Session.KeepsFrom place) (writeObject rec node o) := by
  apply (keeps_resolveObject o).bind
  intro resolved
  split
  · exact keeps_writeResolved hrec node o resolved
  · apply (keeps_note _).bind
    intro _
    -- The program that substitutes the object changes the graph and nothing on the tape.
    apply Within.bind
    · exact fun s => ⟨⟨.refl _ _, .refl _, id, fun _ _ h => h, Graph.extends_instantiate _ _⟩, rfl⟩
    · intro v
      split
      · refine Within.bind (.read _) fun other => ?_
        split
        · exact (keeps_resolveObject _).bind fun resolved => keeps_writeResolved hrec _ _ resolved
        · exact hrec _
      · exact hrec _

/-- Every node keeps what lies before it. -/
theorem WriteM.keeps_writeNode (node : NodeId) (n : Node) :
    Within (Session.KeepsFrom place) (writeNode rec node n) := by
  cases n with
  | object o => exact keeps_writeObject hrec node o
  | array componentType items =>
    apply (keeps_writeHandle node).bind
    intro seen
    split
    · exact .pure ()
    · apply keeps_config.bind
      intro config
      apply (keeps_writeTag _).bind
      intro _
      apply (keeps_writeTypeRef _ _ _).bind
      intro _
      exact (keeps_writeCount _ _).bind fun _ => .forEach hrec items
  | collection typeName items =>
    apply (keeps_writeHandle node).bind
    intro seen
    split
    · exact .pure ()
    · refine Within.bind (.ofExcept _) fun size => ?_
      refine Within.bind (.read _) fun kind => ?_
      exact (keeps_onTape Encode.onward_tagged).bind fun _ => .forEach hrec items
  | map typeName entries =>
    apply (keeps_writeHandle node).bind
    intro seen
    split
    · exact .pure ()
    · refine Within.bind (.ofExcept _) fun size => ?_
      refine Within.bind (.read _) fun kind => ?_
      apply (keeps_onTape Encode.onward_tagged).bind
      intro _
      exact .forEach (fun entry => (hrec entry.1).bind fun _ => hrec entry.2) entries
  -- A proxy has no handle, so it is written each time it is met.
  | proxy interfaces handler =>
    apply keeps_config.bind
    intro config
    apply (keeps_onTape (Encode.onward_proxyHead _)).bind
    intro _
    apply (Within.forEach (fun name => keeps_writeTypeRef name _ _) interfaces).bind
    intro _
    exact hrec handler

end

/-- Writing a value keeps the fields of the objects that are open, by induction on the depth. -/
theorem WriteM.keeps_writeDepth (depth : Nat) (v : Value) :
    Within (Session.KeepsFrom place) (writeDepth depth v) := by
  -- By induction on the depth, for every place that the write starts behind.
  induction depth generalizing v place with
  | zero => exact .stop _
  | succ depth ih =>
    cases v with
    | plain v => exact keeps_writePlain v
    | enum v => exact keeps_writeEnum v
    | enumArray typeName items => exact keeps_writeEnumArray typeName items
    | binaryEnum v => exact keeps_writeBinaryEnum v
    | classRef typeName => exact keeps_writeClassRef typeName
    | ref node =>
      refine Within.bind (.read _) fun n => ?_
      split
      · exact keeps_writeNode ih node _
      · exact .stop _

/-- Every value keeps what lies before it, however deep the values inside are nested. -/
theorem WriteM.keeps_writeValue (v : Value) : Within (Session.KeepsFrom place) (writeValue v) :=
  fun s => keeps_writeDepth (depthOn s.tape) v s

end

end ObjectWire
