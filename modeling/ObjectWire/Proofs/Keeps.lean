import ObjectWire.Proofs.Additions
import ObjectWire.Proofs.Within

/-!
# Sessions keep what was there

Whatever a call on a session does and however it ends, it only adds: the tape goes on from where it was,
the registry and the graph lose nothing, and all handles lead back behind the cursor
(`Session.Onward`).  The fields of the objects that are open stay on the stack as they were
(`Session.KeepsFrom`).  That goes wrong only while a writer has begun its own object, so this module
stops at the parts of a writer; `WriterCalls` puts them together.
-/

namespace ObjectWire

open ObjectWire.Action

namespace Session

/-- Every node seen before was seen at the cursor or before it. -/
def HandlesBehind (s : Session) : Prop :=
  ∀ node first, s.handles.find? node = some first → first ≤ s.tape.cursor

/-- One session after the other.  The bytes on the tape stay as far as the place. -/
structure Onward (place : Nat) (s s' : Session) : Prop where
  tape : s.tape.Onward place s'.tape
  service : s.service.Evolves s'.service
  handles : s.HandlesBehind → s'.HandlesBehind
  seen : ∀ node first, s.handles.find? node = some first → s'.handles.find? node = some first
  graph : s.graph.Extends s'.graph

/-- One session after the other, with the same open fields. -/
structure KeepsFrom (place : Nat) (s s' : Session) : Prop extends Onward place s s' where
  fields : s'.fields = s.fields

/-- The fields of open objects are the same, and nothing is promised about the bytes. -/
abbrev Keeps : Session → Session → Prop := KeepsFrom 0

namespace Onward

variable {place : Nat} {s s₁ s' : Session}

/-- A session comes after itself. -/
theorem refl (place : Nat) (s : Session) : s.Onward place s :=
  ⟨.refl _ _, .refl _, id, fun _ _ h => h, .refl _⟩

/-- What is kept over two steps is kept over both. -/
theorem trans (h : s.Onward place s₁) (h' : s₁.Onward place s') : s.Onward place s' where
  tape := h.tape.trans h'.tape
  service := h.service.trans h'.service
  handles := fun hbehind => h'.handles (h.handles hbehind)
  seen node first hfind := h'.seen node first (h.seen node first hfind)
  graph := h.graph.trans h'.graph

/-- The cursor of a session is not moved back. -/
theorem cursor (h : s.Onward place s') : s.tape.cursor ≤ s'.tape.cursor := h.tape.cursor

/-- Up to the cursor is as far as it can be. -/
theorem of_cursor (h : s.Onward s.tape.cursor s') : s.Onward place s' :=
  { h with tape := h.tape.of_cursor }

/-- What is known of the bytes may be left out. -/
theorem bare (h : s.Onward place s') : s.Onward 0 s' := { h with tape := h.tape.bare }

/-- What happens to the fields is of no account. -/
theorem of_fields (h : s.Onward place s') (fields : FieldStack) :
    s.Onward place { s' with fields } := ⟨h.tape, h.service, h.handles, h.seen, h.graph⟩

/-- A step of the tape alone. -/
theorem of_tape {t : Tape} (h : s.tape.Onward place t) : s.Onward place { s with tape := t } where
  tape := h
  service := .refl _
  handles hbehind node first hfind := Nat.le_trans (hbehind node first hfind) h.cursor
  seen _ _ hfind := hfind
  graph := .refl _

/-- A step of the type service alone. -/
theorem of_service {v : TypeService} (h : s.service.Evolves v) : s.Onward place { s with service := v } where
  tape := .refl _ _
  service := h
  handles := id
  seen _ _ hfind := hfind
  graph := .refl _

end Onward

/-- Up to the cursor is as far as bytes can be kept. -/
theorem KeepsFrom.of_cursor {place : Nat} {s s' : Session} (h : s.KeepsFrom s.tape.cursor s') :
    s.KeepsFrom place s' := { h with toOnward := h.toOnward.of_cursor }

/-- What is known of the bytes may be left out. -/
theorem KeepsFrom.bare {place : Nat} {s s' : Session} (h : s.KeepsFrom place s') : s.Keeps s' :=
  { h with toOnward := h.toOnward.bare }

instance {place : Nat} : IsPreorder Session (KeepsFrom place) where
  refl s := ⟨.refl place s, rfl⟩
  trans _ _ _ h h' := ⟨h.toOnward.trans h'.toOnward, h'.fields.trans h.fields⟩

end Session

instance : IsPreorder Registry Registry.Evolves where
  refl := .refl
  trans _ _ _ := .trans

/-- Resolving a name gives its type's fields ids and does nothing else to a registry. -/
theorem Registry.evolves_resolve (name : String) (kind : TypeKind) (failIfUnregistered : Bool) :
    Within Evolves (resolve name kind failIfUnregistered) := by
  refine Within.bind (.read _) fun entry => ?_
  cases entry with
  | some entry => exact .pure _
  | none =>
    have hmap : ∀ typeId, Within Evolves (Action.update (·.addMapped typeId)) :=
      fun typeId => .update fun _ => ⟨rfl, fun _ h => List.mem_insert_of_mem h, fun _ _ _ => id, id⟩
    simp only
    split
    · refine (Within.fail _).bind fun _ => ?_
      exact Within.bind (.ofExcept _) fun typeId => (hmap typeId).bind fun _ => .pure _
    · exact Within.bind (.ofExcept _) fun typeId => (hmap typeId).bind fun _ => .pure _

/-- A service evolves as its registry does. -/
theorem TypeService.evolves_resolve (name : String) (kind : TypeKind) (failIfUnregistered : Bool) :
    Within Evolves (resolve name kind failIfUnregistered) :=
  fun s => ⟨Registry.evolves_resolve name kind failIfUnregistered s.registry, rfl, rfl⟩

namespace WriteM

open Session

variable {place : Nat}

/-- A step of the tape keeps what it keeps of the tape, and all else. -/
theorem keeps_onTape {α : Type} {x : Action Tape α} (h : Within (Tape.Onward place) x) :
    Within (KeepsFrom place) (onTape x) := fun s => ⟨.of_tape (h s.tape), rfl⟩

/-- A step of the service leaves the tape and the fields alone. -/
theorem keeps_onService {α : Type} {x : Action TypeService α} (h : Within TypeService.Evolves x) :
    Within (KeepsFrom place) (onService x) :=
  fun s => ⟨.of_service (h s.service), rfl⟩

/-- Looking at the options keeps the session. -/
theorem keeps_config : Within (KeepsFrom place) config := .read _

/-- So does looking at the cursor. -/
theorem keeps_position : Within (KeepsFrom place) position := .read _

/-- So does working out a distance, whether the places are in order or not. -/
theorem keeps_distance (start stop : Nat) : Within (KeepsFrom place) (distance start stop) := by
  unfold distance
  split
  · exact .pure _
  · exact .stop _

/-- The journal has no part in what is kept. -/
theorem keeps_journal (journal : Session → Journal) :
    Within (KeepsFrom place) (Action.update fun s => { s with journal := journal s }) :=
  .update fun _ => ⟨⟨.refl _ _, .refl _, id, fun _ _ h => h, .refl _⟩, rfl⟩

/-- A line in the journal is all that changes. -/
theorem keeps_note (entry : JournalEntry) : Within (KeepsFrom place) (note entry) := keeps_journal _

/-- So it is with a line about a call. -/
theorem keeps_noteSession (op : SessionOp) (outcome : Outcome) :
    Within (KeepsFrom place) (noteSession op outcome) := keeps_journal _

/-- Asking for a handle may record a node, and may write a reference at the cursor. -/
theorem keeps_writeHandle (node : NodeId) : Within (KeepsFrom place) (writeHandle node) := by
  intro s
  refine Within.bind_at (keeps_position s) fun hposition => ?_
  obtain ⟨rfl, rfl⟩ := (yields_position ..).mp hposition
  have hput : KeepsFrom place s { s with handles := (s.handles.put node s.tape.cursor).2 } := by
    refine ⟨⟨.refl _ _, .refl _, fun hbehind other first hfind => ?_, fun other first hfind => ?_,
      .refl _⟩, rfl⟩
    · -- A node that is new is recorded where the cursor is.
      rw [HandleTable.find?_put_snd] at hfind
      split at hfind
      · cases hknown : s.handles.find? node with
        | none =>
          rw [hknown] at hfind
          exact Nat.le_of_eq (Option.some.inj hfind).symm
        | some known =>
          rw [hknown] at hfind
          exact Option.some.inj hfind ▸ hbehind node known hknown
      · exact hbehind other first hfind
    · rw [HandleTable.find?_put_snd]
      split
      · next heq => rw [heq, hfind, Option.getD_some]
      · exact hfind
  refine Within.bind_at hput fun {seen s₁} _ => ?_
  cases seen with
  | none => exact refl_of (KeepsFrom place) s₁
  | some first =>
    have hback : Within (KeepsFrom place) (distance first s.tape.cursor) := keeps_distance _ _
    refine hback.bind (fun delta => ?_) s₁
    refine Within.bind (.ofExcept _) fun delta => ?_
    exact (keeps_onTape Encode.onward_tagged).bind fun _ => .pure true

/-- The handles of a detached value are put aside and come back, whatever becomes of it. -/
theorem keeps_detached {α : Type} {x : WriteM α} (h : Within (KeepsFrom place) x) :
    Within (KeepsFrom place) (detached x) := by
  intro s
  have hx := h { s with handles := .empty }
  refine ⟨⟨hx.tape, hx.service, fun hbehind node first hfind => ?_, fun _ _ h => h, hx.graph⟩,
    hx.fields⟩
  -- The handles from before are back, and the cursor has gone on.
  exact Nat.le_trans (hbehind node first hfind) hx.cursor

/-- A plain value is written at the cursor. -/
theorem keeps_writePlain (v : Plain) : Within (KeepsFrom place) (writePlain v) :=
  keeps_config.bind fun _ => keeps_onTape (Encode.onward_plain _ v)

/-- So is a word. -/
theorem keeps_writeWord {α : Type} [Word α] (x : α) :
    Within (KeepsFrom place) (onTape (Tape.writeWord x)) :=
  keeps_onTape (Tape.onward_write _)

/-- A type is resolved, and then written at the cursor. -/
theorem keeps_writeTypeRef (name : String) (kind : TypeKind) (failIfUnregistered : Bool) :
    Within (KeepsFrom place) (writeTypeRef name kind failIfUnregistered) := by
  apply (keeps_onService (TypeService.evolves_resolve _ _ _)).bind
  intro resolved
  split
  · exact keeps_writeWord _
  · exact (keeps_writeWord _).bind fun _ => keeps_writePlain _

/-- A tag is a word of one byte. -/
theorem keeps_writeTag (tag : Tag) : Within (KeepsFrom place) (writeTag tag) := keeps_writeWord _

/-- A count is a word, unless it is refused. -/
theorem keeps_writeCount (what : String) (count : Nat) :
    Within (KeepsFrom place) (writeCount what count) :=
  (Within.ofExcept _).bind fun _ => keeps_writeWord _

/-- A constant is written at the cursor, part by part. -/
theorem keeps_writeEnum (v : EnumConstant) : Within (KeepsFrom place) (writeEnum v) := by
  apply keeps_config.bind
  intro config
  apply (keeps_writeTag _).bind
  intro _
  exact (keeps_writeTypeRef _ _ _).bind fun _ => keeps_writeWord _

/-- So is an array of constants. -/
theorem keeps_writeEnumArray (typeName : String) (items : List (Option EnumConstant)) :
    Within (KeepsFrom place) (writeEnumArray typeName items) := by
  apply keeps_config.bind
  intro config
  apply (keeps_writeTag _).bind
  intro _
  apply (keeps_writeTypeRef _ _ _).bind
  intro _
  apply (keeps_writeCount _ _).bind
  intro _
  refine .forEach (fun item => ?_) items
  cases item with
  | none => exact keeps_onTape Encode.onward_tagged
  | some v => exact keeps_writeEnum v

/-- So is a constant by type id, with or without a name. -/
theorem keeps_writeBinaryEnum (v : BinaryEnum) : Within (KeepsFrom place) (writeBinaryEnum v) := by
  apply (keeps_onTape Encode.onward_tagged).bind
  intro _
  split
  · split
    · exact (keeps_writePlain _).bind fun _ => keeps_writeWord _
    · exact (Within.fail _).bind fun _ => keeps_writeWord _
  · exact keeps_writeWord _

/-- So is a reference to a class. -/
theorem keeps_writeClassRef (typeName : String) : Within (KeepsFrom place) (writeClassRef typeName) :=
  (keeps_writeTag _).bind fun _ => keeps_writeTypeRef _ _ _

/-- Room left open at the cursor lies behind it. -/
theorem keeps_skip {α : Type} (n : Nat) {k : Nat → WriteM α}
    (hk : ∀ start, Within (KeepsFrom place) (k start)) :
    Within (KeepsFrom place) (do
      let start ← position
      onTape (Tape.reserve n)
      onTape (Tape.seek (start + n))
      k start) := by
  intro s
  refine Within.bind_at (keeps_position s) fun hposition => ?_
  obtain ⟨rfl, rfl⟩ := (yields_position ..).mp hposition
  -- The cursor comes from before room was made, so only the sum of both steps is a step forward.
  refine Within.seq_at (Q := fun _ s' => KeepsFrom place s s') (fun _ _ _ h => h)
    (keeps_onTape (Tape.onward_reserve n) s) fun hreserve => ?_
  obtain ⟨t, ht, rfl⟩ := (yields_onTape ..).mp hreserve
  obtain ⟨hgrown, hroom⟩ := Tape.reserve_grown ht
  have hskip : KeepsFrom place s { s with tape := { t with cursor := s.tape.cursor + n } } :=
    ⟨.of_tape (.of_skip hgrown hroom), rfl⟩
  exact trans_of (KeepsFrom place) hskip (hk s.tape.cursor _)

end WriteM

namespace ObjectWriter

open Session WriteM

variable {place : Nat}

/-- An object is begun behind the cursor: room for its header, and its name. -/
theorem keeps_begin (typeId : Int32) (inlineName : Option String) :
    Within (KeepsFrom place) (begin typeId inlineName) := by
  apply keeps_skip
  intro start
  cases inlineName with
  | none => exact keeps_position.bind fun _ => .pure _
  | some name =>
    exact (keeps_writePlain _).bind fun _ => keeps_position.bind fun _ => .pure _

/-- A place is worked out against the start of the object. -/
theorem keeps_relative (w : ObjectWriter) (position : Nat) :
    Within (KeepsFrom place) (w.relative position) :=
  (keeps_distance _ _).bind fun _ => .ofExcept _

/-- A footer is written at the cursor. -/
theorem onward_writeFooter (fields : FieldStack) (count : Nat) (compact : Bool) :
    Within (Tape.Onward place) (fields.writeFooter count compact) :=
  (Tape.onward_reserve _).bind fun _ => (Tape.onward_put _).bind fun _ => .pure _

/-- What follows the data of an object is written at the cursor, part by part. -/
theorem keeps_writeEnding (w : ObjectWriter) (compact : Bool) :
    Within (KeepsFrom place) (w.writeEnding compact) := by
  -- Everything here is written behind the cursor.
  unfold writeEnding
  split
  · apply keeps_position.bind
    intro _
    apply (keeps_relative _ _).bind
    intro _
    refine Within.bind (.read _) fun fields => ?_
    apply (keeps_onTape (onward_writeFooter _ _ _)).bind
    intro width
    split
    · exact (keeps_relative _ _).bind fun _ => (keeps_writeWord _).bind fun _ => .pure _
    · exact .pure _
  · split
    · exact (keeps_relative _ _).bind fun _ => .pure _
    · exact .pure _

/-- A schema goes to the service alone. -/
theorem keeps_registerSchema (w : ObjectWriter) (schemaId : Int32) :
    Within (KeepsFrom place) (w.registerSchema schemaId) := by
  -- A schema that is known is not registered again.
  refine .update fun s => ?_
  split
  · exact refl_of (KeepsFrom place) s
  · exact ⟨.of_service (TypeService.evolves_addSchema _ _ _), rfl⟩

/-- The hash code goes into the header, which no byte before the object is part of. -/
theorem keeps_writeHash {w : ObjectWriter} (h : place ≤ w.start) (dataEnd : Nat) :
    Within (KeepsFrom place) (w.writeHash dataEnd) := by
  refine Within.bind (.read _) fun slice => ?_
  cases slice with
  | none => exact .stop _
  | some data => exact keeps_onTape (Tape.onward_patch (Nat.le_trans h (Nat.le_add_right ..)) _)

/-- Finishing an object fills in its header and leaves the cursor behind it.  What lies before the header
    stays. -/
theorem keepsFrom_finish {w : ObjectWriter} (h : place ≤ w.start) (userType : Bool) :
    Within (KeepsFrom place) (w.finish userType) := by
  apply keeps_config.bind
  intro config
  apply keeps_position.bind
  intro dataEnd
  apply (keeps_writeEnding _ _).bind
  intro ending
  apply keeps_position.bind
  intro stop
  apply (keeps_relative _ _).bind
  intro totalLength
  apply (keeps_onTape (Tape.onward_patch h _)).bind
  intro _
  -- Four ways to go on, with the schema registered or not and with the hash written or not.
  split
  · split
    · apply (keeps_registerSchema _ _).bind
      intro _
      exact (keeps_writeHash h _).bind fun _ => .pure _
    · exact (keeps_writeHash h _).bind fun _ => .pure _
  · split
    · exact (keeps_registerSchema _ _).bind fun _ => .pure _
    · exact .pure _

/-- Finishing an object keeps all but the bytes of its header. -/
theorem keeps_finish (w : ObjectWriter) (userType : Bool) : Within Keeps (w.finish userType) :=
  keepsFrom_finish (Nat.zero_le _) userType

end ObjectWriter

end ObjectWire
