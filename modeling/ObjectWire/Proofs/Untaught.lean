import ObjectWire.Proofs.FieldCalls
import ObjectWire.Proofs.NodeParts
import ObjectWire.Proofs.Refusals

/-!
# Where schemas come from

A write adds a schema in one place only: where an object is finished.  No other step touches the schemas,
whether it succeeds or not (`Session.Untaught`).  Finishing an object adds its schema in the last step that
can fail, so an object whose finish fails has added none (`ObjectWriter.finish_fails`).
-/

namespace ObjectWire

open ObjectWire.Action

/-- The schemas are the same. -/
def Session.Untaught (s s' : Session) : Prop := s'.service.registry.schemas = s.service.registry.schemas

/-- The schemas around the object are the same. -/
def OpenObject.Untaught (o o' : OpenObject) : Prop := o.session.Untaught o'.session

instance : IsPreorder Session Session.Untaught where
  refl _ := rfl
  trans _ _ _ h h' := Eq.trans h' h

instance : IsPreorder OpenObject OpenObject.Untaught where
  refl _ := rfl
  trans _ _ _ h h' := Eq.trans h' h

/-- Resolving a name adds no schema. -/
theorem Registry.untaught_resolve (name : String) (kind : TypeKind) (failIfUnregistered : Bool)
    (r : Registry) : (resolve name kind failIfUnregistered r).2.schemas = r.schemas := by
  show ((resolve name kind failIfUnregistered).run r).2.schemas = r.schemas
  simp only [resolve, run_read_bind]
  cases r.types.find? name with
  | some entry => rfl
  | none =>
    cases failIfUnregistered with
    | true => rfl
    | false =>
      simp only [Bool.false_eq_true, if_false, run_bind]
      cases derivedId name <;> rfl

namespace WriteM

open Session

/-- The tape knows nothing of schemas. -/
theorem untaught_onTape {α : Type} (x : Action Tape α) : Within Untaught (onTape x) := fun _ => rfl

/-- Nor does it add a schema to the service around the registry. -/
theorem untaught_resolve (name : String) (kind : TypeKind) (failIfUnregistered : Bool) :
    Within Untaught (onService (TypeService.resolve name kind failIfUnregistered)) :=
  fun s => Registry.untaught_resolve name kind failIfUnregistered s.service.registry

/-- Looking at the options adds no schema. -/
theorem untaught_config : Within Untaught config := .read _

/-- Nor does looking at the cursor. -/
theorem untaught_position : Within Untaught position := .read _

/-- Nor does working out a distance, whether the places are in order or not. -/
theorem untaught_distance (start stop : Nat) : Within Untaught (distance start stop) := by
  unfold distance
  split
  · exact .pure _
  · exact .stop _

/-- A line in the journal is no schema. -/
theorem untaught_note (entry : JournalEntry) : Within Untaught (note entry) := fun _ => rfl

/-- Nor is a line about a call on the session. -/
theorem untaught_noteSession (op : SessionOp) (outcome : Outcome) :
    Within Untaught (noteSession op outcome) := fun _ => rfl

/-- Asking for a handle records a node at most, and writes a reference at most. -/
theorem untaught_writeHandle (node : NodeId) : Within Untaught (writeHandle node) := by
  apply untaught_position.bind
  intro here
  refine Within.bind (?_ : Within Untaught _) fun seen => ?_
  · exact fun _ => rfl
  cases seen with
  | none => exact .pure _
  | some first =>
    apply (untaught_distance _ _).bind
    intro delta
    exact Within.bind (.ofExcept _) fun _ => (untaught_onTape _).bind fun _ => .pure _

/-- A plain value goes on the tape. -/
theorem untaught_writePlain (v : Plain) : Within Untaught (writePlain v) :=
  untaught_config.bind fun _ => untaught_onTape _

/-- A type is resolved, and its id or its name goes on the tape. -/
theorem untaught_writeTypeRef (name : String) (kind : TypeKind) (failIfUnregistered : Bool) :
    Within Untaught (writeTypeRef name kind failIfUnregistered) := by
  apply (untaught_resolve name kind failIfUnregistered).bind
  intro resolved
  split
  · exact untaught_onTape _
  · exact (untaught_onTape _).bind fun _ => untaught_writePlain _

/-- A count that fits goes on the tape. -/
theorem untaught_writeCount (what : String) (count : Nat) : Within Untaught (writeCount what count) :=
  Within.bind (.ofExcept _) fun _ => untaught_onTape _

/-- A constant is a tag, a type and an ordinal. -/
theorem untaught_writeEnum (v : EnumConstant) : Within Untaught (writeEnum v) := by
  apply untaught_config.bind
  intro config
  apply (untaught_onTape _).bind
  intro _
  exact (untaught_writeTypeRef _ _ _).bind fun _ => untaught_onTape _

/-- An array of constants is its head and one constant after the other, or a null in its place. -/
theorem untaught_writeEnumArray (typeName : String) (items : List (Option EnumConstant)) :
    Within Untaught (writeEnumArray typeName items) := by
  apply untaught_config.bind
  intro config
  apply (untaught_onTape _).bind
  intro _
  apply (untaught_writeTypeRef _ _ _).bind
  intro _
  apply (untaught_writeCount _ _).bind
  intro _
  refine .forEach (fun item => ?_) items
  cases item with
  | none => exact untaught_onTape Encode.null
  | some v => exact untaught_writeEnum v

/-- A constant by type id goes on the tape, with a name if it has to have one. -/
theorem untaught_writeBinaryEnum (v : BinaryEnum) : Within Untaught (writeBinaryEnum v) := by
  apply (untaught_onTape _).bind
  intro _
  split
  · split
    · exact (untaught_writePlain _).bind fun _ => untaught_onTape _
    · exact (Within.fail _).bind fun _ => untaught_onTape _
  · exact untaught_onTape _

/-- A reference to a class is a tag and a type. -/
theorem untaught_writeClassRef (typeName : String) : Within Untaught (writeClassRef typeName) :=
  (untaught_onTape _).bind fun _ => untaught_writeTypeRef _ _ _

/-- The head of a container resolves types at most. -/
theorem untaught_writeHead (n : Node) : Within Untaught (writeHead n) := by
  cases n with
  | object o => exact .pure ()
  | array componentType items =>
    apply untaught_config.bind
    intro config
    apply (untaught_onTape _).bind
    intro _
    exact (untaught_writeTypeRef _ _ _).bind fun _ => untaught_writeCount _ _
  | collection typeName items | map typeName entries =>
    refine Within.bind (.ofExcept _) fun size => ?_
    exact Within.bind (.read _) fun kind => untaught_onTape _
  | proxy interfaces handler =>
    apply untaught_config.bind
    intro config
    apply (untaught_onTape _).bind
    intro _
    exact .forEach (fun name => untaught_writeTypeRef name _ _) interfaces

/-- Resolving the type of an object adds no schema; finishing the object does. -/
theorem untaught_resolveObject (o : UserObject) : Within Untaught (resolveObject o) :=
  untaught_config.bind fun _ => untaught_resolve _ _ _

end WriteM

namespace ObjectM

open OpenObject

/-- A step of the session counts as one of the object in it. -/
theorem untaught_inSession {α : Type} {x : WriteM α} (h : Within Session.Untaught x) :
    Within Untaught (inSession x) := fun o => h o.session

/-- A line about a call on a writer is no schema. -/
theorem untaught_noteObject (op : ObjectOp) (outcome : Outcome) :
    Within Untaught (noteObject op outcome) := fun _ => rfl

/-- Beginning the raw section changes the writer alone. -/
theorem untaught_enterRaw : Within Untaught enterRaw := fun _ => rfl

/-- A place left open moves the cursor, and the writer notes where it is. -/
theorem untaught_reserveSlot : Within Untaught reserveSlot := by
  have hskip : Within Session.Untaught WriteM.reserveSlot := by
    apply WriteM.untaught_position.bind
    intro here
    exact (WriteM.untaught_onTape _).bind fun _ => (WriteM.untaught_onTape _).bind fun _ => .pure _
  exact (untaught_inSession hskip).bind fun here _ => rfl

/-- A place that is filled in is on the tape. -/
theorem untaught_fillSlot (slot : Nat) (v : Int32) : Within Untaught (fillSlot slot v) := by
  refine Within.bind (.read _) fun w => ?_
  split
  · exact untaught_inSession (WriteM.untaught_onTape _)
  · exact .stop _

/-- A field that is begun is on the stack, and no schema yet. -/
theorem untaught_pushField (id : Int32) (fold : Bool) : Within Untaught (pushField id fold) := by
  intro o
  have hstate := pushField_state id fold o
  unfold run at hstate
  rw [hstate]
  split <;> rfl

/-- A field's name is looked up, which adds nothing. -/
theorem untaught_beginField (name : String) : Within Untaught (beginField name) := by
  intro o
  show o.Untaught ((beginField name).run o).2
  rw [run_beginField]
  split
  · exact refl_of Untaught o
  · split
    · exact untaught_pushField _ true o
    · exact refl_of Untaught o

/-- Whatever comes before the value of a field adds no schema. -/
theorem untaught_beginning (op : ObjectOp) : Within Untaught op.beginning := by
  cases op with
  | typed name v | field name v | detached name v => exact untaught_beginField name
  | fieldId id v | fieldIdUnfolded id v => exact untaught_pushField id _
  | _ => exact .pure ()

end ObjectM

namespace ObjectWriter

open Session WriteM

/-- A writer is begun with room for its header, and the name of its type. -/
theorem untaught_begin (typeId : Int32) (inlineName : Option String) :
    Within Untaught (begin typeId inlineName) := by
  apply untaught_position.bind
  intro start
  apply (untaught_onTape _).bind
  intro _
  apply (untaught_onTape _).bind
  intro _
  cases inlineName with
  | none => exact untaught_position.bind fun _ => .pure _
  | some name => exact (untaught_writePlain _).bind fun _ => untaught_position.bind fun _ => .pure _

/-- A place is worked out against the start of the object. -/
theorem untaught_relative (w : ObjectWriter) (position : Nat) : Within Untaught (w.relative position) :=
  (untaught_distance _ _).bind fun _ => .ofExcept _

/-- The footer lists the ids of a schema without adding it. -/
theorem untaught_writeEnding (w : ObjectWriter) (compact : Bool) :
    Within Untaught (w.writeEnding compact) := by
  unfold writeEnding
  split
  · apply untaught_position.bind
    intro here
    apply (untaught_relative w _).bind
    intro offset
    refine Within.bind (.read _) fun fields => ?_
    apply (untaught_onTape _).bind
    intro width
    split
    · exact (untaught_relative w _).bind fun _ => (untaught_onTape _).bind fun _ => .pure _
    · exact .pure _
  · split
    · exact (untaught_relative w _).bind fun _ => .pure _
    · exact .pure _

/-- The hash code goes into the header. -/
theorem untaught_writeHash (w : ObjectWriter) (dataEnd : Nat) : Within Untaught (w.writeHash dataEnd) := by
  refine Within.bind (.read _) fun slice => ?_
  cases slice with
  | none => exact .stop _
  | some data => exact untaught_onTape _

/-- An object whose finish fails has added no schema. -/
theorem finish_fails {w : ObjectWriter} {s : Session} (hheader : w.start + Header.size ≤ w.dataStart)
    (hdata : w.dataStart ≤ s.tape.cursor) (hroom : s.tape.cursor ≤ s.tape.capacity) (userType : Bool) :
    (w.finish userType).StopsIn (fun _ s' => s.Untaught s') s := by
  have hquiet : ∀ {α : Type} {x : WriteM α} {s₁ : Session}, Within Untaught x → s.Untaught s₁ →
      x.StopsIn (fun _ s' => s.Untaught s') s₁ := by
    intro α x s₁ hx hs₁ e s' hrun
    have hs' := hx s₁
    rw [hrun] at hs'
    exact trans_of Untaught hs₁ hs'
  -- Step by step, each of them adding no schema, up to the one that adds it.
  refine StopsIn.bind (.read _) fun hconfig => ?_
  obtain ⟨-, rfl⟩ := (yields_config ..).mp hconfig
  refine StopsIn.bind (.read _) fun hdataEnd => ?_
  obtain ⟨rfl, rfl⟩ := (yields_position ..).mp hdataEnd
  refine (hquiet (untaught_writeEnding w _) (refl_of Untaught s)).bind fun {ending s₁} hending => ?_
  have hs₁ : s.Untaught s₁ := (untaught_writeEnding w _).of_yields hending
  have hkeeps₁ : s.Keeps s₁ := (keeps_writeEnding w _).of_yields hending
  refine StopsIn.bind (.read _) fun hstop => ?_
  obtain ⟨rfl, rfl⟩ := (yields_position ..).mp hstop
  refine (hquiet (untaught_relative w _) hs₁).bind fun htotal => ?_
  obtain ⟨-, -, -, rfl⟩ := relative_yields htotal
  refine (hquiet (untaught_onTape _) hs₁).bind fun {_ s₂} hpatch => ?_
  have hkeeps₂ : s₁.Keeps s₂ :=
    (keeps_onTape (Tape.onward_patch (Nat.zero_le _) _)).of_yields hpatch
  refine .whenBind (fun _ => .update _) fun {s₃} hregister => ?_
  have hkeeps₃ : s₂.Keeps s₃ := by
    refine Within.of_yields ?_ hregister
    split
    · exact keeps_registerSchema _ _
    · exact .pure _
  -- From here on the schema may be there, and nothing can fail any more.
  have hcapacity : s.tape.cursor ≤ s₃.tape.capacity :=
    Nat.le_trans (hkeeps₁.tape.room hroom |> Nat.le_trans hkeeps₁.cursor)
      (Nat.le_trans hkeeps₂.tape.capacity hkeeps₃.tape.capacity)
  refine .whenBind (fun _ => ?_) fun _ => .pure _
  exact stopsIn_writeHash hdata hcapacity
    (Nat.le_trans hheader (Nat.le_trans hdata hcapacity))

end ObjectWriter

end ObjectWire
