import ObjectWire.Proofs.NodeParts

/-!
# What stops the write of a node

A write has many reasons to stop, but only two that reach beyond the place where it is: the values are
nested too deeply, or a field has no id under the type of its object.  All others are local
(`Stop.IsLocal`), and few of those are about a type (the rest are slips, `Stop.IsSlip`).  So to say why a
write can stop, it is enough to look at the values inside each node and at the fields of each object.
`stopsFor_writeNode` does this for any condition on reasons: one condition on sessions holds before the node
is written, another one from when it is recorded, and both stay true however the session goes on.
-/

namespace ObjectWire

open ObjectWire.Action

/-- A reason to stop that is neither the depth of the nesting nor the name of a field. -/
def Stop.IsLocal : Stop → Prop
  | .error cause => ¬ cause.NamesField
  | .outOfRange => True
  | .tooDeep => False

namespace Stop

/-- A refusal concerns the value at hand and nothing around it. -/
theorem IsRefusal.isLocal {e : Stop} (h : e.IsRefusal) : e.IsLocal := by
  cases e with
  | error cause => exact h.2
  | outOfRange => trivial
  | tooDeep => exact h

/-- A local reason that no type is the cause of. -/
def IsSlip (e : Stop) : Prop := e.IsLocal ∧ ¬ e.IsResolution

theorem IsShortage.isSlip {e : Stop} (h : e.IsShortage) : e.IsSlip := ⟨h.1.isLocal, h.2⟩

theorem isSlip_outOfRange : outOfRange.IsSlip := ⟨trivial, id⟩

/-- An error is a slip if it names no field and does not come from resolving a type. -/
theorem isSlip_error {e : Error} (h : ∀ typeId field, e ≠ .unresolvedField typeId field)
    (hresolution : e.isResolution = false) : (error e).IsSlip := by
  refine ⟨fun ⟨typeId, field, he⟩ => h typeId field he, fun hcause => ?_⟩
  cases hresolution.symm.trans hcause

end Stop

/-- Whatever the state, the action stops for local reasons only, and never for a type. -/
abbrev Action.Locally {σ α : Type} (x : Action σ α) : Prop := x.StopsOnly Stop.IsSlip

theorem Action.RunsShort.locally {σ α : Type} {x : Action σ α} (h : x.RunsShort) : x.Locally :=
  h.mono fun _ => Stop.IsShortage.isSlip

theorem Action.locally_length {σ : Type} (what : String) (n : Nat) :
    Locally (ofExcept (wireLength what n) : Action σ Int32) := by
  refine .ofExcept fun cause h => ?_
  rw [(Error.wireLength_error h).2]
  exact Stop.isSlip_error (by simp) rfl

/-- A patch stops only if it would reach beyond the tape. -/
theorem Tape.locally_patch (offset : Nat) (bs : Bytes) : (patch offset bs).Locally := by
  intro t e t' h
  unfold patch at h
  split at h
  · cases h
  · cases h
    exact Stop.isSlip_outOfRange

namespace WriteM

theorem locally_distance (start stop : Nat) : (distance start stop).Locally := by
  unfold distance
  split
  · exact .pure _
  · exact .stop Stop.isSlip_outOfRange

/-- A handle is refused if it lies too far back, and for no other reason. -/
theorem locally_writeHandle (node : NodeId) : (writeHandle node).Locally := by
  refine StopsOnly.bind (.read _) fun here => ?_
  refine StopsOnly.bind (fun _ _ _ h => nomatch h) fun seen => ?_
  cases seen with
  | none => exact .pure _
  | some first =>
    apply (locally_distance _ _).bind
    intro delta
    apply (locally_length _ _).bind
    intro delta
    apply (RunsShort.locally (stopsOnly_onTape Encode.short_tagged)).bind
    exact fun _ => .pure _

/-- The head of a container is only refused; the values behind it are not yet written. -/
theorem refuses_writeHead (n : Node) : (writeHead n).Refuses := by
  cases n with
  | object o => exact .pure ()
  | array componentType items =>
    refine StopsOnly.bind (.read _) fun config => ?_
    apply (short_writeWord _).refuses.bind
    intro _
    apply (refuses_writeTypeRef _ _ _).bind
    exact fun _ => (short_writeCount _ (by decide)).refuses
  | collection typeName items =>
    refine (RunsShort.length _ (by decide)).refuses.bind fun size => ?_
    exact StopsOnly.bind (.read _) fun kind => stopsOnly_onTape Encode.short_tagged.refuses
  | map typeName entries =>
    refine (RunsShort.length _ (by decide)).refuses.bind fun size => ?_
    exact StopsOnly.bind (.read _) fun kind => stopsOnly_onTape Encode.short_tagged.refuses
  | proxy interfaces handler =>
    refine StopsOnly.bind (.read _) fun config => ?_
    apply (stopsOnly_onTape (Encode.short_proxyHead _).refuses).bind
    exact fun _ => .forEach (fun _ => refuses_writeTypeRef _ _ _) _

/-- The head of a container changes nothing that was there before. -/
theorem keeps_writeHead {place : Nat} (n : Node) :
    Within (Session.KeepsFrom place) (writeHead n) := by
  -- Tag, type, options and number are all written one behind the other.
  cases n with
  | object o => exact .pure ()
  | array componentType items =>
    apply keeps_config.bind
    intro config
    apply (keeps_writeTag _).bind
    intro _
    exact (keeps_writeTypeRef _ _ _).bind fun _ => keeps_writeCount _ _
  | collection typeName items =>
    refine Within.bind (.ofExcept _) fun size => ?_
    exact Within.bind (.read _) fun kind => keeps_onTape Encode.onward_tagged
  | map typeName entries =>
    refine Within.bind (.ofExcept _) fun size => ?_
    exact Within.bind (.read _) fun kind => keeps_onTape Encode.onward_tagged
  | proxy interfaces handler =>
    apply keeps_config.bind
    intro config
    apply (keeps_onTape (Encode.onward_proxyHead _)).bind
    exact fun _ => .forEach (fun _ => keeps_writeTypeRef _ _ _) _

end WriteM

namespace ObjectM

theorem stopsOnly_inSession {α : Type} {E : Stop → Prop} {x : WriteM α} (h : x.StopsOnly E) :
    (inSession x).StopsOnly E :=
  fun o => .part (fun session => { o with session }) rfl (h o.session)

/-- A field is refused if its id is taken or it lies too far from the start of its object. -/
theorem locally_pushField (id : Int32) (fold : Bool) : (pushField id fold).Locally := by
  refine StopsOnly.bind (.read _) fun w => ?_
  refine .guard (Stop.isSlip_error (by simp) rfl) (StopsOnly.bind (.read _) fun known => ?_)
  refine .guard (Stop.isSlip_error (by simp) rfl) ?_
  have hoffset : Locally (inSession (do WriteM.distance w.start (← WriteM.position))) :=
    stopsOnly_inSession (StopsOnly.bind (.read _) fun _ => WriteM.locally_distance _ _)
  refine hoffset.bind fun offset => .guard (Stop.isSlip_error (by simp) rfl) ?_
  exact StopsOnly.bind (.update _) fun _ => .update _

/-- A field whose name has an id is begun or refused for a local reason. -/
theorem stopsFor_beginField {E : Stop → Prop} {o : OpenObject} {name : String}
    (hslip : ∀ e : Stop, e.IsSlip → E e)
    (hfield : o.session.service.fieldId? o.writer.typeId name = none →
      E (.error (.unresolvedField o.writer.typeId name))) : (beginField name).StopsFor E o := by
  refine StopsIn.bind (.read _) fun hwriter => ?_
  obtain ⟨rfl, rfl⟩ := (yields_writer ..).mp hwriter
  refine .guard (fun _ => hslip _ (Stop.isSlip_error (by simp) rfl)) fun _ => ?_
  refine StopsIn.bind (.read _) fun hread => ?_
  obtain ⟨rfl, rfl⟩ := (yields_read ..).mp hread
  split
  · exact (locally_pushField _ true o).mono fun e _ => hslip e
  · next hnone => exact .fail (hfield hnone)

end ObjectM

namespace ObjectWriter

open WriteM

theorem locally_relative (w : ObjectWriter) (position : Nat) : (w.relative position).Locally :=
  (locally_distance _ _).bind fun _ => locally_length _ _

/-- A footer is refused for a distance alone: its width is chosen to fit the offsets. -/
theorem locally_writeEnding (w : ObjectWriter) (compact : Bool) : (w.writeEnding compact).Locally := by
  have hraw : ∀ {α : Type} (raw : Nat) (k : Int32 → WriteM α), (∀ offset, (k offset).Locally) →
      Locally (w.relative raw >>= k) := fun raw k hk => (locally_relative w raw).bind hk
  -- Each way to end an object measures where the raw section starts, or has none to measure.
  unfold writeEnding
  split
  · refine StopsOnly.bind (.read _) fun position => hraw _ _ fun offset => ?_
    refine StopsOnly.bind (.read _) fun fields => ?_
    apply (RunsShort.locally (stopsOnly_onTape (fields.short_writeFooter _ _))).bind
    intro width
    split
    · refine hraw _ _ fun offset => ?_
      exact (short_writeWord _).locally.bind fun _ => .pure _
    · exact .pure _
  · split
    · exact hraw _ _ fun offset => .pure _
    · exact .pure _

/-- The hash is taken from bytes that are on the tape, so it is there unless the end is misplaced. -/
theorem locally_writeHash (w : ObjectWriter) (dataEnd : Nat) : (w.writeHash dataEnd).Locally := by
  refine StopsOnly.bind (.read _) fun slice => ?_
  cases slice with
  | none => exact .stop Stop.isSlip_outOfRange
  | some data => exact stopsOnly_onTape (Tape.locally_patch _ _)

/-- To finish an object stops at its footer, its hash or its header, and for local reasons only. -/
theorem locally_finish (w : ObjectWriter) (userType : Bool) : (w.finish userType).Locally := by
  refine StopsOnly.bind (.read _) fun config => ?_
  refine StopsOnly.bind (.read _) fun dataEnd => ?_
  apply (locally_writeEnding _ _).bind
  intro ending
  refine StopsOnly.bind (.read _) fun stop => ?_
  apply (locally_relative _ _).bind
  intro totalLength
  apply (stopsOnly_onTape (Tape.locally_patch _ _)).bind
  intro _
  exact .whenBind (.update _) (.whenBind (locally_writeHash _ _) (.pure _))

end ObjectWriter

/-- An object stops where it is begun, in its body, or where it is finished. -/
theorem WriteM.stopsIn_writeFramed {E : Stop → Session → Prop} {s : Session} {typeId : Int32}
    {inlineName : Option String} {body : ObjectM Unit} {userType : Bool}
    (hbegin : (ObjectWriter.begin typeId inlineName).StopsIn E s)
    (hbody : ∀ {w s₁}, (ObjectWriter.begin typeId inlineName).Yields s w s₁ →
      body.StopsIn (fun e o => E e (o.writer.release o.session)) ⟨w, s₁⟩)
    (hfinish : ∀ {w s₁ o}, (ObjectWriter.begin typeId inlineName).Yields s w s₁ →
      body.Yields ⟨w, s₁⟩ () o →
      (o.writer.finish userType).StopsIn (fun e s' => E e (o.writer.release s')) o.session) :
    (writeFramed typeId inlineName body (some userType)).StopsIn E s := by
  refine hbegin.bind fun {w s₁} hw => ?_
  intro e s' hrun
  simp only at hrun
  -- Whether the body stops or the end of the object does, the fields come off the stack.
  cases hresult : body ⟨w, s₁⟩ with
  | mk result o =>
    obtain ⟨writer, session⟩ := o
    rw [hresult] at hrun
    cases result with
    | error e₁ =>
      cases hrun
      exact hbody hw _ _ hresult
    | ok u =>
      cases hend : writer.finish userType session with
      | mk result s₂ =>
        simp only [hend] at hrun
        cases result with
        | error e₁ =>
          cases hrun
          exact hfinish hw hresult _ _ hend
        | ok written => cases hrun

section

variable {E : Stop → Prop} {rec : Value → WriteM Unit} {node : NodeId} {s : Session}
  (hlocal : ∀ e : Stop, e.IsLocal → E e)
  (hkeeps : ∀ {place : Nat} (v : Value), Within (Session.KeepsFrom place) (rec v))

namespace WriteM

section

variable {Q : Session → Prop} (hQ : ∀ {s s' : Session}, Q s → s.Onward 0 s' → Q s')

include hlocal hkeeps hQ

/-- A container stops for a reason of its head, which is local, or for one of its values. -/
theorem stopsFor_writeContents {n : Node} (hs : Q s)
    (hrec : ∀ v ∈ n.values, ∀ {s}, Q s → (rec v).StopsFor E s) : (writeContents rec n).StopsFor E s := by
  refine ((refuses_writeHead n s).mono fun e _ h => hlocal e h.isLocal).bind fun hhead => ?_
  have hkept : s.Keeps _ := (keeps_writeHead n).of_yields hhead
  -- The condition holds behind the head and is handed on from one value to the next.
  refine .forEach Q hrec (fun v _ s₁ s₂ hs₁ hv => ?_) (hQ hs hkept.toOnward)
  have hrest : s₁.Keeps s₂ := (hkeeps v).of_yields hv
  exact hQ hs₁ hrest.toOnward

/-- A dynamic object stops at a field that has no id under its type, or at what a field holds. -/
theorem stopsFor_writeBody {d : DynamicObject} {o : OpenObject} (ho : Q o.session)
    (hfield : ∀ field ∈ d.fields, ∀ {s : Session}, Q s →
      s.service.fieldId? o.writer.typeId field.1 = none →
      E (.error (.unresolvedField o.writer.typeId field.1)))
    (hrec : ∀ v ∈ (Node.object (.dynamic d)).values, ∀ {s}, Q s → (rec v).StopsFor E s) :
    (writeBody rec node (.dynamic d)).StopsFor E o := by
  -- The writer keeps its type, and the session goes on as the condition allows.
  let P (o' : OpenObject) : Prop := Q o'.session ∧ o'.writer.typeId = o.writer.typeId
  have hP : ∀ {entries folds raw} {o₁ o₂ : OpenObject}, P o₁ →
      OpenObject.Adds 0 entries folds raw o₁ o₂ → P o₂ :=
    fun h₁ hadds => ⟨hQ h₁.1 hadds.session, hadds.typeId.trans h₁.2⟩
  -- A field stops where it is begun, for want of an id, or in its value.
  have hstop : ∀ field ∈ d.fields, ∀ {o₁ : OpenObject}, P o₁ →
      (ObjectM.writeField rec field.1 field.2).StopsFor E o₁ := by
    intro field hmem o₁ h₁
    refine (ObjectM.stopsFor_beginField (fun e h => hlocal e h.1) fun hnone => ?_).bind fun {_ o₂} hbegin => ?_
    · rw [h₁.2] at hnone ⊢
      exact hfield field hmem h₁.1 hnone
    · have h₂ : P o₂ := hP h₁ ((ObjectM.adds_beginField field.1).of_yields hbegin)
      exact .part (fun session => { o₂ with session }) rfl
        (hrec field.2 (List.mem_map_of_mem hmem) h₂.1)
  -- A field that was written is an entry more and a value behind it, and neither undoes the condition.
  have hkeep : ∀ field ∈ d.fields, ∀ {o₁ o₂ : OpenObject}, P o₁ →
      (ObjectM.writeField rec field.1 field.2).Yields o₁ () o₂ → P o₂ := by
    intro field _ o₁ o₂ h₁ hfield
    obtain ⟨_, o', hbegin, hvalue⟩ := (yields_bind ..).mp hfield
    have h' : P o' := hP h₁ ((ObjectM.adds_beginField field.1).of_yields hbegin)
    exact hP h' ((ObjectM.quiet_inSession (hkeeps field.2)).of_yields hvalue)
  refine (StopsIn.forEach P hstop hkeep ⟨ho, rfl⟩).bind fun _ => ?_
  split
  · -- Bytes kept from a reader stop for want of room only.
    have hraw : ∀ raw : Bytes, Locally (ObjectM.enterRaw >>= fun _ =>
        ObjectM.inSession (onTape (Tape.write raw))) := by
      intro raw
      have henter : ObjectM.enterRaw.Locally :=
        (ObjectM.stopsOnly_inSession (.read _)).bind fun _ => .update _
      exact henter.bind fun _ => ObjectM.stopsOnly_inSession
        (stopsOnly_onTape (Tape.short_write raw).locally)
    exact (hraw _ _).mono fun e _ h => hlocal e h.1
  · exact .pure ()

/-- To begin and to finish the object add only local reasons to those of its body. -/
theorem stopsFor_writeWhole {d : DynamicObject} {resolved : ResolvedType} (hs : Q s)
    (hfield : ∀ field ∈ d.fields, ∀ {s : Session}, Q s →
      s.service.fieldId? resolved.typeId field.1 = none →
      E (.error (.unresolvedField resolved.typeId field.1)))
    (hrec : ∀ v ∈ (Node.object (.dynamic d)).values, ∀ {s}, Q s → (rec v).StopsFor E s) :
    (writeWhole rec node (.dynamic d) resolved).StopsFor E s := by
  refine StopsIn.bind (stopsIn_writeFramed ?_ (fun {w s₁} hbegin => ?_) fun _ _ => ?_) fun _ => .pure _
  · exact (ObjectWriter.short_begin _ _ s).mono fun e _ h => hlocal e h.isSlip.1
  · have hbegun : s.Keeps s₁ := (ObjectWriter.keeps_begin _ _).of_yields hbegin
    obtain ⟨rfl, -⟩ := ObjectWriter.begin_fresh hbegin
    exact stopsFor_writeBody hlocal hkeeps hQ (hQ hs hbegun.toOnward) hfield hrec
  · exact (ObjectWriter.locally_finish _ _ _).mono fun e _ h => hlocal e h.1

end

section

variable {P Q : Session → Prop} (hP : ∀ {s s' : Session}, P s → s.Onward 0 s' → P s')
  (hQ : ∀ {s s' : Session}, Q s → s.Onward 0 s' → Q s')

include hlocal

/-- From when a node is recorded the second condition holds. -/
theorem stopsFor_writeOnce {body : WriteM Unit} (hs : P s)
    (hnew : ∀ {s s'}, P s → (writeHandle node).Yields s false s' → Q s')
    (hbody : ∀ {s}, Q s → body.StopsFor E s) : (writeOnce node body).StopsFor E s := by
  refine ((locally_writeHandle node s).mono fun e _ h => hlocal e h.1).bind fun {seen s₁} hseen => ?_
  cases seen with
  | false => exact hbody (hnew hs hseen)
  | true => exact .pure ()

include hkeeps hP hQ

/-- A node stops for a local reason, for a value inside it, or for a field without an id. -/
theorem stopsFor_writeNode {n : Node} (hs : P s)
    (hdynamic : ∀ o, n = .object o → ∃ d, o = .dynamic d)
    (hnew : ∀ {s s'}, P s → (writeHandle node).Yields s false s' → Q s')
    (hfield : ∀ d, n = .object (.dynamic d) → ∀ {s s₁ s₂ : Session} {resolved : ResolvedType}, P s →
      (resolveObject (.dynamic d)).Yields s resolved s₁ → s₁.Onward 0 s₂ → ∀ field ∈ d.fields,
      s₂.service.fieldId? resolved.typeId field.1 = none →
      E (.error (.unresolvedField resolved.typeId field.1)))
    (hproxy : ∀ interfaces handler, n = .proxy interfaces handler →
      ∀ {s}, P s → (rec handler).StopsFor E s)
    (hrec : ∀ v ∈ n.values, ∀ {s}, Q s → (rec v).StopsFor E s) :
    (writeNode rec node n).StopsFor E s := by
  have hcontainer : (writeOnce node (writeContents rec n)).StopsFor E s :=
    stopsFor_writeOnce hlocal hs hnew fun hs => stopsFor_writeContents hlocal hkeeps hQ hs hrec
  cases n with
  | object o =>
    obtain ⟨d, rfl⟩ := hdynamic o rfl
    rw [writeNode_dynamic]
    refine ((refuses_resolveObject _ s).mono fun e _ h => hlocal e h.isLocal).bind
      fun {resolved s₁} hresolve => ?_
    have hresolved : s.Keeps s₁ := (keeps_resolveObject _).of_yields hresolve
    -- Whatever comes behind the type keeps what resolving it has done.
    let P' (s₂ : Session) : Prop := P s₂ ∧ s₁.Onward 0 s₂
    let Q' (s₂ : Session) : Prop := Q s₂ ∧ s₁.Onward 0 s₂
    have hQ' : ∀ {s₂ s₃ : Session}, Q' s₂ → s₂.Onward 0 s₃ → Q' s₃ :=
      fun h honward => ⟨hQ h.1 honward, h.2.trans honward⟩
    have hnew' : ∀ {s₂ s₃ : Session}, P' s₂ → (writeHandle node).Yields s₂ false s₃ → Q' s₃ := by
      intro s₂ s₃ h hrecord
      have hrecorded : s₂.Keeps s₃ := (keeps_writeHandle node).of_yields hrecord
      exact ⟨hnew h.1 hrecord, h.2.trans hrecorded.toOnward⟩
    have hs₁ : P' s₁ := ⟨hP hs hresolved.toOnward, .refl 0 s₁⟩
    refine stopsFor_writeOnce hlocal hs₁ hnew' fun hs₂ => ?_
    refine stopsFor_writeWhole hlocal hkeeps hQ' hs₂ (fun field hmem _ h₃ hnone => ?_)
      fun v hv _ h₃ => hrec v hv h₃.1
    exact hfield d rfl hs hresolve h₃.2 field hmem hnone
  | array componentType items =>
    rw [writeNode_array]
    exact hcontainer
  | collection typeName items =>
    rw [writeNode_collection]
    exact hcontainer
  | map typeName entries =>
    rw [writeNode_map]
    exact hcontainer
  | proxy interfaces handler =>
    rw [writeNode_proxy]
    have hhandler : ∀ v ∈ (Node.proxy interfaces handler).values, ∀ {s}, P s → (rec v).StopsFor E s :=
      fun v hv => List.mem_singleton.mp hv ▸ hproxy interfaces handler rfl
    exact stopsFor_writeContents hlocal hkeeps hP hs hhandler

end

include hlocal

/-- A value that refers to no node stops for a local reason. -/
theorem stopsFor_writeWith {v : Value} (hnode : ∀ node, v = .ref node →
    ∃ n, s.graph.node? node = some n ∧ (writeNode rec node n).StopsFor E s) :
    (writeWith rec v).StopsFor E s := by
  -- Without values inside there are only reasons of the value itself.
  have hrefuses : ∀ {x : WriteM Unit}, x.Refuses → x.StopsFor E s :=
    fun h => (h s).mono fun e _ hrefusal => hlocal e hrefusal.isLocal
  cases v with
  | plain v => exact hrefuses (short_writePlain v).refuses
  | enum v => exact hrefuses (refuses_writeEnum v)
  | enumArray typeName items => exact hrefuses (refuses_writeEnumArray typeName items)
  | binaryEnum v => exact hrefuses (refuses_writeBinaryEnum v)
  | classRef typeName => exact hrefuses (refuses_writeClassRef typeName)
  | ref node =>
    obtain ⟨n, hn, hstops⟩ := hnode node rfl
    refine StopsIn.bind (.read _) fun hread => ?_
    obtain ⟨rfl, rfl⟩ := (yields_read ..).mp hread
    rw [hn]
    exact hstops

end WriteM

end

end ObjectWire
