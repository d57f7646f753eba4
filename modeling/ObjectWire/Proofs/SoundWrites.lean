import ObjectWire.Proofs.Soundness

/-!
# Sound writes

Every part of a write finds out about what it comes by: a type name whether it resolves, an object whether
its fields have distinct ids (`WriteM.ensures_writeFields`), and a node whether it is sound with all that is
inside it (`WriteM.settles_writeNode`).  So by induction on the depth a whole write finds out about its value
(`WriteM.checks_writeDepth`).
-/

namespace ObjectWire

open ObjectWire.Action World

/-- A field that has an id keeps it. -/
theorem TypeService.Evolves.fieldId? {s s' : TypeService} (h : s.Evolves s') {typeId id : Int32}
    {field : String} (hid : s.fieldId? typeId field = some id) : s'.fieldId? typeId field = some id := by
  simp only [TypeService.fieldId?, Registry.fieldId?, Option.ite_none_right_eq_some] at hid ⊢
  exact ⟨h.mapsFields.trans hid.1, h.registry.mapped typeId hid.2.1, hid.2.2⟩

/-- Fields that have ids have those of their names. -/
theorem TypeService.fieldId?_eq {s : TypeService} {typeId id : Int32} {field : String}
    (h : s.fieldId? typeId field = some id) : id = NameId.ofName field := by
  simp only [TypeService.fieldId?, Registry.fieldId?, Option.ite_none_right_eq_some] at h
  exact (Option.some.inj h.2.2).symm

namespace WriteM

variable {world : World}

/-- To write a type finds out whether its name resolves. -/
theorem checks_writeTypeRef (name : String) (kind : TypeKind) (strict : Bool) :
    world.Checks id (world.Resolves strict name) [] (writeTypeRef name kind strict) := by
  apply (checks_resolve name kind strict).behind
  intro resolved
  split
  · exact checks_writeWord _
  · exact (checks_writeWord _).before fun _ => checks_writePlain _

/-- An enum is refused for its type and for nothing else that could be wrong with it. -/
theorem checks_writeEnum (v : EnumConstant) :
    world.Checks id (world.Resolves world.strict v.typeName) [] (writeEnum v) := by
  refine checks_config fun config hstrict => ?_
  rw [hstrict]
  apply (checks_writeWord _).before
  intro _
  exact (checks_writeTypeRef _ _ _).behind fun _ => checks_writeWord _

/-- The type of the array itself is among the names found out about, and so is that of each constant. -/
theorem checks_writeEnumArray (typeName : String) (items : List (Option EnumConstant)) :
    world.Checks id (∀ name ∈ world.graph.typeNames (.enumArray typeName items),
      world.Resolves world.strict name) [] (writeEnumArray typeName items) := by
  -- An item that is missing names no type.
  have hitems : world.Checks id
      (∀ item ∈ items, ∀ v, item = some v → world.Resolves world.strict v.typeName)
      (items.flatMap fun _ => [])
      (Action.forEach (fun item => item.elim (onTape Encode.null) writeEnum) items) := by
    refine .forEach fun item _ => ?_
    cases item with
    | none => exact (checks_tagged _ _).congr ⟨fun _ => nofun, fun _ => trivial⟩
    | some v => exact (checks_writeEnum v).congr (by simp)
  rw [List.flatMap_eq_nil_iff.mpr fun _ _ => rfl] at hitems
  refine checks_config fun config hstrict => ?_
  rw [hstrict]
  apply (checks_writeWord _).before
  intro _
  have hboth := (checks_writeTypeRef typeName .enum world.strict).bind
    fun _ => (checks_writeCount "enum array" items.length).before fun _ => hitems
  refine hboth.congr ?_
  -- The names of the items are those of the constants among them.
  rw [Graph.typeNames, List.forall_mem_cons]
  refine and_congr_right fun _ => ?_
  simp only [List.mem_flatMap, Option.mem_toList, Option.map_eq_some_iff]
  constructor
  · rintro h name ⟨item, hitem, v, rfl, rfl⟩
    exact h _ hitem v rfl
  · intro h item hitem v hv
    exact h _ ⟨item, hitem, v, hv, rfl⟩

/-- A binary enum without an id of its own is right if it has a name. -/
theorem checks_writeBinaryEnum (v : BinaryEnum) :
    world.Checks id (v.typeId = unregisteredTypeId → v.typeName ≠ none) [] (writeBinaryEnum v) := by
  apply (checks_tagged _ _).before
  intro _
  split
  · next hzero =>
    split
    · next name hname =>
      refine ((checks_writePlain _).before fun _ => checks_writeWord _).congr ?_
      simp [hname]
    · next hnone =>
      -- Without the name that it needs the constant is refused.
      refine fun s _ => ⟨fun h => ?_, ?_⟩
      · simp at h
      · refine StopsIn.bind (.fail (.inr (.inl fun h => h hzero hnone))) fun h => ?_
        exact (yields_fail _ _ _ _ h).elim
  · next hid => exact (checks_writeWord _).congr ⟨fun _ h => absurd h hid, fun _ => trivial⟩

/-- The class that is referred to need not be registered. -/
theorem checks_writeClassRef (typeName : String) :
    world.Checks id (world.Resolves false typeName) [] (writeClassRef typeName) :=
  (checks_writeWord _).before fun _ => checks_writeTypeRef _ _ _

/-- To resolve the type of an object finds out whether it may be written. -/
theorem checks_resolveObject (o : UserObject) :
    world.Checks id (world.Resolves world.strict o.typeName) [] (resolveObject o) := by
  refine checks_config fun config hstrict => ?_
  rw [hstrict]
  exact checks_resolve _ _ _

/-- Before the values of a container stand the names that it has for itself. -/
theorem checks_writeHead {n : Node} (hobject : ∀ o, n ≠ .object o) :
    world.Checks id (∀ name ∈ n.typeNames, world.Resolves world.strict name) [] (writeHead n) := by
  -- Collections and maps tell a kind instead of a name, so they have no name to find out about.
  have hnone : ∀ P : String → Prop, True ↔ ∀ name ∈ [], P name :=
    fun _ => ⟨fun _ => nofun, fun _ => trivial⟩
  cases n with
  | object o => exact absurd rfl (hobject o)
  | array componentType items =>
    refine checks_config fun config hstrict => ?_
    rw [hstrict]
    apply (checks_writeWord _).before
    intro _
    refine Checks.congr ?_ List.forall_mem_singleton.symm
    exact (checks_writeTypeRef _ _ _).behind fun _ => checks_writeCount _ _
  | collection typeName items =>
    refine Checks.congr ?_ (hnone _)
    exact Checks.before (.length _ _) fun size => Checks.before (.read _) fun kind => checks_tagged _ _
  | map typeName entries =>
    refine Checks.congr ?_ (hnone _)
    exact Checks.before (.length _ _) fun size => Checks.before (.read _) fun kind => checks_tagged _ _
  | proxy interfaces handler =>
    -- The interfaces of a proxy are told by their names alone, with no values inside.
    have hinterfaces : world.Checks id (∀ name ∈ interfaces, world.Resolves world.strict name)
        (interfaces.flatMap fun _ => []) (Action.forEach
          (fun name => writeTypeRef name .proxyInterface world.strict) interfaces) :=
      .forEach fun name _ => checks_writeTypeRef name .proxyInterface world.strict
    rw [List.flatMap_eq_nil_iff.mpr fun _ _ => rfl] at hinterfaces
    refine checks_config fun config hstrict => ?_
    rw [hstrict]
    exact (checks_onTape (Encode.over_proxyHead _)).before fun _ => hinterfaces

/-- A value without others inside shows whether there is anything wrong with it. -/
theorem checks_leaf {rec : Value → WriteM Unit} {v : Value} (hleaf : ∀ node, v ≠ .ref node) :
    world.Checks id (world.Admits v) [] (writeWith rec v) := by
  cases v with
  | plain v => exact (checks_writePlain v).congr ⟨fun _ => nofun, fun _ => trivial⟩
  | enum v => exact (checks_writeEnum v).congr List.forall_mem_singleton.symm
  | enumArray typeName items => exact checks_writeEnumArray typeName items
  | binaryEnum v => exact checks_writeBinaryEnum v
  | classRef typeName => exact checks_writeClassRef typeName
  | ref node => exact absurd rfl (hleaf node)

end WriteM

/-- The writer of a dynamic object has fields of these ids, and the fields to come have the ids of their
    names. -/
structure OpenObject.Ready (world : World) (fields : List (String × Value)) (ids : List Int32)
    (o : OpenObject) : Prop where
  serves : WriteM.Serves world o.session
  raw : o.writer.rawStart = none
  ids : o.fieldIds = ids
  mapped : ∀ field ∈ fields,
    o.session.service.fieldId? o.writer.typeId field.1 = some (NameId.ofName field.1)

/-- The reason is the first of the fields whose id was there before. -/
def DynamicObject.Repeats (ids : List Int32) (fields : List (String × Value)) (e : Stop) : Prop :=
  ∃ before name v behind, fields = before ++ (name, v) :: behind ∧ (ids ++ idsOf before).Nodup ∧
    NameId.ofName name ∈ ids ++ idsOf before ∧ e = .error (.duplicateField (NameId.ofName name))

namespace DynamicObject.Repeats

variable {ids : List Int32} {name : String} {v : Value} {fields : List (String × Value)} {e : Stop}

/-- The very first field has an id that was there before. -/
theorem here (hids : ids.Nodup) (h : NameId.ofName name ∈ ids) :
    Repeats ids ((name, v) :: fields) (.error (.duplicateField (NameId.ofName name))) := by
  refine ⟨[], name, v, fields, rfl, ?_, ?_, rfl⟩
  · rwa [idsOf, List.map_nil, List.append_nil]
  · rwa [idsOf, List.map_nil, List.append_nil]

/-- The first field is one of those that were there before. -/
theorem later (h : Repeats (ids ++ [NameId.ofName name]) fields e) :
    Repeats ids ((name, v) :: fields) e := by
  obtain ⟨before, other, w, behind, rfl, hnodup, hmem, rfl⟩ := h
  rw [← append_idsOf_cons ids (name, v)] at hnodup hmem
  exact ⟨(name, v) :: before, other, w, behind, rfl, hnodup, hmem, rfl⟩

end DynamicObject.Repeats

namespace OpenObject.Ready

variable {world : World} {fields : List (String × Value)} {field : String × Value} {ids : List Int32}
  {o o' : OpenObject}

/-- What happens to the session otherwise is of no account. -/
theorem quiet (h : Ready world fields ids o) (hquiet : Quiet 0 o o') : Ready world fields ids o' where
  serves := h.serves.onward hquiet.session
  raw := by rw [hquiet.rawStart, h.raw, Option.or_none]
  ids := by
    have hstack : o'.session.fields = o.session.fields :=
      congrArg FieldStack.mk (hquiet.fields.trans (List.nil_append _))
    rw [← h.ids, fieldIds, fieldIds, hstack, hquiet.fieldCount, List.length_nil, Nat.add_zero]
  mapped field hfield := by
    rw [hquiet.typeId]
    exact hquiet.session.service.fieldId? (h.mapped field hfield)

/-- A field that is begun is one of the object's fields. -/
theorem withField (h : Ready world (field :: fields) ids o) (id : Int32) (fold : Bool) :
    Ready world fields (ids ++ [id]) (ObjectM.withField o id fold) where
  serves := ⟨h.serves.graph, h.serves.service⟩
  raw := h.raw
  ids := by
    rw [← h.ids]
    simp [fieldIds, ObjectM.withField, FieldStack.schema]
  mapped other hother := h.mapped other (List.mem_cons_of_mem _ hother)

end OpenObject.Ready

/-- A writer refuses one more field only if it has one of the id, or if the object is too long. -/
theorem ObjectWriter.runsOver_refuses {w : ObjectWriter} {cursor : Nat} {ids : List Int32} {id : Int32}
    {e : Stop} {g : Growth} (hraw : w.rawStart = none) (h : w.refuses? cursor ids id = some e) :
    e.RunsOver g ∨ id ∈ ids ∧ e = .error (.duplicateField id) := by
  rw [refuses?, hraw, if_neg (by decide)] at h
  split at h
  · next hmem => exact .inr ⟨hmem, (Option.some.inj h).symm⟩
  · split at h
    · obtain rfl := Option.some.inj h
      exact .inl fun _ => .inr trivial
    · split at h
      · -- Beyond 32 bits is beyond what the whole object may have.
        next hlarge =>
        obtain rfl := Option.some.inj h
        have hsize : UInt32.size = 4294967296 := rfl
        have hmax : maxWireLength = 2147483647 := rfl
        exact .inl fun _ => .inl ⟨cursor - w.start, by omega, .inl ⟨_, rfl⟩⟩
      · cases h

namespace ObjectM

variable {world : World} {fields : List (String × Value)} {ids : List Int32} {o : OpenObject}

/-- A field that is begun is on the stack only, and the session is otherwise as before. -/
theorem steady_withField (o : OpenObject) (id : Int32) (fold : Bool) :
    o.session.Steady (withField o id fold).session := ⟨rfl, rfl, .refl _⟩

/-- A field is begun unless the object has one of its id, or the object is too long. -/
theorem ensures_beginField {name : String} {v : Value} (h : o.Ready world ((name, v) :: fields) ids) :
    (beginField name).EnsuresIn
      (fun e o' => e.RunsOver o'.session.growth ∨
        NameId.ofName name ∈ ids ∧ e = .error (.duplicateField (NameId.ofName name)))
      (fun _ o' => NameId.ofName name ∉ ids ∧ o.session.Steady o'.session ∧
        o'.Ready world fields (ids ++ [NameId.ofName name])) o := by
  have hid : o.session.service.fieldId? o.writer.typeId name = some (NameId.ofName name) :=
    h.mapped _ (List.mem_cons_self ..)
  -- What beginning the field comes to, since the field has an id and no raw section is begun.
  have hrun : beginField name o =
      (o.writer.refuses? o.session.tape.cursor o.fieldIds (NameId.ofName name)).elim
        (.ok (), withField o (NameId.ofName name) true) fun e => (.error e, o) := by
    rw [← run_pushField]
    refine (run_beginField name o).trans ?_
    simp only [h.raw, Option.isSome_none, Bool.false_eq_true, if_false, hid]
  rw [h.ids] at hrun
  constructor
  · intro u o' hyields
    rw [Yields, hrun] at hyields
    cases hrefuses : o.writer.refuses? o.session.tape.cursor ids (NameId.ofName name) with
    | some e => simp only [hrefuses, Option.elim_some, Prod.mk.injEq, reduceCtorEq, false_and] at hyields
    | none =>
      rw [hrefuses] at hyields
      obtain ⟨-, rfl⟩ := Prod.mk.inj hyields
      exact ⟨(ObjectWriter.refuses?_eq_none.mp hrefuses).2.1, steady_withField o _ _, h.withField _ _⟩
  · intro e o' hstops
    rw [hrun] at hstops
    cases hrefuses : o.writer.refuses? o.session.tape.cursor ids (NameId.ofName name) with
    | none => simp only [hrefuses, Option.elim_none, Prod.mk.injEq, reduceCtorEq, false_and] at hstops
    | some cause =>
      rw [hrefuses] at hstops
      obtain ⟨hcause, rfl⟩ := Prod.mk.inj hstops
      obtain rfl := Except.error.inj hcause
      exact ObjectWriter.runsOver_refuses h.raw hrefuses

section

variable {rec : Value → WriteM Unit}
  (hrec : ∀ v, world.graph.Has v → world.Checks id True [v] (rec v))
  (hkeeps : ∀ {place : Nat} (v : Value), Within (Session.KeepsFrom place) (rec v))

include hrec hkeeps

/-- A field finds out whether its id is new, and then about its value. -/
theorem ensures_writeField {name : String} {v : Value} (hv : world.graph.Has v)
    (h : o.Ready world ((name, v) :: fields) ids) :
    (writeField rec name v).EnsuresIn
      (fun e o' => e.RunsOver o'.session.growth ∨
        NameId.ofName name ∈ ids ∧ e = .error (.duplicateField (NameId.ofName name)) ∨
        ¬ world.Sound v)
      (fun _ o' => NameId.ofName name ∉ ids ∧ world.Completes o.session o'.session ∧
        world.Settled o'.session v ∧ o'.Ready world fields (ids ++ [NameId.ofName name])) o := by
  refine ((ensures_beginField h).weaken fun he => he.imp_right .inl).bind fun {_ o₁} h₁ => ?_
  obtain ⟨hnew, hsteady, hready⟩ := h₁
  -- The value is written with the field begun already, and does not see it.
  have hchecks := Checks.one_iff.mp (hrec v hv) o₁.session hready.serves
  constructor
  · intro u o' hvalue
    have hquiet : OpenObject.Quiet 0 o₁ o' := (quiet_inSession (hkeeps v)).of_yields hvalue
    obtain ⟨s', hs', rfl⟩ := (yields_inSession ..).mp hvalue
    obtain ⟨hcompletes, hsettled⟩ := hchecks.result hs'
    exact ⟨hnew, Completes.trans (.of_steady hsteady) hcompletes, hsettled, hready.quiet hquiet⟩
  · refine .part (fun session => { o₁ with session }) rfl (hchecks.stops.mono fun e s' he => ?_)
    exact he.imp_right .inr

/-- The fields of an object are written one after the other up to the first one whose id was there before. -/
theorem ensures_writeFields (hvs : ∀ v ∈ fields.map (·.2), world.graph.Has v) (hids : ids.Nodup)
    (h : o.Ready world fields ids) :
    (Action.forEach (fun field : String × Value => writeField rec field.1 field.2) fields).EnsuresIn
      (fun e o' => e.RunsOver o'.session.growth ∨ DynamicObject.Repeats ids fields e ∨
        ∃ v ∈ fields.map (·.2), ¬ world.Sound v)
      (fun _ o' => (ids ++ DynamicObject.idsOf fields).Nodup ∧
        world.Completes o.session o'.session ∧
        ∀ v ∈ fields.map (·.2), world.Settled o'.session v) o := by
  -- By induction on the fields to come; the ids of those before are distinct all the way.
  induction fields generalizing ids o with
  | nil =>
    refine ⟨fun hend => ?_, .pure ()⟩
    obtain ⟨-, rfl⟩ := (yields_pure ..).mp hend
    exact ⟨by rwa [DynamicObject.idsOf, List.map_nil, List.append_nil], .refl _, nofun⟩
  | cons field fields ih =>
    obtain ⟨name, v⟩ := field
    obtain ⟨hv, hvs⟩ := List.forall_mem_cons.mp hvs
    refine ((ensures_writeField hrec hkeeps hv h).weaken fun {e o'} he => ?_).bind fun {_ o₁} h₁ => ?_
    · obtain hover | ⟨hmem, rfl⟩ | hflaw := he
      · exact .inl hover
      · exact .inr (.inl (.here hids hmem))
      · exact .inr (.inr ⟨v, List.mem_cons_self .., hflaw⟩)
    · obtain ⟨hnew, hcompletes, hsettled, hready⟩ := h₁
      -- The fields behind have this one among those that were there before.
      have hids₁ : (ids ++ [NameId.ofName name]).Nodup :=
        hids.append (List.nodup_singleton _) (List.disjoint_singleton.mpr hnew)
      have hrest := ih hvs hids₁ hready
      constructor
      · intro u o' hyields
        obtain ⟨hnodup, hcompletes', hsettled'⟩ := hrest.result hyields
        rw [← DynamicObject.append_idsOf_cons ids (name, v)] at hnodup
        refine ⟨hnodup, hcompletes.trans hcompletes', ?_⟩
        exact List.forall_mem_cons.mpr ⟨hsettled.mono hcompletes'.seen, hsettled'⟩
      · refine hrest.stops.mono fun e o' he => ?_
        obtain hover | hrepeats | ⟨u, hu, hflaw⟩ := he
        · exact .inl hover
        · exact .inr (.inl hrepeats.later)
        · exact .inr (.inr ⟨u, List.mem_cons_of_mem _ hu, hflaw⟩)

end

/-- A raw section shows nothing. -/
theorem checks_rawSection (raw : Option Bytes) : world.Checks (·.session) True [] (match raw with
    | some raw => do
      enterRaw
      inSession (WriteM.onTape (Tape.write raw))
    | none => pure ()) := by
  have hin : ∀ {α : Type} {x : WriteM α}, world.Checks id True [] x →
      world.Checks (·.session) True [] (inSession x) :=
    fun hx o ho => .part (fun session => { o with session }) rfl (hx o.session ho)
  split
  · have hraw : world.Checks (·.session) True [] enterRaw :=
      (hin (.read _)).before fun _ => .update fun _ => ⟨rfl, rfl, .refl _⟩
    exact hraw.before fun _ => hin (WriteM.checks_onTape (Tape.over_write _))
  · exact .pure ()

end ObjectM

namespace WriteM

variable {world : World} {B : Stop → Prop} {s : Session}

section

variable {rec : Value → WriteM Unit}
  (hrec : ∀ v, world.graph.Has v → world.Checks id True [v] (rec v))
  (hkeeps : ∀ {place : Nat} (v : Value), Within (Session.KeepsFrom place) (rec v))

include hrec hkeeps

/-- The fields of an object are written, and then its raw section, which shows nothing. -/
theorem ensures_writeDynamicBody {node : NodeId} {d : DynamicObject} {o : OpenObject}
    (hvs : ∀ v ∈ d.fields.map (·.2), world.graph.Has v) (h : o.Ready world d.fields []) :
    (writeBody rec node (.dynamic d)).EnsuresIn
      (fun e o' => e.RunsOver o'.session.growth ∨ DynamicObject.Repeats [] d.fields e ∨
        ∃ v ∈ d.fields.map (·.2), ¬ world.Sound v)
      (fun _ o' => d.fieldIds.Nodup ∧ world.Completes o.session o'.session ∧
        ∀ v ∈ d.fields.map (·.2), world.Settled o'.session v) o := by
  refine (ObjectM.ensures_writeFields hrec hkeeps hvs List.nodup_nil h).bind fun {_ o₁} h₁ => ?_
  obtain ⟨hnodup, hcompletes, hsettled⟩ := h₁
  have hraw := (ObjectM.checks_rawSection d.raw).quiet (hcompletes.serves h.serves)
  refine (hraw.weaken .inl).mono fun hlater => ?_
  exact ⟨hnodup, hcompletes.trans hlater, fun v hv => (hsettled v hv).mono hlater.seen⟩

/-- A dynamic object whose fields have the ids of their names finds out whether the ids are distinct. -/
theorem ensures_writeWhole (node : NodeId) {d : DynamicObject} {resolved : ResolvedType}
    (hs : Serves world s) (hvs : ∀ v ∈ d.fields.map (·.2), world.graph.Has v) (hmapped : ∀ field ∈ d.fields,
      s.service.fieldId? resolved.typeId field.1 = some (NameId.ofName field.1)) :
    (writeWhole rec node (.dynamic d) resolved).EnsuresIn
      (fun e s' => e.RunsOver s'.growth ∨ DynamicObject.Repeats [] d.fields e ∨
        ∃ v ∈ d.fields.map (·.2), ¬ world.Sound v)
      (fun _ s' => d.fieldIds.Nodup ∧ world.Completes s s' ∧
        ∀ v ∈ d.fields.map (·.2), world.Settled s' v) s := by
  have hframed : (writeFramed resolved.typeId (if resolved.registered then none else some d.typeName)
      (writeBody rec node (.dynamic d)) (some resolved.userType)).EnsuresIn
        (fun e s' => e.RunsOver s'.growth ∨ DynamicObject.Repeats [] d.fields e ∨
          ∃ v ∈ d.fields.map (·.2), ¬ world.Sound v)
        (fun _ s' => d.fieldIds.Nodup ∧ world.Completes s s' ∧
          ∀ v ∈ d.fields.map (·.2), world.Settled s' v) s := by
    refine ensures_writeFramed ((ObjectWriter.over_begin _ _ s).mono fun _ _ => .inl)
      (fun {w s₁} hw hsteady => ?_) (fun w s₁ _ => (w.over_finish _ s₁).mono fun _ _ => .inl)
      (fun hsteady h => ?_) id
    · have hbegun : world.Completes s s₁ := .of_steady hsteady
      -- The writer has no fields yet, whatever is on the stack.
      have hready : OpenObject.Ready world d.fields [] ⟨w, s₁⟩ := by
        obtain ⟨rfl, -⟩ := ObjectWriter.begin_fresh hw
        exact ⟨hbegun.serves hs, rfl, rfl, fun field hfield =>
          hbegun.service.fieldId? (hmapped field hfield)⟩
      exact (ensures_writeDynamicBody hrec hkeeps hvs hready).mono fun h =>
        ⟨h.1, hbegun.trans h.2.1, h.2.2⟩
    · have hrest : world.Completes _ _ := .of_steady hsteady
      exact ⟨h.1, h.2.1.trans hrest, fun v hv => (h.2.2 v hv).mono hrest.seen⟩
  exact hframed.bind fun h => ⟨fun hend => ((yields_pure ..).mp hend).2 ▸ h, .pure ()⟩

omit hkeeps in
/-- A container comes by the names in its head and by the values inside it. -/
theorem checks_writeContents {n : Node} (hobject : ∀ o, n ≠ .object o)
    (hvs : ∀ v ∈ n.values, world.graph.Has v) :
    world.Checks id (∀ name ∈ n.typeNames, world.Resolves world.strict name) n.contents
      (writeContents rec n) := by
  have hvalues : world.Checks id (∀ v ∈ n.values, True) (n.values.flatMap fun v => [v])
      (Action.forEach rec n.values) := .forEach fun v hv => hrec v (hvs v hv)
  rw [List.flatMap_singleton'] at hvalues
  have hboth := ((checks_writeHead hobject).bind fun _ => hvalues).congr
    (and_iff_left fun _ _ => trivial)
  rw [(Node.parts_container hobject).1]
  exact hboth

end

/-- A node is settled once it was written in full, and so it is if it was recorded before. -/
theorem settles_writeOnce {node : NodeId} {n : Node} {body : WriteM Unit} (hs : Serves world s)
    (hn : world.graph.node? node = some n)
    (hbody : body.EnsuresIn (fun e s' => e.RunsOver s'.growth ∨ B e)
      (fun _ s' => world.AdmitsNode n ∧ world.Completes (recorded node s) s' ∧
        ∀ v ∈ n.contents, world.Settled s' v) (recorded node s)) :
    (writeOnce node body).EnsuresIn (fun e s' => e.RunsOver s'.growth ∨ B e)
      (fun _ s' => world.Completes s s' ∧ world.Settled s' (.ref node)) s := by
  -- A node that was seen is settled by that alone, and one that is new by what its body finds out.
  cases hfind : s.handles.find? node with
  | none =>
    refine .of_run (writeOnce_new hfind) (hbody.mono fun {_ s'} h => ?_)
    obtain ⟨hadmits, hcompletes, hsettled⟩ := h
    obtain ⟨hcompletes, hseen⟩ := completes_recorded hcompletes ⟨n, hn, hadmits, hsettled⟩
    exact ⟨hcompletes, .seen hseen⟩
  | some first =>
    have hback : world.Checks id True [] (writeBack first s.tape.cursor) :=
      checks_of_mirrors (over_writeBack _ _) fun _ => mirrors_writeBack first s.tape.cursor
    have hcompletes : world.Completes s (recorded node s) := .of_steady (steady_recorded hfind)
    refine .of_run (writeOnce_seen hfind) ⟨fun hend => ?_, (over_writeBack _ _ _).mono fun _ _ => .inl⟩
    have hlater := (hback.quiet (hcompletes.serves hs)).result hend
    refine ⟨hcompletes.trans hlater, .seen ((hcompletes.trans hlater).seen node ?_)⟩
    rw [hfind]
    exact Option.some_ne_none first

section

variable {rec : Value → WriteM Unit}
  (hrec : ∀ v, world.graph.Has v → world.Checks id True [v] (rec v))
  (hkeeps : ∀ {place : Nat} (v : Value), Within (Session.KeepsFrom place) (rec v))
  (hcovered : world.service.registry.Covered) (hmaps : world.service.mapsFields = true)
  (hids : ∀ typeId field, ¬ world.LacksFieldId typeId field) (hclosed : world.graph.Closed)

include hrec hkeeps hcovered hmaps hids hclosed

/-- A dynamic object is written, or it is refused for its type, for a field whose id was there before, or for
    the value of a field. -/
theorem ensures_writeDynamic {node : NodeId} {d : DynamicObject} (hs : Serves world s)
    (hd : world.graph.node? node = some (.object (.dynamic d))) :
    (writeNode rec node (.object (.dynamic d))).EnsuresIn
      (fun e s' => e.RunsOver s'.growth ∨ ¬ world.Resolves world.strict d.typeName ∨
        DynamicObject.Repeats [] d.fields e ∨ ∃ v ∈ d.fields.map (·.2), ¬ world.Sound v)
      (fun _ s' => world.Completes s s' ∧ world.Settled s' (.ref node)) s := by
  rw [writeNode_dynamic]
  let E (e : Stop) (s' : Session) : Prop :=
    e.RunsOver s'.growth ∨ ¬ world.Resolves world.strict d.typeName ∨
      DynamicObject.Repeats [] d.fields e ∨ ∃ v ∈ d.fields.map (·.2), ¬ world.Sound v
  have hchecks := checks_resolveObject (.dynamic d) s hs
  -- The type first: if it does not resolve, that is what is wrong with the object.
  have hresolve : (resolveObject (.dynamic d)).EnsuresIn E (fun resolved s₁ => world.Completes s s₁ ∧
      world.Resolves world.strict d.typeName ∧
      (resolveObject (.dynamic d)).Yields s resolved s₁) s := by
    refine ⟨fun h => ⟨(hchecks.result h).1, (hchecks.result h).2.1, h⟩, ?_⟩
    refine hchecks.stops.mono fun e s' he => ?_
    obtain hover | htype | ⟨v, hv, -⟩ := he
    · exact .inl hover
    · exact .inr (.inl htype)
    · cases hv
  refine hresolve.bind fun {resolved s₁} h₁ => ?_
  obtain ⟨hcompletes, htype, hresolved⟩ := h₁
  -- Every field has an id under the type, since the world lacks none.
  have hmapped : ∀ field ∈ d.fields,
      s₁.service.fieldId? resolved.typeId field.1 = some (NameId.ofName field.1) := by
    intro field hfield
    cases hid : s₁.service.fieldId? resolved.typeId field.1 with
    | none => exact absurd (lacks_field hcovered hmaps hd hs hresolved (.refl 0 s₁) hfield hid) (hids _ _)
    | some id => rw [TypeService.fieldId?_eq hid]
  have hs₁ := hcompletes.serves hs
  have hwhole := ensures_writeWhole hrec hkeeps node (s := recorded node s₁)
    ⟨hs₁.graph, hs₁.service⟩ (hclosed.values hd) hmapped
  have honce := settles_writeOnce hs₁ hd (hwhole.mono fun h => ?_)
  · refine (honce.weaken fun he => ?_).mono fun h => ⟨hcompletes.trans h.1, h.2⟩
    exact he.imp_right .inr
  · refine ⟨⟨List.forall_mem_singleton.mpr htype, ?_⟩, h.2.1, ?_⟩
    · intro other hother
      cases hother
      exact h.1
    · rw [Node.contents_dynamic]
      exact h.2.2

/-- A node finds out whether it is sound. -/
theorem settles_writeNode {node : NodeId} {n : Node} (hs : Serves world s)
    (hdynamic : world.graph.Dynamic) (hn : world.graph.node? node = some n) :
    (writeNode rec node n).EnsuresIn (fun e s' => e.RunsOver s'.growth ∨ ¬ world.Sound (.ref node))
      (fun _ s' => world.Completes s s' ∧ world.Settled s' (.ref node)) s := by
  -- What is wrong with the node itself is wrong with the reference to it.
  have hadmits : world.Sound (.ref node) → world.AdmitsNode n := by
    intro hsound
    obtain ⟨m, hm, hadmits⟩ := hsound.admits
    cases hn.symm.trans hm
    exact hadmits
  have hcontents : (∀ o, n ≠ .object o) → ∀ s₁, Serves world s₁ → (writeContents rec n).EnsuresIn
      (fun e s' => e.RunsOver s'.growth ∨ ¬ world.Sound (.ref node))
      (fun _ s' => world.AdmitsNode n ∧ world.Completes s₁ s' ∧
        ∀ v ∈ n.contents, world.Settled s' v) s₁ := by
    intro hobject s₁ hs₁
    refine ((checks_writeContents hrec hobject (hclosed.values hn) s₁ hs₁).weaken fun he => ?_).mono fun h => ?_
    · obtain hover | htypes | ⟨v, hv, hflaw⟩ := he
      · exact .inl hover
      · exact .inr fun hsound => htypes (hadmits hsound).types
      · exact .inr fun hsound => hflaw (hsound.inside hn (Node.parts_container hobject).2 hv)
    · exact ⟨⟨h.2.1, fun d hd => absurd hd (hobject _)⟩, h.1, h.2.2⟩
  have hrecorded : Serves world (recorded node s) := ⟨hs.graph, hs.service⟩
  cases n with
  | object o =>
    obtain ⟨d, rfl⟩ := hdynamic node o hn
    refine (ensures_writeDynamic hrec hkeeps hcovered hmaps hids hclosed hs hn).weaken fun he => ?_
    obtain hover | htype | ⟨before, name, v, behind, hfields, -, hmem, -⟩ | ⟨v, hv, hflaw⟩ := he
    · exact .inl hover
    · exact .inr fun hsound => htype ((hadmits hsound).types _ (List.mem_singleton_self _))
    · -- A field that repeats an id shows that the ids are not distinct.
      refine .inr fun hsound => ?_
      have hnodup := (hadmits hsound).fields d rfl
      rw [DynamicObject.fieldIds, hfields] at hnodup
      exact DynamicObject.not_nodup_of_repeat hmem hnodup
    · rw [← Node.contents_dynamic] at hv
      exact .inr fun hsound => hflaw (hsound.inside hn rfl hv)
  | array componentType items =>
    rw [writeNode_array]
    exact settles_writeOnce hs hn (hcontents nofun _ hrecorded)
  | collection typeName items =>
    rw [writeNode_collection]
    exact settles_writeOnce hs hn (hcontents nofun _ hrecorded)
  | map typeName entries =>
    rw [writeNode_map]
    exact settles_writeOnce hs hn (hcontents nofun _ hrecorded)
  | proxy interfaces handler =>
    rw [writeNode_proxy]
    exact (hcontents nofun s hs).mono fun h => ⟨h.2.1, .whole hn h.1 h.2.2⟩

end

/-- A reference is written as the node that it leads to. -/
theorem run_writeDepth_ref {depth : Nat} {node : NodeId} {n : Node} (hs : Serves world s)
    (hn : world.graph.node? node = some n) :
    (writeDepth (depth + 1) (.ref node)).run s = (writeNode (writeDepth depth) node n).run s := by
  have hnode : s.graph.node? node = some n := hs.graph node n hn
  rw [writeDepth, writeWith, run_read_bind, hnode]

/-- A write finds out about its value, by induction on the depth. -/
theorem checks_writeDepth (hcovered : world.service.registry.Covered)
    (hmaps : world.service.mapsFields = true)
    (hids : ∀ typeId field, ¬ world.LacksFieldId typeId field) (hclosed : world.graph.Closed)
    (hdynamic : world.graph.Dynamic) (depth : Nat) (v : Value) (hv : world.graph.Has v) :
    world.Checks id True [v] (writeDepth depth v) := by
  refine Checks.one_iff.mpr fun s hs => ?_
  -- By induction on the depth, with the values inside a node at one level less.
  induction depth generalizing v s with
  | zero => exact ⟨fun h => (yields_stop _ _ _ _ h).elim, .stop (.inl fun _ => .inr trivial)⟩
  | succ depth ih =>
    by_cases hleaf : ∀ node, v ≠ .ref node
    · refine ((checks_leaf hleaf s hs).weaken fun he => ?_).mono fun h => ⟨h.1, .leaf hleaf h.2.1⟩
      obtain hover | hflaw | ⟨u, hu, -⟩ := he
      · exact .inl hover
      · exact .inr fun hsound => hflaw hsound.admits
      · cases hu
    · obtain ⟨node, hnode⟩ := not_forall.mp hleaf
      obtain rfl := not_not.mp hnode
      obtain ⟨n, hn⟩ := hv.node?
      have hrec : ∀ v, world.graph.Has v → world.Checks id True [v] (writeDepth depth v) :=
        fun v hv => Checks.one_iff.mpr (ih v hv)
      exact .of_run (run_writeDepth_ref hs hn)
        (settles_writeNode hrec (keeps_writeDepth depth) hcovered hmaps hids hclosed hs hdynamic hn)

end WriteM

end ObjectWire
