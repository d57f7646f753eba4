import ObjectWire.Proofs.Histories
import ObjectWire.Proofs.NodeStops
import ObjectWire.Proofs.RootImage

/-!
# Fields have ids

Every type that resolves has fields with ids from then on, and so no write of dynamic objects fails for
want of one.  There is one exception: the predefined type is in a new registry without having come through
a call, and as long as no other type has been given its id, its fields have none.
-/

namespace ObjectWire

open ObjectWire.Action

/-- The field belongs to a dynamic object of the predefined type, and the registry has no ids for the
    fields of that type. -/
def World.LacksFieldId (world : World) (typeId : Int32) (field : String) : Prop :=
  typeId = Registry.objectTypeId ∧ Registry.objectTypeId ∉ world.service.registry.mapped ∧
    ∃ id d, world.graph.node? id = some (.object (.dynamic d)) ∧
      d.typeName = Registry.objectTypeName ∧ field ∈ d.fields.map (·.1)

/-- The reason is not about a field, or it is about one that has no id. -/
def World.Lacks (world : World) (e : Stop) : Prop :=
  ∀ typeId field, e = .error (.unresolvedField typeId field) → world.LacksFieldId typeId field

/-- A reason that names no field tells of none that the world lacks. -/
theorem World.lacks_of_isLocal {world : World} {e : Stop} (h : e.IsLocal) : world.Lacks e := by
  intro typeId field he
  subst he
  exact absurd ⟨typeId, field, rfl⟩ h

namespace WriteM

variable {world : World}

/-- The session is one of a write in the world: it has the nodes of the world's graph, and its type
    service is the world's after some writes. -/
structure Serves (world : World) (s : Session) : Prop where
  graph : world.graph.Extends s.graph
  service : world.service.Evolves s.service

/-- A world serves a session that goes on. -/
theorem Serves.onward {s s' : Session} (h : Serves world s) (hs : s.Onward 0 s') : Serves world s' where
  graph := h.graph.trans hs.graph
  service := h.service.trans hs.service

/-- A field of an object that has resolved has an id, unless the object is of the predefined type. -/
theorem lacks_field {id : NodeId} {d : DynamicObject} (hcovered : world.service.registry.Covered)
    (hmaps : world.service.mapsFields = true) (hd : world.graph.node? id = some (.object (.dynamic d)))
    {s s₁ s₂ : Session} {resolved : ResolvedType} (h : Serves world s)
    (hresolve : (resolveObject (.dynamic d)).Yields s resolved s₁) (h₂ : s₁.Onward 0 s₂)
    {field : String × Value} (hfield : field ∈ d.fields)
    (hnone : s₂.service.fieldId? resolved.typeId field.1 = none) :
    world.LacksFieldId resolved.typeId field.1 := by
  obtain ⟨r, hr, rfl⟩ := resolveObject_yields hresolve
  have hmaps₂ : s₂.service.mapsFields = true :=
    h₂.service.mapsFields.trans (h.service.mapsFields.trans hmaps)
  have hunmapped : resolved.typeId ∉ s₂.service.registry.mapped := by
    intro hmem
    rw [TypeService.fieldId?, hmaps₂, if_pos rfl, Registry.fieldId?, if_pos hmem] at hnone
    cases hnone
  have hmapped : ∀ typeId ∈ r.mapped, typeId ∈ s₂.service.registry.mapped := h₂.service.registry.mapped
  obtain hmem | ⟨hname, rfl⟩ := (hcovered.evolves h.service.registry).resolve hr
  · exact absurd (hmapped _ hmem) hunmapped
  · -- What is unmapped now was so from the start.
    have hresolved : s.service.registry.Evolves r :=
      (Registry.evolves_resolve _ _ _).of_yields hr
    refine ⟨rfl, fun hmem => hunmapped (hmapped _ ?_), id, d, hd, hname, List.mem_map_of_mem hfield⟩
    exact hresolved.mapped _ (h.service.registry.mapped _ hmem)

/-- A write of dynamic objects stops for want of a field's id only at an object of the predefined type, by
    induction on the depth. -/
theorem lacks_writeDepth (hcovered : world.service.registry.Covered)
    (hmaps : world.service.mapsFields = true) (hdynamic : world.graph.Dynamic)
    (hclosed : world.graph.Closed) {depth : Nat} {v : Value} {s : Session} (hv : world.graph.Has v)
    (hs : Serves world s) : (writeDepth depth v).StopsFor world.Lacks s := by
  -- By induction on the depth: the session serves the world wherever the write has come to.
  induction depth generalizing v s with
  | zero => exact .stop fun _ _ he => nomatch he
  | succ depth ih =>
    refine stopsFor_writeWith (fun _ => World.lacks_of_isLocal) fun node hnode => ?_
    subst hnode
    obtain ⟨n, hn⟩ := hv.node?
    refine ⟨n, hs.graph node n hn, ?_⟩
    have hvalues := hclosed.values hn
    refine stopsFor_writeNode (P := Serves world) (Q := Serves world)
      (fun _ => World.lacks_of_isLocal) (keeps_writeDepth depth) Serves.onward Serves.onward hs
      (fun o ho => hdynamic node o (ho ▸ hn)) ?_ ?_ ?_ fun v hmem _ h => ih (hvalues v hmem) h
    · intro s s' h hrecord
      have hrecorded : s.Keeps s' := (keeps_writeHandle node).of_yields hrecord
      exact h.onward hrecorded.toOnward
    · intro d hd s s₁ s₂ resolved h hresolve h₂ field hfield hnone typeId name he
      cases he
      exact lacks_field hcovered hmaps (hd ▸ hn) h hresolve h₂ hfield hnone
    · intro interfaces handler hproxy s h
      subst hproxy
      exact ih (hvalues handler (List.mem_singleton_self _)) h

end WriteM

/-- A root write at the cursor fails where its session does. -/
theorem encodeInto_error {v : Value} {world : World} {scratch : Scratch} {e : Stop}
    (h : (encodeInto v (world, scratch)).1 = .error e) :
    (WriteM.writeValue v (world.session scratch.tape scratch.fields)).1 = .error e := by
  have hrun : (WriteM.writeValue v (world.session scratch.tape scratch.fields)).1 =
      (RootM.ofSession (WriteM.writeValue v) (world, scratch)).1 := rfl
  rw [hrun]
  simp only [encodeInto] at h
  generalize RootM.ofSession (WriteM.writeValue v) (world, scratch) = run at h ⊢
  obtain ⟨e' | _, world', scratch'⟩ := run
  · exact congrArg Except.error (Except.error.inj h)
  · cases h

/-- A root write to a scratch tape fails where its session does, if it does not go out of range when the
    bytes are read off the tape. -/
theorem encodeWith_error {v : Value} {world : World} {scratch : Scratch} {cause : Error}
    (h : (encodeWith v (world, scratch)).1 = .error (.error cause)) :
    (WriteM.writeValue v (world.session scratch.reset.tape scratch.reset.fields)).1 =
      .error (.error cause) := by
  have hrun : (WriteM.writeValue v (world.session scratch.reset.tape scratch.reset.fields)).1 =
      (RootM.ofSession (WriteM.writeValue v) (world, scratch.reset)).1 := rfl
  rw [hrun]
  simp only [encodeWith] at h
  generalize RootM.ofSession (WriteM.writeValue v) (world, scratch.reset) = run at h ⊢
  obtain ⟨e' | _, world', scratch'⟩ := run
  · exact congrArg Except.error (Except.error.inj h)
  · simp only at h
    split at h <;> cases h

/-- Once a type has resolved, and whatever is called on the registry after that, its fields have the ids of
    their names, with the one exception of the predefined type while no type has been given its id by a
    call.  So a root write of dynamic objects, at any time in the history of the registry and its writes,
    fails for want of a field's id only at a field of an object of the predefined type. -/
theorem resolve_fieldIds {config : Config} {calls : List Registry.Call} :
    (∀ {name : String} {kind : TypeKind} {failIfUnregistered : Bool} {resolved : ResolvedType}
      {r : Registry},
      (Registry.resolve name kind failIfUnregistered).Yields ((Registry.new config).after calls)
        resolved r →
      ∀ (later : List Registry.Call) (field : String),
        (r.after later).fieldId? resolved.typeId field = some (NameId.ofName field) ∨
          (r.after later).fieldId? resolved.typeId field = none ∧
            name = Registry.objectTypeName ∧ resolved = ⟨Registry.objectTypeId, true, false⟩ ∧
            Registry.objectTypeId ∉ (r.after later).mapped) ∧
    ∀ {world : World} {v : Value} {typeId : Int32} {field : String},
      ((Registry.new config).after calls).Evolves world.service.registry →
      world.service.mapsFields = true → world.graph.Dynamic → world.graph.Closed →
      world.graph.Has v →
      ((encode v world).1 = .error (.error (.unresolvedField typeId field)) →
        world.LacksFieldId typeId field) ∧
      ∀ scratch : Scratch,
        ((encodeWith v (world, scratch)).1 = .error (.error (.unresolvedField typeId field)) →
          world.LacksFieldId typeId field) ∧
        ((encodeInto v (world, scratch)).1 = .error (.error (.unresolvedField typeId field)) →
          world.LacksFieldId typeId field) := by
  have hcovered : ((Registry.new config).after calls).Covered := (Registry.Covered.new config).after calls
  constructor
  · intro name kind failIfUnregistered resolved r h later field
    -- An id that is resolved is mapped and stays so, but for that of `Object`.
    by_cases hmapped : resolved.typeId ∈ (r.after later).mapped
    · exact .inl (if_pos hmapped)
    · obtain hmem | ⟨hname, rfl⟩ := hcovered.resolve h
      · exact absurd (Registry.mapped_after later _ hmem) hmapped
      · exact .inr ⟨if_neg hmapped, hname, rfl, hmapped⟩
  · intro world v typeId field hwrites hmaps hdynamic hclosed hv
    -- All three root writes run one session, and only that can stop for a field.
    have hwrite : ∀ {tape fields}, (WriteM.writeValue v (world.session tape fields)).1 =
        .error (.error (.unresolvedField typeId field)) → world.LacksFieldId typeId field := by
      intro tape fields h
      have hserves : WriteM.Serves world (world.session tape fields) := ⟨.refl _, .refl _⟩
      have hlacks : (WriteM.writeDepth (WriteM.depthOn tape) v).StopsFor world.Lacks
          (world.session tape fields) :=
        WriteM.lacks_writeDepth (hcovered.evolves hwrites) hmaps hdynamic hclosed hv hserves
      exact hlacks _ _ (Prod.ext h rfl) _ _ rfl
    refine ⟨fun h => ?_, fun scratch => ⟨fun h => ?_, fun h => ?_⟩⟩
    · have hwith : (encodeWith v (world, Scratch.new world.service.config.initialCapacity)).1 = _ := h
      exact hwrite (encodeWith_error hwith)
    · exact hwrite (encodeWith_error h)
    · exact hwrite (encodeInto_error h)

/-- A world with one object of the predefined type. -/
def plainWorld : World where
  service := { registry := (Registry.new { initialCapacity := 16 }).after [.register "Pair"] }
  graph := { nodes := #[.object (.dynamic { typeName := "Object", fields := [("x", .plain .null)] })] }

/-- A type that was registered has ids for its fields, and the type of all objects has none before it is
    resolved. -/
theorem resolve_fieldIds_sample :
    (plainWorld.service.registry.after [.registerAs "Shape" 7 false]).fieldId?
        (NameId.ofName "Pair") "a" = some (NameId.ofName "a") ∧
      plainWorld.LacksFieldId (-1) "x" := by
  obtain ⟨hresolve, hwrite⟩ :=
    @resolve_fieldIds { initialCapacity := 16 } [.register "Pair"]
  constructor
  · have hpair : (Registry.resolve "Pair" .object true).Yields plainWorld.service.registry
        ⟨NameId.ofName "Pair", true, true⟩ plainWorld.service.registry := rfl
    obtain hid | ⟨-, hname, -⟩ := hresolve hpair [.registerAs "Shape" 7 false] "a"
    · exact hid
    · exact absurd hname (by decide)
  · have hdynamic : plainWorld.graph.Dynamic := by
      intro id o ho
      have hmem : Node.object o ∈ plainWorld.graph.nodes := Array.mem_of_getElem? ho
      simp only [plainWorld, List.mem_toArray, List.mem_cons, List.not_mem_nil, Node.object.injEq,
        or_false] at hmem
      exact ⟨_, hmem⟩
    have hclosed : plainWorld.graph.Closed := by decide
    have hv : plainWorld.graph.Has (.ref 0) := by decide
    have hfails : (encode (.ref 0) plainWorld).1 = .error (.error (.unresolvedField (-1) "x")) := by
      decide +kernel
    exact (hwrite (.refl _) rfl hdynamic hclosed hv).1 hfails

/-- In a new registry the predefined type resolves and its fields have no ids, so that no object of it can
    be written that has a field. -/
theorem resolve_fieldIds_predefined :
    let r := Registry.new {}
    (Registry.resolve "Object" .object false).Yields r ⟨-1, true, false⟩ r ∧
      r.fieldId? (-1) "x" = none ∧
      (encode (.ref 0) { plainWorld with service := { registry := r } }).1 =
        .error (.error (.unresolvedField (-1) "x")) := by
  refine ⟨rfl, rfl, by decide +kernel⟩

end ObjectWire
