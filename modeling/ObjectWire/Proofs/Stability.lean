import ObjectWire.Proofs.SideBySide
import ObjectWire.Proofs.WriteInRange

/-!
# Encoding again gives the same bytes

Root writes change their type service on the way: names that resolve get ids for their fields, and objects
leave their schemas.  None of it comes back as other bytes.  A service that has all field ids of another
one (`TypeService.Includes`) encodes a value of dynamic objects as that one does, whichever schemas the
two have; and a service has all its field ids still after any root writes (`evolves_after`).
-/

namespace ObjectWire

open ObjectWire.Action

/-- The second registry has the options, categories and types of the first one, and the fields of a type
    have ids in the second one if they have in the first one. -/
structure Registry.Includes (r r' : Registry) : Prop where
  static : r'.static = r.static
  mapped : ∀ id ∈ r.mapped, id ∈ r'.mapped

/-- The same for type services.  It does not matter which schemas they know, or whether they keep any. -/
structure TypeService.Includes (a b : TypeService) : Prop where
  registry : a.registry.Includes b.registry
  mapsFields : a.mapsFields = true → b.mapsFields = true

/-- A registry keeps all it has while it is used. -/
theorem TypeService.Evolves.includes {a b : TypeService} (h : a.Evolves b) : a.Includes b where
  registry := ⟨h.registry.static, h.registry.mapped⟩
  mapsFields hmaps := h.mapsFields.trans hmaps

/-- The reason is that a field has no id. -/
def Stop.LacksId (e : Stop) : Prop := ∃ typeId field, e = .error (.unresolvedField typeId field)

/-- A name resolves to the same type, whose fields have ids from then on in both registries. -/
theorem Registry.mirrors_resolve {E : Stop → Prop} (name : String) (kind : TypeKind)
    (failIfUnregistered : Bool) : Mirrors E Includes (resolve name kind failIfUnregistered)
      (resolve name kind failIfUnregistered) := by
  refine Mirrors.bind (.read fun r r' h => ?_) fun entry => ?_
  · have htypes : r'.static.types = r.static.types := congrArg Registry.types h.static
    exact congrArg (Dict.find? · name) htypes
  · cases entry with
    | some entry => exact .pure _
    | none =>
      refine .whenBind (.stop _) (Mirrors.bind (.ofExcept _) fun typeId => ?_)
      refine Mirrors.bind (.update fun r r' h => ⟨h.static, fun id hid => ?_⟩) fun _ => .pure _
      exact List.mem_insert_iff.mpr ((List.mem_insert_iff.mp hid).imp_right (h.mapped id))

namespace TypeService

/-- A field that has an id has the same one in the second service. -/
theorem Includes.fieldId? {a b : TypeService} (h : a.Includes b) (typeId : Int32) (field : String) :
    b.fieldId? typeId field = a.fieldId? typeId field ∨ a.fieldId? typeId field = none := by
  cases hid : a.fieldId? typeId field with
  | none => exact .inr rfl
  | some id =>
    simp only [TypeService.fieldId?, Registry.fieldId?] at hid ⊢
    split at hid
    · next hmaps =>
      split at hid
      · next hmem => exact .inl (by rw [if_pos (h.mapsFields hmaps), if_pos (h.registry.mapped _ hmem), hid])
      · cases hid
    · cases hid

/-- A schema that is learnt changes nothing but the schemas. -/
theorem learn_eq (s : TypeService) (typeId schemaId : Int32) (schema : Schema) :
    ∃ schemas, s.learn typeId schemaId schema = { s with registry := { s.registry with schemas } } := by
  unfold learn addSchema
  split
  · exact ⟨_, rfl⟩
  · split <;> exact ⟨_, rfl⟩

/-- A service that includes another one answers as that one does, or gives an id where it has none. -/
theorem mirrored_includes : Mirrored Stop.LacksId Includes where
  static h := h.registry.static
  resolve name kind failIfUnregistered a b h :=
    (Registry.mirrors_resolve name kind failIfUnregistered h.registry).imp_right fun hsame =>
      ⟨hsame.1, hsame.2, h.mapsFields⟩
  fieldId h typeId field := (h.fieldId? typeId field).imp_right fun hnone => ⟨hnone, _, _, rfl⟩
  learn {a b} h typeId schemaId schema := by
    obtain ⟨schemas, ha⟩ := a.learn_eq typeId schemaId schema
    obtain ⟨schemas', hb⟩ := b.learn_eq typeId schemaId schema
    rw [ha, hb]
    exact ⟨⟨h.registry.static, h.registry.mapped⟩, h.mapsFields⟩

end TypeService

/-- What a root write tells of the session that it ran. -/
def Session.told : Except Stop Unit × Session → Except Stop Bytes
  | (.ok (), s) => s.tape.written?.elim (.error .outOfRange) .ok
  | (.error e, _) => .error e

/-- The bytes that an encode tells are those that its session leaves on a tape of its own. -/
theorem encode_told (v : Value) (world : World) : (encode v world).1 = Session.told
    (WriteM.writeValue v (world.session (Tape.new .heap world.service.config.initialCapacity) {})) := by
  have hsession : world.session (Tape.new .heap world.service.config.initialCapacity) {} =
      world.session (Scratch.new world.service.config.initialCapacity).reset.tape
        (Scratch.new world.service.config.initialCapacity).reset.fields := rfl
  rw [hsession]
  simp only [encode, encodeWith, RootM.ofSession]
  generalize WriteM.writeValue v _ = run
  obtain ⟨_ | _, s⟩ := run
  · rfl
  · simp only [Session.told]
    cases s.tape.written? <;> rfl

/-- Of sessions that match, the same is told. -/
theorem Session.told_matches {E : Stop → Prop} {P : Pairing} {run run' : Except Stop Unit × Session}
    (h : Matches E (Beside P) run run') :
    (∃ e, told run = .error e ∧ E e) ∨ told run' = told run := by
  obtain ⟨result, s⟩ := run
  obtain ⟨result', s'⟩ := run'
  obtain ⟨e, rfl, he⟩ | ⟨hresult, hs⟩ := h
  · exact .inl ⟨e, rfl, he⟩
  · obtain rfl : result' = result := hresult
    cases result' with
    | error e => exact .inr rfl
    | ok u =>
      simp only [told]
      exact .inr (by rw [hs.tape])

/-- A value of dynamic objects lacks the id of a field in the first world or has the same bytes in the
    second one. -/
theorem encode_matches {g : Graph} {v : Value} {first second : World}
    (hservice : first.service.Includes second.service) (hdynamic : g.Dynamic) (hclosed : g.Closed)
    (hv : g.Has v) (hfirst : g.Extends first.graph) (hsecond : g.Extends second.graph) :
    (∃ e, (encode v first).1 = .error e ∧ e.LacksId) ∨ (encode v second).1 = (encode v first).1 := by
  have hconfig : second.service.config = first.service.config := by
    have hregistry := congrArg Registry.config hservice.registry.static
    exact hregistry
  rw [encode_told, encode_told, hconfig]
  generalize Tape.new .heap first.service.config.initialCapacity = tape
  -- The two encodes side by side: one tape, and services of which the second includes the first.
  let P : Pairing := ⟨g, TypeService.Includes, fun _ _ _ => True⟩
  have hbeside : (first.session tape {}).Beside P (second.session tape {}) :=
    ⟨rfl, hservice, hfirst, hsecond, trivial⟩
  have hmatches : Matches Stop.LacksId (Session.Beside P) (WriteM.writeValue v (first.session tape {}))
      (WriteM.writeValue v (second.session tape {})) :=
    WriteM.mirrors_writeDepth TypeService.mirrored_includes hdynamic hclosed id (.inl rfl) hv hbeside
  exact Session.told_matches hmatches

/-- Where a root write puts its bytes. -/
inductive Target where
  /-- A tape of its own. -/
  | own
  /-- A scratch tape, whose contents are forgotten. -/
  | scratch (scratch : Scratch)
  /-- The cursor of a tape. -/
  | cursor (scratch : Scratch)

/-- A call that writes some value. -/
structure RootCall where
  target : Target
  value : Value
  graph : Graph := {}
  journal : Journal := []

namespace RootCall

/-- What a call leaves of the type service, whether the write succeeds or not. -/
def after (service : TypeService) (c : RootCall) : TypeService :=
  let world : World := ⟨service, c.graph, c.journal⟩
  match c.target with
  | .own => (encode c.value world).2.service
  | .scratch scratch => (encodeWith c.value (world, scratch)).2.1.service
  | .cursor scratch => (encodeInto c.value (world, scratch)).2.1.service

/-- The session that a call runs. -/
def start (service : TypeService) (c : RootCall) : Session :=
  let world : World := ⟨service, c.graph, c.journal⟩
  let scratch : Scratch := match c.target with
    | .own => (Scratch.new service.config.initialCapacity).reset
    | .scratch scratch => scratch.reset
    | .cursor scratch => scratch
  world.session scratch.tape scratch.fields

/-- A root write starts on the service as it is. -/
theorem service_start (service : TypeService) (c : RootCall) : (c.start service).service = service := rfl

/-- A call leaves the type service as the write of the value does. -/
theorem after_eq (service : TypeService) (c : RootCall) :
    c.after service = (WriteM.writeValue c.value (c.start service)).2.service := by
  -- The bytes are taken from the tape at the end, which leaves the service alone.
  have hscratch : ∀ (world : World) (scratch : Scratch),
      (encodeWith c.value (world, scratch)).2.1.service =
        (WriteM.writeValue c.value (world.session scratch.reset.tape scratch.reset.fields)).2.service := by
    intro world scratch
    simp only [encodeWith, RootM.ofSession]
    generalize WriteM.writeValue c.value _ = run
    obtain ⟨_ | _, s⟩ := run
    · rfl
    · simp only
      cases s.tape.written? <;> rfl
  simp only [after, start]
  cases c.target with
  | own => exact hscratch _ _
  | scratch scratch => exact hscratch _ scratch
  | cursor scratch =>
    simp only [encodeInto, RootM.ofSession]
    generalize WriteM.writeValue c.value _ = run
    obtain ⟨_ | _, s⟩ := run <;> rfl

/-- No write takes anything away from its type service. -/
theorem evolves_after (c : RootCall) (service : TypeService) : service.Evolves (c.after service) := by
  have hkeeps : Session.Keeps _ _ := WriteM.keeps_writeValue c.value (c.start service)
  rw [after_eq]
  exact hkeeps.service

end RootCall

/-- A type service after some calls. -/
def TypeService.after (service : TypeService) (calls : List RootCall) : TypeService :=
  calls.foldl RootCall.after service

/-- An encode, whether it succeeds or not, takes nothing from the registry. -/
theorem evolves_encode (v : Value) (world : World) :
    world.service.Evolves (encode v world).2.service :=
  RootCall.evolves_after { target := .own, value := v, graph := world.graph, journal := world.journal }
    world.service

/-- Nor does any number of root writes. -/
theorem TypeService.evolves_after (service : TypeService) (calls : List RootCall) :
    service.Evolves (service.after calls) := by
  induction calls generalizing service with
  | nil => exact .refl service
  | cons c calls ih => exact (c.evolves_after service).trans (ih (c.after service))

/-- The least service that has all field ids of two services. -/
def TypeService.join (a b : TypeService) : TypeService where
  registry := { a.registry with mapped := a.registry.mapped ++ b.registry.mapped }

/-- A value of dynamic objects that was encoded once has the same bytes ever after: whichever values are
    written to whichever tapes in between, with success or without.  The bytes depend on nothing but the
    options, the categories and the registered types.  Over any service that agrees in these the value has
    the same bytes or lacks the id of a field, and the latter only if it has lost one; so it has the
    same bytes over a service that knows other schemas, or that keeps none. -/
theorem encode_stable {world world' : World} {v : Value} {bs : Bytes} (hdynamic : world.graph.Dynamic)
    (hclosed : world.graph.Closed) (hv : world.graph.Has v) (h : (encode v).Yields world bs world') :
    (∀ (calls : List RootCall) (again : World), world.graph.Extends again.graph →
      (encode v { again with service := world'.service.after calls }).1 = .ok bs) ∧
    ∀ again : World, again.service.registry.static = world.service.registry.static →
      world.graph.Extends again.graph →
      ((encode v again).1 = .ok bs ∨ ∃ e, (encode v again).1 = .error e ∧ e.LacksId) ∧
      (world.service.Includes again.service → (encode v again).1 = .ok bs) := by
  have hok : (encode v world).1 = .ok bs := congrArg Prod.fst h
  have hincludes : ∀ again : World, world.service.Includes again.service →
      world.graph.Extends again.graph → (encode v again).1 = .ok bs := by
    intro again hservice hgraph
    obtain ⟨e, he, -⟩ | hsame := encode_matches hservice hdynamic hclosed hv (.refl _) hgraph
    · cases hok.symm.trans he
    · exact hsame.trans hok
  constructor
  · intro calls again hgraph
    have hwrite : world.service.Evolves world'.service := by
      have hevolves := evolves_encode v world
      rwa [show encode v world = _ from h] at hevolves
    have hservice := hwrite.trans (world'.service.evolves_after calls)
    exact hincludes { again with service := world'.service.after calls } hservice.includes hgraph
  · intro again hstatic hgraph
    refine ⟨?_, fun hservice => hincludes again hservice hgraph⟩
    -- Both services are included in a third one.
    have hjoin : world.service.Includes (world.service.join again.service) :=
      ⟨⟨rfl, fun _ => List.mem_append_left _⟩, fun _ => rfl⟩
    have hagain : again.service.Includes (world.service.join again.service) :=
      ⟨⟨hstatic.symm, fun _ => List.mem_append_right _⟩, fun _ => rfl⟩
    have hmatches := @encode_matches world.graph v again
      { again with service := world.service.join again.service } hagain hdynamic hclosed hv hgraph hgraph
    obtain hlacks | hsame := hmatches
    · exact .inr hlacks
    · exact .inl (hsame.symm.trans (hincludes _ hjoin hgraph))

/-- The bytes of the object that refers to itself. -/
def ringBytes : Bytes :=
  [103, 1, 47, 0, 0, 0, 0, 0, 150, 173, 108, 95, 85, 0, 0, 0, 230, 5, 21, 34, 79, 0, 0, 0, 9, 4, 0, 0,
    0, 80, 97, 105, 114, 24, 3, 0, 0, 0, 1, 3, 5, 0, 0, 0, 102, 44, 0, 0, 0, 35, 1, 0, 0, 0, 0, 0, 0, 0,
    9, 5, 0, 0, 0, 83, 104, 97, 112, 101, 102, 68, 0, 0, 0, 102, 73, 0, 0, 0, 7, 33, 73, 78, 0, 0, 0]

/-- A write that runs out of storage, a write of something else, and a write of a part. -/
def ringCalls : List RootCall := [
  { target := .cursor { tape := Tape.new (.limited 40) 0 }, value := .ref 0, graph := ringWorld.graph },
  { target := .scratch (Scratch.new 0), value := .plain (.int 5) },
  { target := .own, value := .ref 1, graph := ringWorld.graph }]

theorem encode_stable_sample :
    (encode (.ref 0)).Yields ringWorld ringBytes (encode (.ref 0) ringWorld).2 ∧
      (encode (.ref 0) { ringWorld with
        service := (encode (.ref 0) ringWorld).2.service.after ringCalls }).1 = .ok ringBytes ∧
      (encode (.ref 0) { ringWorld with service.keepsSchemas := false }).1 = .ok ringBytes := by
  have hclosed : ringWorld.graph.Closed := by decide
  have hv : ringWorld.graph.Has (.ref 0) := by decide
  have hfirst : (encode (.ref 0)).Yields ringWorld ringBytes (encode (.ref 0) ringWorld).2 :=
    yields_of_toOption (by decide +kernel)
  obtain ⟨hafter, hover⟩ := encode_stable ringWorld_dynamic hclosed hv hfirst
  have hagain := hover { ringWorld with service.keepsSchemas := false } rfl (.refl _)
  exact ⟨hfirst, hafter ringCalls ringWorld (.refl _), hagain.2 ⟨⟨rfl, fun _ h => h⟩, id⟩⟩

end ObjectWire
