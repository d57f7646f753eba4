import ObjectWire.Proofs.HashCodes
import ObjectWire.Proofs.NameCase
import ObjectWire.Proofs.SoundWrites
import ObjectWire.Proofs.Stability
import ObjectWire.Proofs.WriteInRange

/-!
# Objects with distinct fields

A dynamic object whose values can be written by themselves can be written if the ids of its fields are
distinct, and it is refused for the first field whose id was there before if they are not
(`DynamicObject.encode_distinct`).  That a value can be written by itself shows it to be sound
(`encode_sound`), and a sound value is no reason to stop inside the object either, where part of it is recorded
already.  What was written has one field for each of the object's fields, in their order
(`Wire.ShowsFields`).
-/

namespace ObjectWire

open ObjectWire.Action World

/-- The bytes of an object that is written first: a field for each of these, with the id of its name, and the
    values one behind the other.  A footer without ids is found by the schema id, which all ids make up. -/
def Wire.ShowsFields (w : Wire) (world : World) (id : NodeId) (fields : List (String × Value)) : Prop :=
  ∃ header name compact placed depth st, w = .object 0 header name placed none ∧
    (compact = true → world.service.config.compactFooter = true) ∧
    placed.map (·.id) =
      (DynamicObject.idsOf fields).map (fun id => if compact then none else some id) ∧
    header.schemaId = (if fields.isEmpty then 0
      else (DynamicObject.idsOf fields).foldl SchemaId.push SchemaId.seed) ∧
    Gives (Image.each (Image.value world.service.registry.static depth) (fields.map (·.2)))
      { place := frontLength name, graph := world.graph, log := [.full id 0] }
      (placed.map (·.value)) st

namespace Image

variable {r : Registry} {rec : Value → Sketch Wire} {start : Nat} {d d' : Draft} {st st' : Progress}

/-- The calls for the fields of an object place them one behind the other. -/
theorem gives_fieldCalls {fields : List (String × Value)}
    (h : Gives (calls r rec start d (fields.map fun (name, v) => .field name v)) st d' st') :
    d'.raw = d.raw ∧ d'.schemaId = (DynamicObject.idsOf fields).foldl SchemaId.push d.schemaId ∧
      ∃ placed, d'.fields = d.fields ++ placed ∧ placed.map (·.id) = DynamicObject.idsOf fields ∧
        Gives (each rec (fields.map (·.2))) st (placed.map (·.value)) st' := by
  -- By induction on the fields, whatever the draft has so far.
  induction fields generalizing d st with
  | nil =>
    obtain ⟨rfl, rfl⟩ := (gives_pure ..).mp h
    exact ⟨rfl, rfl, [], (List.append_nil _).symm, rfl, (gives_each_nil ..).mpr ⟨rfl, rfl⟩⟩
  | cons field fields ih =>
    obtain ⟨d₁, st₁, hfield, hrest⟩ := (gives_bind ..).mp h
    obtain ⟨-, -, w, hw, rfl⟩ := gives_field hfield
    obtain ⟨hraw, hschema, placed, hplaced, hids, hvalues⟩ := ih hrest
    refine ⟨hraw, hschema, ⟨NameId.ofName field.1, st.place - start, st₁.place, w⟩ :: placed, ?_, ?_, ?_⟩
    · rw [hplaced, List.append_assoc]
      rfl
    · rw [List.map_cons, hids]
      rfl
    · exact (gives_each_cons ..).mpr ⟨w, _, st₁, hw, hvalues, rfl⟩

end Image

open Image in
/-- The image of an object without a raw section shows its fields. -/
theorem Wire.IsImage.showsFields {world : World} {id : NodeId} {o : DynamicObject} {w : Wire}
    (h : w.IsImage world.service.registry.static world.graph (.ref id))
    (ho : world.graph.node? id = some (.object (.dynamic o))) (hraw : o.raw = none) :
    w.ShowsFields world id o.fields := by
  obtain ⟨_ | depth, st, h⟩ := h
  · exact (gives_failure _ _ _ h).elim
  obtain ⟨n, hn, h⟩ := (gives_ref ..).mp h
  cases hn.symm.trans ho
  -- Without a raw section the calls are those for the fields.
  have hcalls : (UserObject.dynamic o).calls = o.fields.map fun (name, v) => .field name v := by
    rw [UserObject.calls, hraw]
    exact List.append_nil _
  -- Whether the type is registered only matters for what stands in front of the fields.
  have hframe : ∃ typeId name userType, Gives (frame world.service.registry.static
      (value world.service.registry.static depth) typeId name userType (UserObject.dynamic o).calls)
      { place := 0, graph := world.graph, log := [.full id 0] } w st := by
    have h := (gives_tracked_none rfl ..).mp h
    rw [Image.object] at h
    split at h
    · exact ⟨_, _, _, h⟩
    · exact ⟨_, _, _, h⟩
  obtain ⟨typeId, name, userType, hframe⟩ := hframe
  obtain ⟨-, d, st₁, hd, hfinish⟩ := gives_frame hframe
  obtain ⟨compact, hcompact⟩ : ∃ compact, (userType && world.service.config.compactFooter) = compact :=
    ⟨_, rfl⟩
  obtain ⟨-, rfl, rfl⟩ := (gives_finish _ _ _ _ _ _ _ _ _ _ hcompact).mp hfinish
  rw [hcalls] at hd
  obtain ⟨hnone, hschema, placed, hplaced, hids, hvalues⟩ := gives_fieldCalls hd
  obtain rfl : d.fields = placed := hplaced
  rw [Draft.rawBytes?, hnone, Option.map_none]
  refine ⟨_, name, compact, _, depth, st₁, rfl, fun htrue => ?_, ?_, ?_, ?_⟩
  · exact (Bool.and_eq_true_iff.mp (hcompact.trans htrue)).2
  · rw [← hids, List.map_map, List.map_map]
    rfl
  · have hempty : d.fields.isEmpty = o.fields.isEmpty := by
      have hlength : d.fields.length = o.fields.length := by
        simpa [DynamicObject.idsOf] using congrArg List.length hids
      rw [Bool.eq_iff_iff, List.isEmpty_iff_length_eq_zero, List.isEmpty_iff_length_eq_zero, hlength]
    show (if d.fields.isEmpty then 0 else d.schemaId) = _
    rw [hempty, hschema]
  · rw [List.map_map, ← Nat.zero_add (frontLength name)]
    exact hvalues

/-- The session of a root write on a tape of its own. -/
def World.opening (world : World) : Session :=
  world.session (Tape.new .heap world.service.config.initialCapacity) {}

section

variable {world : World} {v : Value}

/-- A world serves the session that a root write opens in it. -/
theorem World.serves_opening (world : World) : WriteM.Serves world world.opening := ⟨.refl _, .refl _⟩

/-- A root write that comes to bytes has written its value to the end. -/
theorem encode_ok {bs : Bytes} (h : (encode v world).1 = .ok bs) :
    ∃ s', (WriteM.writeValue v).Yields world.opening () s' := by
  have hyields : (encode v).Yields world bs (encode v world).2 := Prod.ext h rfl
  obtain ⟨scratch', hwith⟩ := encode_yields hyields
  obtain ⟨s', hwrite, -⟩ := encodeWith_yields hwith
  exact ⟨s', hwrite⟩

/-- A root write that fails does so for a reason of its session, which is none but an error. -/
theorem encode_stops {E : Stop → Prop} {e : Stop} (hdynamic : world.graph.Dynamic)
    (hclosed : world.graph.Closed) (hv : world.graph.Has v) (hstops : (WriteM.writeValue v).StopsIn
      (fun e s' => e.RunsOver s'.growth ∨ E e) world.opening) (h : (encode v world).1 = .error e) :
    e.IsOverrun ∨ E e := by
  have hwith : (encodeWith v (world, Scratch.new world.service.config.initialCapacity)).1 = .error e := h
  obtain ⟨cause, rfl, -⟩ := RootM.ends_encodeWith hdynamic hclosed hv e hwith
  have hrun := encodeWith_error hwith
  obtain hover | he := hstops _ (WriteM.writeValue v world.opening).2 (Prod.ext hrun rfl)
  · -- The tape still doubles.
    have hkeeps : world.opening.Keeps (WriteM.writeValue v world.opening).2 :=
      WriteM.keeps_writeValue v world.opening
    have hgrowth : (WriteM.writeValue v world.opening).2.growth = .heap := hkeeps.tape.growth
    rw [hgrowth] at hover
    exact .inl ((hover trivial).resolve_right id)
  · exact .inr he

variable (hcovered : world.service.registry.Covered) (hmaps : world.service.mapsFields = true)
  (hids : ∀ typeId field, ¬ world.LacksFieldId typeId field) (hclosed : world.graph.Closed)
  (hdynamic : world.graph.Dynamic)

include hcovered hmaps hids hclosed hdynamic

/-- A value that can be written by itself is sound. -/
theorem encode_sound {bs : Bytes} (hv : world.graph.Has v) (h : (encode v world).1 = .ok bs) :
    world.Sound v := by
  obtain ⟨s', hwrite⟩ := encode_ok h
  have hchecks := WriteM.checks_writeDepth hcovered hmaps hids hclosed hdynamic
    (WriteM.depthOn world.opening.tape) v hv
  have hensures := Checks.one_iff.mp hchecks world.opening world.serves_opening
  obtain ⟨hcompletes, hsettled⟩ := hensures.result (writeValue_yields.mp hwrite)
  exact hcompletes.sound (fun _ => rfl) hdynamic hsettled

/-- A root write of a dynamic object ends as the write of the object does. -/
theorem WriteM.ensures_writeRoot {node : NodeId} {d : DynamicObject} {s : Session}
    (hd : world.graph.node? node = some (.object (.dynamic d))) (hs : Serves world s) :
    (writeValue (.ref node)).EnsuresIn
      (fun e s' => e.RunsOver s'.growth ∨ ¬ world.Resolves world.strict d.typeName ∨
        DynamicObject.Repeats [] d.fields e ∨ ∃ v ∈ d.fields.map (·.2), ¬ world.Sound v)
      (fun _ s' => world.Completes s s' ∧ world.Settled s' (.ref node)) s := by
  obtain ⟨depth, hdepth⟩ : ∃ depth, depthOn s.tape = depth + 1 := ⟨_, rfl⟩
  have hrun : (writeValue (.ref node)).run s =
      (writeNode (writeDepth depth) node (.object (.dynamic d))).run s := by
    rw [← run_writeDepth_ref hs hd, ← hdepth, Action.run, Action.run, writeValue]
  exact .of_run hrun (ensures_writeDynamic
    (checks_writeDepth hcovered hmaps hids hclosed hdynamic depth) (keeps_writeDepth depth) hcovered hmaps
    hids hclosed hs hd)

end

namespace DynamicObject

/-- Setting a field gives the first field of its name another value where it stands, and adds a field at the
    end if there is none of its name.  So an object that was only ever set fields of has one field of each
    name, in the order in which the names came first, with the value that was set last.

    An object put together by changes, of a type that resolves, with values that can all be written by
    themselves, can be written if and only if the ids of its fields are distinct, and its bytes then show the
    fields in their order.  If the ids are not distinct, and they are not for two names that differ only in
    the case of ASCII letters, the object is refused for the first field whose id was there before.  The one
    other way to end is that more is asked for than lengths on the wire can tell. -/
theorem encode_distinct {config : Config} {calls : List Registry.Call} {world : World} {id : NodeId}
    {typeName : String} {changes : List Change} {resolved : ResolvedType} {r : Registry}
    (hregistry : ((Registry.new config).after calls).Evolves world.service.registry)
    (hmaps : world.service.mapsFields = true)
    (hids : ∀ typeId field, ¬ world.LacksFieldId typeId field) (hdynamic : world.graph.Dynamic)
    (hclosed : world.graph.Closed)
    (ho : world.graph.node? id = some (.object (.dynamic (built typeName changes))))
    (hresolve : (Registry.resolve typeName .object world.service.config.failIfUnregistered).Yields
      world.service.registry resolved r)
    (hvalues : ∀ field ∈ (built typeName changes).fields, ∃ bs, (encode field.2 world).1 = .ok bs) :
    let o := built typeName changes
    let result := (encode (.ref id) world).1
    let Overruns := ∃ e, result = .error e ∧ e.IsOverrun
    ((∀ (o : DynamicObject) before name old value behind, o.fields = before ++ (name, old) :: behind →
        name ∉ before.map (·.1) →
        (o.setField name value).fields = before ++ (name, value) :: behind) ∧
      (∀ (o : DynamicObject) name value, name ∉ o.names →
        (o.setField name value).fields = o.fields ++ [(name, value)]) ∧
      ∀ sets : List (String × Value), (setAll typeName sets).names = (sets.map (·.1)).eraseDups ∧
        ∀ name, (setAll typeName sets).fields.lookup name = sets.reverse.lookup name) ∧
    ((∃ bs, result = .ok bs) → o.fieldIds.Nodup) ∧
    (o.fieldIds.Nodup → Overruns ∨ ∃ w : Wire, result = .ok w.bytes ∧
      w.IsImage world.service.registry.static world.graph (.ref id) ∧ w.ShowsFields world id o.fields) ∧
    (¬ o.fieldIds.Nodup → ∃ before name v behind, o.fields = before ++ (name, v) :: behind ∧
      (idsOf before).Nodup ∧ NameId.ofName name ∈ idsOf before ∧
      (Overruns ∨ result = .error (.error (.duplicateField (NameId.ofName name))))) ∧
    ∀ before name v between name' v' behind,
      o.fields = before ++ (name, v) :: between ++ (name', v') :: behind →
      name.toList.map Char.toLower = name'.toList.map Char.toLower → ¬ o.fieldIds.Nodup := by
  intro o result Overruns
  have hcovered : world.service.registry.Covered :=
    ((Registry.Covered.new config).after calls).evolves hregistry
  have hv : world.graph.Has (.ref id) := (Array.getElem?_eq_some_iff.mp ho).1
  obtain ⟨htypeName, hraw⟩ := parts_built typeName changes
  have htype : world.Resolves world.strict o.typeName := by
    rw [htypeName]
    exact Registry.resolve_yields hresolve
  -- Every value was written by itself, so none is a reason to stop inside the object.
  have hsound : ∀ v ∈ o.fields.map (·.2), world.Sound v := by
    intro v hmem
    obtain ⟨field, hfield, rfl⟩ := List.mem_map.mp hmem
    obtain ⟨bs, hbs⟩ := hvalues field hfield
    exact encode_sound hcovered hmaps hids hclosed hdynamic (hclosed.values ho _ hmem) hbs
  have hwrite := WriteM.ensures_writeRoot hcovered hmaps hids hclosed hdynamic ho world.serves_opening
  have hstops : ∀ e, result = .error e → e.IsOverrun ∨ Repeats [] o.fields e := by
    intro e he
    obtain hover | htypeless | hrepeats | ⟨v, hmem, hflaw⟩ :=
      encode_stops hdynamic hclosed hv hwrite.stops he
    · exact .inl hover
    · exact absurd htype htypeless
    · exact .inr hrepeats
    · exact absurd (hsound v hmem) hflaw
  -- A write that ends well began with nothing recorded, so the object itself is sound.
  have hdistinct : (∃ bs, result = .ok bs) → o.fieldIds.Nodup := by
    rintro ⟨bs, hbs⟩
    obtain ⟨s', hyields⟩ := encode_ok hbs
    obtain ⟨hcompletes, hsettled⟩ := hwrite.result hyields
    obtain ⟨n, hn, hadmits⟩ := (hcompletes.sound (fun _ => rfl) hdynamic hsettled).admits
    cases ho.symm.trans hn
    exact hadmits.fields o rfl
  refine ⟨⟨?_, ?_, fun sets => ⟨names_setAll typeName sets, lookup_setAll typeName sets⟩⟩,
    hdistinct, ?_, ?_, ?_⟩
  · intro o before name old value behind hfields hnew
    exact (congrArg (setIn name value) hfields).trans (setIn_append hnew)
  · intro o name value hnew
    exact setIn_of_not_mem hnew
  · intro hnodup
    cases hresult : result with
    | error e =>
      obtain hover | ⟨before, name, v, behind, hfields, -, hmem, -⟩ := hstops e hresult
      · exact .inl ⟨e, hresult, hover⟩
      · rw [fieldIds, hfields] at hnodup
        exact absurd hnodup (not_nodup_of_repeat hmem)
    | ok bs =>
      have hyields : (encode (.ref id)).Yields world bs (encode (.ref id) world).2 := Prod.ext hresult rfl
      obtain ⟨w, himage, rfl⟩ := encode_image hdynamic.regular hyields
      exact .inr ⟨w, rfl, himage, himage.showsFields ho hraw⟩
  · intro hrepeats
    cases hresult : result with
    | error e =>
      obtain hover | ⟨before, name, v, behind, hfields, hfirst, hmem, rfl⟩ := hstops e hresult
      · -- The write ran over before it came to the field.
        obtain ⟨before, name, v, behind, hfields, hfirst, hmem⟩ := exists_repeat hrepeats
        exact ⟨before, name, v, behind, hfields, hfirst, hmem, .inl ⟨e, hresult, hover⟩⟩
      · exact ⟨before, name, v, behind, hfields, hfirst, hmem, .inr rfl⟩
    | ok bs => exact absurd (hdistinct ⟨bs, hresult⟩) hrepeats
  · intro before name v between name' v' behind hfields hcase
    rw [fieldIds, hfields]
    refine not_nodup_of_repeat ?_
    rw [← NameId.ofName_congr hcase, idsOf_append]
    exact List.mem_append_right _ (List.mem_cons_self ..)

/-- Changes that leave an object with two fields, where one is set over. -/
def pairChanges : List Change := [.setField "a" .null, .withField "b" (.ref 2), .setField "a" (.plain (.int 1))]

/-- Changes that leave an object with two spellings of a name. -/
def twinChanges : List Change := [.setField "a" (.plain (.int 1)), .setField "A" (.ref 2)]

/-- A world with these two objects and a third one that both hold. -/
def spelledWorld : World where
  service := { registry := Registry.new { initialCapacity := 16 } }
  graph := { nodes := #[
    .object (.dynamic (built "Pair" pairChanges)),
    .object (.dynamic (built "Pair" twinChanges)),
    .object (.dynamic { typeName := "Leaf", fields := [("c", .ref 2)] })] }

/-- The sample world has no objects with programs of their own. -/
theorem spelledWorld_dynamic : spelledWorld.graph.Dynamic := by decide

/-- No object of the world is of the predefined type. -/
theorem spelledWorld_lacks (typeId : Int32) (field : String) : ¬ spelledWorld.LacksFieldId typeId field := by
  rintro ⟨-, -, id, d, hd, hname, -⟩
  have hmem : Node.object (.dynamic d) ∈ spelledWorld.graph.nodes := Array.mem_of_getElem? hd
  simp only [spelledWorld, List.mem_toArray, List.mem_cons, List.not_mem_nil, Node.object.injEq,
    UserObject.dynamic.injEq, or_false] at hmem
  obtain rfl | rfl | rfl := hmem
  · exact absurd hname (by decide)
  · exact absurd hname (by decide)
  · exact absurd hname (by decide)

/-- Two spellings of one name are one field, and the object that has both is refused. -/
theorem encode_distinct_sample :
    (∃ w : Wire, (encode (.ref 0) spelledWorld).1 = .ok w.bytes ∧
      w.ShowsFields spelledWorld 0 [("a", .plain (.int 1)), ("b", .ref 2)]) ∧
    ∃ before name v behind,
      [("a", .plain (.int 1)), ("A", .ref 2)] = before ++ (name, v) :: behind ∧
      NameId.ofName name ∈ idsOf before ∧
      (encode (.ref 1) spelledWorld).1 = .error (.error (.duplicateField (NameId.ofName name))) := by
  have hwritten : ∀ {v : Value}, (encode v spelledWorld).1.toOption.isSome = true →
      ∃ bs, (encode v spelledWorld).1 = .ok bs := by
    intro v h
    cases hresult : (encode v spelledWorld).1 with
    | ok bs => exact ⟨bs, rfl⟩
    | error e =>
      rw [hresult] at h
      cases h
  have hclosed : spelledWorld.graph.Closed := by decide
  constructor
  · have hvalues : ∀ field ∈ (built "Pair" pairChanges).fields,
        (encode field.2 spelledWorld).1.toOption.isSome = true := by decide +kernel
    obtain ⟨-, -, hsuccess, -⟩ := @encode_distinct { initialCapacity := 16 } [] spelledWorld 0 "Pair"
      pairChanges _ _ (.refl _) rfl spelledWorld_lacks spelledWorld_dynamic hclosed rfl rfl
      fun field hfield => hwritten (hvalues field hfield)
    obtain ⟨e, he, -⟩ | ⟨w, hw, -, hshows⟩ := hsuccess (by decide +kernel)
    · have hsome : (encode (.ref 0) spelledWorld).1.toOption.isSome = true := by decide +kernel
      rw [he] at hsome
      cases hsome
    · exact ⟨w, hw, hshows⟩
  · have hvalues : ∀ field ∈ (built "Pair" twinChanges).fields,
        (encode field.2 spelledWorld).1.toOption.isSome = true := by decide +kernel
    obtain ⟨-, -, -, hrefused, -⟩ := @encode_distinct { initialCapacity := 16 } [] spelledWorld 1 "Pair"
      twinChanges _ _ (.refl _) rfl spelledWorld_lacks spelledWorld_dynamic hclosed rfl rfl
      fun field hfield => hwritten (hvalues field hfield)
    obtain ⟨before, name, v, behind, hfields, -, hmem, hresult⟩ := hrefused (by decide +kernel)
    refine ⟨before, name, v, behind, hfields, hmem, hresult.resolve_left ?_⟩
    -- It could also have run out of room, but it did not: the error says that a field repeats.
    rintro ⟨e, he, hover⟩
    have hrepeat : (encode (.ref 1) spelledWorld).1 = .error (.error (.duplicateField 97)) := by
      decide +kernel
    cases he.symm.trans hrepeat
    obtain ⟨n, -, ⟨what, hlength⟩ | hcapacity⟩ := hover
    · cases hlength
    · cases hcapacity

/-- Changes that leave an object with two values. -/
def outerChanges : List Change := [.withField "v" (.ref 1), .withField "n" (.ref 2)]

/-- A world where the fields of the predefined type get ids from a name whose id is derived, but only once
    that name has resolved. -/
def lateWorld : World where
  service := { registry := Registry.new { initialCapacity := 16 } }
  graph := { nodes := #[
    .object (.dynamic (built "Outer" outerChanges)),
    .object (.dynamic (built "Inner" [.withField "o" (.ref 0), .withField "q" (.ref 3)])),
    .object (.dynamic (built "Note371347857" [])),
    .object (.dynamic (built "Object" [.withField "x" (.plain (.int 1))]))] }

/-- A value that holds the object around it may be written by itself and still lack the id of a field inside
    the object: by itself it comes to the object first, and so to the name that brings the ids. -/
theorem encode_distinct_late :
    let o := built "Outer" outerChanges
    let r := lateWorld.service.registry.addMapped (NameId.ofName "Outer")
    lateWorld.graph.node? 0 = some (.object (.dynamic o)) ∧
      (Registry.resolve "Outer" .object false).Yields lateWorld.service.registry
        ⟨NameId.ofName "Outer", false, true⟩ r ∧
      (∀ field ∈ o.fields,
        r.fieldId? (NameId.ofName "Outer") field.1 = some (NameId.ofName field.1)) ∧
      (∀ field ∈ o.fields, (encode field.2 lateWorld).1.toOption.isSome = true) ∧
      o.fieldIds.Nodup ∧
      (encode (.ref 0) lateWorld).1 = .error (.error (.unresolvedField (-1) "x")) := by
  -- The resolution and the fields are looked up, and then each value alone and the object are encoded.
  refine ⟨rfl, rfl, ?_, ?_, ?_, ?_⟩
  · decide +kernel
  · decide +kernel
  · decide +kernel
  · decide +kernel

/-- A world with an object that takes a refusal of its field for no failure. -/
def tolerantWorld : World where
  service := { registry := Registry.new { initialCapacity := 16 } }
  graph := { nodes := #[
    .object (.dynamic (built "Outer" outerChanges)),
    .object (.programmed { typeName := "Keen", program := [.field "o" (.ref 0), .field "j" (.ref 3)] }),
    .object (.programmed { typeName := "Calm", program := [.attempt (.field "x" (.ref 3))] }),
    .object (.dynamic (built "Twin" [.withField "a" .null, .withField "A" .null]))] }

/-- Where an object goes on after a failure, what failed is recorded as if it had been written.  By itself a
    value may come to it after that, and in the object before. -/
theorem encode_distinct_tolerant :
    let o := built "Outer" outerChanges
    tolerantWorld.graph.node? 0 = some (.object (.dynamic o)) ∧
      (∀ field ∈ o.fields, (encode field.2 tolerantWorld).1.toOption.isSome = true) ∧
      o.fieldIds.Nodup ∧
      (encode (.ref 0) tolerantWorld).1 = .error (.error (.duplicateField 97)) := by
  refine ⟨rfl, ?_, ?_, ?_⟩
  · decide +kernel
  · decide +kernel
  · decide +kernel

end DynamicObject

end ObjectWire
