import ObjectWire.Proofs.ById
import ObjectWire.Proofs.InlineNames
import ObjectWire.Proofs.Trimmed

/-!
# Unregistered types are refused

What the option to refuse types without a registered id comes to for the bytes of a value: if there are any,
every type on the way is registered, and stands by its id; and a write is refused for its types only if one
of them is not registered.
-/

namespace ObjectWire

open ObjectWire.Action

section

variable {world : World} {v : Value}

/-- The write of a value over a world, in view. -/
def World.survey (world : World) (v : Value) : Survey := ⟨world.graph, v, world.service.registry.types⟩

variable (hstrict : world.service.config.failIfUnregistered = true) (hcomplete : world.graph.Complete)
  (hv : world.graph.Has v) (hplain : world.graph.WritesPlainly v)

include hstrict hcomplete hv hplain

/-- A session that starts with no node recorded settles its value. -/
theorem WriteM.ensures_writeValue (tape : Tape) (fields : FieldStack) :
    (writeValue v).Ensures (world.survey v).Blames
      (fun _ s' => (world.survey v).Completes (world.session tape fields) s' ∧
        (world.survey v).Settled s' true v) (world.session tape fields) := by
  have hcovers : (world.survey v).Covers (world.session tape fields) := ⟨hstrict, rfl, .refl _⟩
  have hstart : (world.survey v).graph.Awaits v (world.session tape fields).graph true v :=
    ⟨.start world.graph v, nofun⟩
  -- The number of levels does not matter, only where the write starts.
  have hdepth : ∀ depth, (writeDepth depth v).Ensures (world.survey v).Blames
      (fun _ s' => (world.survey v).Completes (world.session tape fields) s' ∧
        (world.survey v).Settled s' true v) (world.session tape fields) := by
    intro depth
    exact arrives_writeDepth hcomplete hv hplain depth true v _ hcovers hstart
  constructor
  · intro u s' h
    exact (hdepth _).result (writeValue_yields.mp h)
  · intro e s' h
    rw [writeValue] at h
    exact (hdepth _).stops e s' h

/-- If a value has bytes, every type on its way is registered. -/
theorem encode_knows {bs : Bytes} {world' : World} (h : (encode v).Yields world bs world') {name : String}
    (hname : world.graph.Meets v name) : (world.service.registry.types.find? name).isSome = true := by
  obtain ⟨_, h⟩ := encode_yields h
  obtain ⟨s, hwritten, -⟩ := encodeWith_yields h
  obtain ⟨hcompletes, hsettled⟩ :=
    (WriteM.ensures_writeValue hstrict hcomplete hv hplain _ _).result hwritten
  -- No node was recorded at the start, so all that are now were written in full.
  have hclosed : (world.survey v).Closed s := hcompletes.closed fun _ => rfl
  exact hclosed.knows hcompletes.graph hsettled hname

/-- If a value is refused for a type, it is one on its way that is not registered. -/
theorem encode_blames {text : String}
    (h : (encode v world).1 = .error (.error (.unregisteredType text))) :
    ∃ name, world.graph.Meets v name ∧ world.service.registry.types.find? name = none ∧
      text = Excerpt.ofName name := by
  rw [encode_told] at h
  have hstops := (WriteM.ensures_writeValue hstrict hcomplete hv hplain
    (Tape.new .heap world.service.config.initialCapacity) {}).stops
  unfold StopsFor StopsIn at hstops
  generalize WriteM.writeValue v _ = run at h hstops
  obtain ⟨e | u, s⟩ := run
  · obtain rfl : e = _ := Except.error.inj h
    exact hstops _ s rfl text rfl
  · cases hw : s.tape.written? <;> simp [Session.told, hw] at h

/-- If a value has bytes, these are its image, in which no type stands by its name but a type as a value or
    that of a constant without a type id. -/
theorem encode_byId {bs : Bytes} {world' : World} (h : (encode v).Yields world bs world') :
    ∃ w : Wire, w.IsImage world.service.registry.static world.graph.trimmed v ∧ bs = w.bytes ∧ w.ById := by
  -- Over the trimmed graph all objects write themselves by regular calls, as an image needs it.
  have hsame : (encode v { world with graph := world.graph.trimmed }).1 = .ok bs :=
    (encode_trimmed hcomplete hv hplain).trans (congrArg Prod.fst h)
  have hyields : (encode v).Yields { world with graph := world.graph.trimmed } bs _ := Prod.ext hsame rfl
  obtain ⟨w, himage, rfl⟩ := encode_image world.graph.regular_trimmed hyields
  refine ⟨w, himage, rfl, ?_⟩
  refine himage.byId hcomplete.trimmed (Graph.has_trimmed.mpr hv)
    (world.graph.writesPlainly_trimmed v) fun name hname => ?_
  exact encode_knows hstrict hcomplete hv hplain h hname.of_trimmed

end

/-- With the option to refuse types without a registered id, a value that has bytes meets registered types
    only: in objects, those that gave way included, in object arrays, constants, arrays of constants, and
    proxies.  Its bytes are read back to their end, and show a type by its name only as a value of its own, or
    in a constant with the type id of types that have none.  And a value is refused for an unregistered type
    only if it meets that type.  When a name does not resolve, the registry stays as it was.

    The graph may be any that has what it refers to.  Its objects may give way to values, also to new ones
    each time, and then their own programs are of no account; objects that are written in full write
    themselves as dynamic objects do. -/
theorem encode_strict {world : World} {v : Value}
    (hstrict : world.service.config.failIfUnregistered = true) (hcomplete : world.graph.Complete)
    (hv : world.graph.Has v) (hplain : world.graph.WritesPlainly v) :
    (∀ {bs : Bytes} {world' : World}, (encode v).Yields world bs world' →
      (∀ name, world.graph.Meets v name → (world.service.registry.types.find? name).isSome = true) ∧
        ∃ w : Wire, w.IsImage world.service.registry.static world.graph.trimmed v ∧ bs = w.bytes ∧
          (world.service.registry.Announces → Wire.read bs = some (w, bs.length)) ∧ w.ById) ∧
      (∀ {text : String}, (encode v world).1 = .error (.error (.unregisteredType text)) →
        ∃ name, world.graph.Meets v name ∧ world.service.registry.types.find? name = none ∧
          text = Excerpt.ofName name) ∧
      ∀ {r r' : Registry} {name : String} {kind : TypeKind} {failIfUnregistered : Bool} {e : Stop},
        Registry.resolve name kind failIfUnregistered r = (.error e, r') → r' = r := by
  -- The three parts: what the bytes tell, what the failure tells, and that it leaves the registry alone.
  refine ⟨fun h => ⟨fun name hname => ?_, ?_⟩, fun h => ?_, fun h => (Registry.resolve_error h).1⟩
  · exact encode_knows hstrict hcomplete hv hplain h hname
  · obtain ⟨w, himage, rfl, hbyId⟩ := encode_byId hstrict hcomplete hv hplain h
    refine ⟨w, himage, rfl, fun hr => ?_, hbyId⟩
    have hstatic : world.service.registry.static.Announces := hr
    exact (himage.read hstatic).1
  · exact encode_blames hstrict hcomplete hv hplain h

/-- A graph with a type at every place where one can stand. -/
def orderGraph : Graph where
  nodes := #[
    .object (.dynamic {
      typeName := "Order"
      fields := [("link", .ref 1), ("states", .enumArray "State" [some ⟨"Open", 2⟩, none]),
        ("parts", .ref 2), ("view", .ref 3), ("class", .classRef "Other"),
        ("constant", .binaryEnum ⟨0, some "Other", 1⟩)] }),
    .object (.programmed {
      typeName := "Link"
      program := [.attempt (.field "lost" (.enum ⟨"Lost", 1⟩))]
      replacement := some (.fresh (.ref 2) 2 1) }),
    .array "Part" [.ref 0, .enum ⟨"Open", 0⟩],
    .proxy ["Shape"] (.ref 0)]

/-- The calls of a registry that knows all types on the way through the graph. -/
def orderCalls : List Registry.Call :=
  [.register "Order", .register "Link", .register "State", .register "Open", .registerAs "Part" 7 false,
    .register "Shape"]

/-- The graph in a world with such a registry, which refuses types without a registered id. -/
def orderWorld : World where
  service := {
    registry := (Registry.new { failIfUnregistered := true, initialCapacity := 16 }).after orderCalls }
  graph := orderGraph

/-- Its one object that is not plain gives way to an array. -/
theorem writesPlainly_orderGraph : orderGraph.WritesPlainly (.ref 0) := by
  apply Graph.writesPlainly_of_gives_way
  · intro o ho
    simp only [orderGraph, List.mem_cons, List.not_mem_nil, Node.object.injEq, reduceCtorEq, or_false] at ho
    obtain rfl | rfl := ho
    · exact .inl (UserObject.isPlain_dynamic _)
    · exact .inr nofun
  · have hvalue : ∀ n ∈ orderGraph.nodes.toList, ∀ r ∈ n.replacement, r.value = .ref 2 := by
      simp [orderGraph, Node.replacement, UserObject.replacement, Replacement.value]
    intro n hn r hr node o hnode ho
    obtain rfl : 2 = node := Value.ref.inj ((hvalue n hn r hr).symm.trans hnode)
    cases ho

theorem encode_strict_sample : ∃ (w : Wire) (bs : Bytes),
    (encode (.ref 0) orderWorld).1.toOption = some bs ∧ Wire.read bs = some (w, bs.length) ∧ w.ById ∧
      ∀ name, orderGraph.Meets (.ref 0) name →
        (orderWorld.service.registry.types.find? name).isSome = true := by
  have hnew : orderWorld.service.registry.Announces :=
    Registry.announces_after (by simp [orderCalls, unregisteredTypeId])
  obtain ⟨hbytes, -⟩ := @encode_strict orderWorld (.ref 0) rfl (by decide) (by decide)
    writesPlainly_orderGraph
  have hsome : ((encode (.ref 0) orderWorld).1.toOption).isSome = true := by decide +kernel
  obtain ⟨bs, hbs⟩ := Option.isSome_iff_exists.mp hsome
  obtain ⟨hknown, w, -, -, hread, hbyId⟩ := hbytes (yields_of_toOption hbs)
  exact ⟨w, bs, hbs, hread hnew, hbyId, hknown⟩

end ObjectWire
