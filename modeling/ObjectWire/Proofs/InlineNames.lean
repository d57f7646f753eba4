import ObjectWire.Proofs.Histories
import ObjectWire.Proofs.Layout
import ObjectWire.Proofs.NodeParts
import ObjectWire.Proofs.RoundTrip

/-!
# Inline names

A type stands on the wire as an id, with its name behind the id if it is not registered (`TypeMark`).  A
reader tells whether a name follows by the id alone: zero announces a name, any other id stands for
itself.  That rests on no type being registered under zero, which every call on a registry sees to but
the one that takes an id as it is given.
-/

namespace ObjectWire

open ObjectWire.Action Image

/-- A type as it stands on the wire. -/
structure TypeMark where
  typeId : Int32
  /-- What stands behind the id. -/
  name : Option Bytes

namespace TypeMark

/-- The bytes of a type. -/
def bytes (m : TypeMark) : Bytes := Word.bytes m.typeId ++ m.name.elim [] nameBytes

/-- The id tells whether a name follows. -/
def Announced (m : TypeMark) : Prop := m.typeId = unregisteredTypeId ↔ m.name.isSome

end TypeMark

namespace TypeRef

/-- How a type stands on the wire. -/
def mark : TypeRef → TypeMark
  | .id typeId => ⟨typeId, none⟩
  | .name text => ⟨unregisteredTypeId, some text⟩

/-- The mark of a type has its bytes. -/
@[simp] theorem bytes_mark (type : TypeRef) : type.mark.bytes = type.bytes := by
  cases type with
  | id typeId => exact List.append_nil _
  | name text => rfl

/-- A type that fits is announced by its first bytes. -/
theorem Fits.announced {type : TypeRef} (h : type.Fits) : type.mark.Announced := by
  cases type with
  | id typeId => exact ⟨fun hzero => absurd hzero h, fun hname => nomatch hname⟩
  | name text => exact ⟨fun _ => rfl, fun _ => rfl⟩

end TypeRef

/-- The types that a value without others inside names. -/
def Atom.marks : Atom → List TypeMark
  | .enum type _ | .classRef type => [type.mark]
  | .binaryEnum typeId name _ => [⟨typeId, name⟩]
  | _ => []

/-- The types that stand before the values of a list. -/
def ListHead.marks : ListHead → List TypeMark
  | .objectArray type | .enumArray type => [type.mark]
  | .proxy interfaces => interfaces.map TypeRef.mark
  | _ => []

mutual

/-- All types in a tree: those of object headers, of object arrays, of enumerations and arrays of their
    constants, of types as values, and of the interfaces of proxies. -/
def Wire.marks : Wire → List TypeMark
  | .atom a => a.marks
  | .list head items => head.marks ++ Wire.itemMarks items
  | .object _ header name fields _ => ⟨header.typeId, name⟩ :: Wire.fieldMarks fields

/-- The types in the values of a list. -/
def Wire.itemMarks : List Wire → List TypeMark
  | [] => []
  | item :: items => item.marks ++ Wire.itemMarks items

/-- The types in the values of fields. -/
def Wire.fieldMarks : List (FieldAt Wire) → List TypeMark
  | [] => []
  | ⟨_, _, _, value⟩ :: fields => value.marks ++ Wire.fieldMarks fields

end

/-- So are the types of a value that fits. -/
theorem Atom.Fits.announced {a : Atom} {place : Nat} (h : a.Fits place) :
    ∀ mark ∈ a.marks, mark.Announced := by
  cases a with
  | enum type ordinal => exact List.forall_mem_singleton.mpr (TypeRef.Fits.announced h)
  | classRef type => exact List.forall_mem_singleton.mpr (TypeRef.Fits.announced h)
  | binaryEnum typeId name ordinal => exact List.forall_mem_singleton.mpr h.1
  | _ => exact List.forall_mem_nil _

/-- So are the types in the head of a list that fits. -/
theorem ListHead.Fits.announced {head : ListHead} {items : Nat} (h : head.Fits items) :
    ∀ mark ∈ head.marks, mark.Announced := by
  cases head with
  | objectArray type => exact List.forall_mem_singleton.mpr h.1.announced
  | enumArray type => exact List.forall_mem_singleton.mpr h.1.announced
  | proxy interfaces => exact List.forall_mem_map.mpr fun type htype => (h.2.1 type htype).announced
  | _ => exact List.forall_mem_nil _

mutual

/-- In what fits its place, every id tells whether a name follows. -/
theorem Wire.Fits.announced :
    ∀ {w : Wire} {place : Nat}, w.Fits place → ∀ mark ∈ w.marks, mark.Announced
  | .atom _, _, h => Atom.Fits.announced h
  | .list _ _, _, h =>
    List.forall_mem_append.mpr ⟨h.1.announced, Wire.announced_of_itemsFit h.2⟩
  | .object _ _ _ _ _, _, h =>
    List.forall_mem_cons.mpr ⟨h.2.1.unnamed, Wire.announced_of_fieldsFit h.2.2⟩

/-- So are those in items that fit, wherever they stand. -/
theorem Wire.announced_of_itemsFit : ∀ {items : List Wire} {place : Nat},
    Wire.itemsFit place items → ∀ mark ∈ Wire.itemMarks items, mark.Announced
  | [], _, _ => List.forall_mem_nil _
  | _ :: _, _, h =>
    List.forall_mem_append.mpr ⟨h.1.announced, Wire.announced_of_itemsFit h.2⟩

/-- So are those in fields that fit. -/
theorem Wire.announced_of_fieldsFit : ∀ {fields : List (FieldAt Wire)} {start place : Nat},
    Wire.fieldsFit start place fields → ∀ mark ∈ Wire.fieldMarks fields, mark.Announced
  | [], _, _, _ => List.forall_mem_nil _
  | ⟨_, _, _, _⟩ :: _, _, _, h =>
    List.forall_mem_append.mpr ⟨h.2.2.1.announced, Wire.announced_of_fieldsFit h.2.2.2⟩

end

namespace Registry

/-- A registry announces names if no call has given it the reserved id. -/
theorem announces_after {config : Config} {calls : List Call}
    (h : ∀ name userType, .registerAs name unregisteredTypeId userType ∉ calls) :
    ((new config).after calls).Announces :=
  fun name entry hfind hzero => h name entry.userType (registerAs_of_zero hfind hzero)

/-- A registry that announces all names does so after any write. -/
theorem Announces.evolves {r r' : Registry} (h : r.Announces) (hr : r.Evolves r') : r'.Announces := by
  intro name entry hfind
  rw [hr.types] at hfind
  exact h name entry hfind

/-- A type that resolves as registered has the id that it is registered under. -/
theorem find?_of_registered {r r' : Registry} {name : String} {kind : TypeKind}
    {failIfUnregistered : Bool} {resolved : ResolvedType}
    (h : (resolve name kind failIfUnregistered).Yields r resolved r')
    (hregistered : resolved.registered = true) :
    r.types.find? name = some ⟨resolved.typeId, resolved.userType⟩ := by
  obtain ⟨entry, hentry, rfl, -⟩ | ⟨typeId, -, -, -, rfl, -⟩ := resolve_cases h
  · exact hentry
  · cases hregistered

end Registry

namespace WriteM

variable {s s₁ s' : Session}

/-- A type is written with its name exactly if its id is zero. -/
theorem writeTypeRef_announced {name : String} {kind : TypeKind} {failIfUnregistered : Bool}
    (hr : s.service.registry.Announces)
    (h : (writeTypeRef name kind failIfUnregistered).Yields s () s') :
    ∃ mark : TypeMark, mark.Announced ∧ s.tape.Appended s'.tape mark.bytes := by
  obtain ⟨hfits, hlaid⟩ := writeTypeRef_laid h
  have hstatic : s.service.registry.static.Announces := hr
  refine ⟨_, (fits_typeRef hstatic hfits).announced, ?_⟩
  rw [TypeRef.bytes_mark]
  exact hlaid.tape

/-- Whatever its body does, an object that is finished has its header where it was begun and the name
    behind the header; and its header says whether there is a name. -/
theorem writeFramed_announced {typeId : Int32} {inlineName : Option String} {body : ObjectM Unit}
    {userType : Bool} {written : Option WrittenObject}
    (hbody : ∀ {place : Nat}, Within (OpenObject.Grows place) body)
    (hid : inlineName = none → typeId ≠ unregisteredTypeId)
    (h : (writeFramed typeId inlineName body (some userType)).Yields s written s') :
    ∃ (header : Header) (name : Option Bytes) (rest : Bytes),
      TypeMark.Announced ⟨header.typeId, name⟩ ∧
      s'.tape.slice? s.tape.cursor s'.tape.cursor =
        some (header.bytes ++ (name.elim [] nameBytes ++ rest)) := by
  obtain ⟨w, s₁, o, _, s₂, hbegin, hrun, hfinish, rfl⟩ := writeFramed_yields h
  obtain ⟨entries, raw, hadds⟩ : OpenObject.Grows w.dataStart ⟨w, s₁⟩ o := hbody.of_yields hrun
  obtain ⟨hole, hhole, hstart, hdata, -, happended⟩ := begun_appended hbegin hadds
  obtain ⟨-, hlaid, -⟩ :=
    finish_laid happended hhole (hadds.start.trans hstart) (hadds.dataStart.trans hdata) hfinish
  have hslice := hlaid.slice?_between (by simp [Header.bytes])
  rw [List.append_assoc] at hslice
  refine ⟨_, inlineName.map (text s.service.registry.static), _, ?_, hslice⟩
  -- The writer still knows the type that it was begun with.
  obtain ⟨hfresh, -⟩ := ObjectWriter.begin_fresh hbegin
  show (if o.writer.registered then o.writer.typeId else unregisteredTypeId) = unregisteredTypeId ↔ _
  rw [hadds.registered, hadds.typeId, hfresh]
  cases inlineName with
  | none => exact ⟨fun hzero => absurd hzero (hid rfl), fun hname => by cases hname⟩
  | some name => exact ⟨fun _ => rfl, fun _ => rfl⟩

/-- An object whose type is resolved is written as a reference back, or with its name exactly if the id
    in its header is zero. -/
theorem writeResolved_announced {depth : Nat} {node : NodeId} {o : UserObject}
    {resolved : ResolvedType} (hr : s.service.registry.Announces)
    (hresolve : (resolveObject o).Yields s resolved s₁)
    (h : (writeResolved (writeDepth depth) node o resolved).Yields s₁ () s') :
    (∃ first, s₁.handles.find? node = some first) ∨
      ∃ (header : Header) (name : Option Bytes) (rest : Bytes),
        TypeMark.Announced ⟨header.typeId, name⟩ ∧
        s'.tape.slice? s₁.tape.cursor s'.tape.cursor =
          some (header.bytes ++ (name.elim [] nameBytes ++ rest)) := by
  obtain ⟨r, hr', rfl⟩ := resolveObject_yields hresolve
  rw [writeResolved_eq] at h
  refine (writeOnce_yields h).imp_right fun hwhole => ?_
  obtain ⟨written, _, hframed, -, rfl⟩ := (yields_bind ..).mp hwhole.2
  -- A registered type has an id that is not zero, and any other type has its name written behind the header.
  have hid : (if resolved.registered then none else some o.typeName) = none →
      resolved.typeId ≠ unregisteredTypeId := by
    intro hnone
    cases hregistered : resolved.registered with
    | true => exact hr o.typeName _ (Registry.find?_of_registered hr' hregistered)
    | false =>
      rw [hregistered] at hnone
      cases hnone
  have hbody : ∀ {place : Nat}, Within (OpenObject.Grows place) (writeBody (writeDepth depth) node o) :=
    grows_writeBody (keeps_writeDepth depth) node o
  have hannounced := writeFramed_announced hbody hid hframed
  exact hannounced

end WriteM

open WriteM

/-- A type that resolves as registered has the id zero only if a call has registered its name under it as
    it was given.  Without such a call, and whatever was written since, zero announces a name wherever a
    type stands.  The bytes of a value whose objects write themselves by regular calls are read back to
    their end, and every type in them has a name behind its id exactly if the id is zero.  In any session,
    also in the midst of a write and for programs of all kinds, a reference to a type and the header of an
    object are written that way. -/
theorem encode_announced {config : Config} {calls : List Registry.Call} :
    (∀ {name : String} {kind : TypeKind} {failIfUnregistered : Bool} {resolved : ResolvedType}
      {r : Registry},
      (Registry.resolve name kind failIfUnregistered).Yields ((Registry.new config).after calls)
        resolved r →
      resolved.registered = true → resolved.typeId = unregisteredTypeId →
      .registerAs name unregisteredTypeId resolved.userType ∈ calls) ∧
    ((∀ name userType, .registerAs name unregisteredTypeId userType ∉ calls) →
      (∀ {world world' : World} {v : Value} {bs : Bytes},
        ((Registry.new config).after calls).Evolves world.service.registry → world.graph.Regular →
        (encode v).Yields world bs world' →
        ∃ w : Wire, bs = w.bytes ∧ Wire.read bs = some (w, bs.length) ∧
          ∀ mark ∈ w.marks, mark.Announced) ∧
      ∀ {s : Session}, ((Registry.new config).after calls).Evolves s.service.registry →
        (∀ {name : String} {kind : TypeKind} {failIfUnregistered : Bool} {s' : Session},
          (writeTypeRef name kind failIfUnregistered).Yields s () s' →
          ∃ mark : TypeMark, mark.Announced ∧ s.tape.Appended s'.tape mark.bytes) ∧
        ∀ {depth : Nat} {node : NodeId} {o : UserObject} {resolved : ResolvedType} {s₁ s' : Session},
          (resolveObject o).Yields s resolved s₁ →
          (writeResolved (writeDepth depth) node o resolved).Yields s₁ () s' →
          (∃ first, s₁.handles.find? node = some first) ∨
            ∃ (header : Header) (name : Option Bytes) (rest : Bytes),
              TypeMark.Announced ⟨header.typeId, name⟩ ∧
              s'.tape.slice? s₁.tape.cursor s'.tape.cursor =
                some (header.bytes ++ (name.elim [] nameBytes ++ rest))) := by
  constructor
  · intro name kind failIfUnregistered resolved r h hregistered hzero
    exact Registry.registerAs_of_zero (Registry.find?_of_registered h hregistered) hzero
  intro hcalls
  have hnew : ((Registry.new config).after calls).Announces := Registry.announces_after hcalls
  constructor
  · -- The bytes are those of an image that fits its place, and what fits announces its types.
    intro world world' v bs hwrites hregular h
    obtain ⟨w, ⟨depth, st, hw⟩, rfl⟩ := encode_image hregular h
    have hr := hnew.evolves hwrites
    have hstatic : world.service.registry.static.Announces := hr
    have hfits : w.Fits 0 := stands_value hstatic depth v hw
    exact ⟨w, rfl, Wire.read_bytes hfits, hfits.announced⟩
  · intro s hwrites
    have hr := hnew.evolves hwrites
    exact ⟨writeTypeRef_announced hr, writeResolved_announced hr⟩

/-- The calls of a registry that knows the objects of the sample graph, but not the interface of its
    proxy. -/
def pairCalls : List Registry.Call := [.register "Pair", .registerAs "Square" 7 false]

/-- The sample world with such a registry. -/
def pairWorld : World :=
  { sampleWorld with
    service := { registry := (Registry.new { initialCapacity := 16 }).after pairCalls } }

/-- A name that is written inline is announced by the id in front of it. -/
theorem encode_announced_sample : ∃ w : Wire, ∃ bs : Bytes,
    Wire.read bs = some (w, bs.length) ∧ (∀ mark ∈ w.marks, mark.Announced) ∧
    (encode (.ref 0) pairWorld).1.toOption = some bs := by
  have hcalls : ∀ name userType, .registerAs name unregisteredTypeId userType ∉ pairCalls := by
    simp [pairCalls, unregisteredTypeId]
  obtain ⟨-, hzero⟩ := @encode_announced { initialCapacity := 16 } pairCalls
  obtain ⟨hencode, -⟩ := hzero hcalls
  have hsome : ((encode (.ref 0) pairWorld).1.toOption).isSome = true := by decide +kernel
  obtain ⟨bs, hbs⟩ := Option.isSome_iff_exists.mp hsome
  obtain ⟨w, -, hread, hmarks⟩ :=
    hencode (Registry.Evolves.refl _) sampleGraph_regular (yields_of_toOption hbs)
  exact ⟨w, bs, hread, hmarks, hbs⟩

/-- A name that a call has registered under zero resolves to zero, and is then written without its name,
    so that what follows cannot be read. -/
theorem encode_unannounced :
    let r := (Registry.new {}).after [.registerAs "Foo" unregisteredTypeId true]
    (Registry.resolve "Foo" .enum false).Yields r ⟨unregisteredTypeId, true, true⟩ r ∧
      (encode (.enum ⟨"Foo", 7⟩) { service := { registry := r } }).1.toOption =
        some [28, 0, 0, 0, 0, 7, 0, 0, 0] ∧
      Wire.read [28, 0, 0, 0, 0, 7, 0, 0, 0] = none := by
  refine ⟨rfl, by decide +kernel, by decide +kernel⟩

end ObjectWire
