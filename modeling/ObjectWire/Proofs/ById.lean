import ObjectWire.Proofs.ImageSpan
import ObjectWire.Proofs.Visits

/-!
# Images without names

If every type that a write meets is registered, the image has no type by its name, but for types as values
and for constants whose type has no id (`Wire.ById`).  `Image.unnamed_value` says so of a value at any place
of the write; what stands inside a value is due there if the value is (`Graph.Awaits`).
-/

namespace ObjectWire

/-- The type stands by its id. -/
def TypeRef.ById : TypeRef → Prop
  | .id _ => True
  | .name _ => False

/-- No type stands by its name, apart from a type as a value and that of a constant whose type id is the
    one of all types without an id. -/
def Atom.ById : Atom → Prop
  | .enum type _ => type.ById
  | .binaryEnum typeId name _ => name.isSome → typeId = unregisteredTypeId
  | _ => True

/-- The types before the values of a list stand by their ids. -/
def ListHead.ById : ListHead → Prop
  | .objectArray type | .enumArray type => type.ById
  | .proxy interfaces => ∀ type ∈ interfaces, type.ById
  | _ => True

mutual

/-- In the whole tree no type stands by its name, apart from types as values and those of constants whose
    type id is the one of all types without an id. -/
def Wire.ById : Wire → Prop
  | .atom a => a.ById
  | .list head items => head.ById ∧ Wire.itemsById items
  | .object _ _ name fields _ => name = none ∧ Wire.fieldsById fields

/-- No type stands by its name in the values of a list. -/
def Wire.itemsById : List Wire → Prop
  | [] => True
  | item :: items => item.ById ∧ Wire.itemsById items

/-- No type stands by its name in the values of fields. -/
def Wire.fieldsById : List (FieldAt Wire) → Prop
  | [] => True
  | ⟨_, _, _, value⟩ :: fields => value.ById ∧ Wire.fieldsById fields

end

/-- A list has no names if none of its items has one. -/
theorem Wire.itemsById_iff (items : List Wire) :
    Wire.itemsById items ↔ ∀ item ∈ items, item.ById := by
  induction items with
  | nil => simp [Wire.itemsById]
  | cons item items ih => simp [Wire.itemsById, ih]

/-- Fields have no names if none of their values has one. -/
theorem Wire.fieldsById_iff (fields : List (FieldAt Wire)) :
    Wire.fieldsById fields ↔ ∀ f ∈ fields, f.value.ById := by
  induction fields with
  | nil => simp [Wire.fieldsById]
  | cons f fields ih => simp [Wire.fieldsById, ih]

namespace Image

/-- What `x` gives from here on has no names, and the graph is only added to. -/
def Unnamed (x : Sketch Wire) (st : Progress) : Prop :=
  ∀ ⦃w st'⦄, Gives x st w st' → w.ById ∧ st.graph.Extends st'.graph

variable {g : Graph} {st st' : Progress}

/-- What has no image has no name in it. -/
theorem unnamed_failure : Unnamed failure st := fun _ _ h => (gives_failure _ _ _ h).elim

/-- A constant with a type id of its own never has its name behind it. -/
theorem unnamed_atom {a : Atom} (h : ∀ type ∈ a.type?, a.tag = .enum → type.ById) :
    Unnamed (atom a) st := by
  intro w st' hw
  obtain ⟨hfits, rfl, rfl⟩ := (gives_atom ..).mp hw
  refine ⟨?_, .refl _⟩
  cases a with
  | enum type ordinal => exact h type rfl rfl
  | binaryEnum typeId name ordinal =>
    -- A name fits behind the one id that announces it, and behind no other.
    intro hname
    simp only [fitsAtom, hname, Bool.and_eq_true, beq_true, beq_iff_eq] at hfits
    exact hfits.1
  | _ => trivial

section

variable {α : Type} {item : α → Sketch Wire} {items : List α}

/-- Several images have no names if each of them has none, whatever nodes were added before it. -/
theorem unnamed_each {ws : List Wire}
    (h : ∀ a ∈ items, ∀ {st₁ : Progress}, st.graph.Extends st₁.graph → Unnamed (item a) st₁)
    (hws : Gives (each item items) st ws st') : (∀ w ∈ ws, w.ById) ∧ st.graph.Extends st'.graph := by
  induction items generalizing st ws with
  | nil =>
    obtain ⟨rfl, rfl⟩ := (gives_each_nil ..).mp hws
    exact ⟨nofun, .refl _⟩
  | cons a items ih =>
    obtain ⟨w, ws, st₁, hw, hrest, rfl⟩ := (gives_each_cons ..).mp hws
    obtain ⟨ha, hitems⟩ := List.forall_mem_cons.mp h
    obtain ⟨hbyId, hext₁⟩ := ha (.refl _) hw
    obtain ⟨hbyIds, hext'⟩ := ih (fun b hb _ hext => hitems b hb (hext₁.trans hext)) hrest
    exact ⟨List.forall_mem_cons.mpr ⟨hbyId, hbyIds⟩, hext₁.trans hext'⟩

/-- A list has no names if neither its head nor its items have one. -/
theorem unnamed_list {head : ListHead} (hhead : head.ById)
    (h : ∀ a ∈ items, ∀ {st₁ : Progress}, st.graph.Extends st₁.graph → Unnamed (item a) st₁) :
    Unnamed (list item head items) st := by
  intro w st' hw
  obtain ⟨-, ws, rfl, hws⟩ := (gives_list ..).mp hw
  obtain ⟨hitems, hext⟩ := unnamed_each (by exact h) hws
  exact ⟨⟨hhead, (Wire.itemsById_iff ws).mpr hitems⟩, hext⟩

end

/-- A plain value names no type. -/
theorem unnamed_plain (r : Registry) (v : Plain) : Unnamed (plain r v) st := by
  have hatom : ∀ {a : Atom} {st₁ : Progress}, a.type? = none → Unnamed (atom a) st₁ := by
    intro a _ hnone
    refine unnamed_atom fun type htype _ => ?_
    cases hnone.symm.trans htype
  apply plain_of_atoms (P := (Unnamed · st)) unnamed_failure
  · exact fun a htype _ => hatom htype
  · exact fun htype _ => unnamed_list trivial fun x _ _ _ => hatom (htype x)

/-- A reference back to a node has no names. -/
theorem unnamed_tracked {node : NodeId} {x : Sketch Wire}
    (h : ∀ {st₁ : Progress}, st.graph.Extends st₁.graph → Unnamed x st₁) :
    Unnamed (tracked node x) st := by
  intro w st' hw
  cases hplace : placeOf node st.log with
  | none =>
    have hx : Unnamed x { st with log := .full node st.place :: st.log } := h (.refl _)
    exact hx ((gives_tracked_none hplace ..).mp hw)
  | some target =>
    have hback : Unnamed (atom (.handle st.place target))
        { st with log := .back node st.place target :: st.log } := unnamed_atom nofun
    exact hback ((gives_tracked_some hplace ..).mp hw)

/-- A type that is registered is told by its id. -/
theorem typeRef_byId {r : Registry} {name : String} (h : (r.types.find? name).isSome = true) :
    (typeRef r name).ById := by
  obtain ⟨entry, hentry⟩ := Option.isSome_iff_exists.mp h
  simp only [typeRef, hentry]
  trivial

section

variable {r : Registry} {root : Value} {rec : Value → Sketch Wire}
  (hrec : ∀ {asked v st}, g.Extends st.graph → g.Awaits root st.graph asked v → Unnamed (rec v) st)
  (hext : g.Extends st.graph)

include hrec hext

/-- A plain call adds a field, or bytes to the raw section. -/
theorem unnamed_call {start : Nat} {op : ObjectOp} {d d' : Draft} (hop : op.isPlain = true)
    (hdue : ∀ v ∈ op.value?, g.Due root st.graph true v) (hd : ∀ f ∈ d.fields, f.value.ById)
    (h : Gives (call r rec start d op) st d' st') :
    (∀ f ∈ d'.fields, f.value.ById) ∧ st.graph.Extends st'.graph := by
  cases op with
  | field name v =>
    obtain ⟨-, -, w, hw, rfl⟩ := gives_field h
    obtain ⟨hbyId, hext'⟩ := hrec hext ⟨hdue v rfl, nofun⟩ hw
    exact ⟨List.forall_mem_append.mpr ⟨hd, List.forall_mem_singleton.mpr hbyId⟩, hext'⟩
  | raw ops =>
    obtain ⟨bs, rfl⟩ := ObjectOp.isPlain_raw hop
    obtain ⟨made, hmade, rfl⟩ := gives_raw.mp h
    simp only [rawCalls, rawCall, gives_bind, gives_loose, gives_pure] at hmade
    obtain ⟨_, _, ⟨-, rfl⟩, -, rfl⟩ := hmade
    exact ⟨hd, .refl _⟩
  | _ => cases hop

/-- Plain calls one after the other add fields without names. -/
theorem unnamed_calls {start : Nat} {ops : List ObjectOp} {d d' : Draft}
    (hops : ∀ op ∈ ops, op.isPlain = true)
    (hdue : ∀ v ∈ ops.filterMap ObjectOp.value?, g.Due root st.graph true v)
    (hd : ∀ f ∈ d.fields, f.value.ById) (h : Gives (calls r rec start d ops) st d' st') :
    (∀ f ∈ d'.fields, f.value.ById) ∧ st.graph.Extends st'.graph := by
  -- The graph may grow at each call, and what was due before is due in the larger graph too.
  induction ops generalizing d st with
  | nil =>
    obtain ⟨rfl, rfl⟩ := (gives_pure ..).mp h
    exact ⟨hd, .refl _⟩
  | cons op ops ih =>
    obtain ⟨d₁, st₁, hop, hrest⟩ := (gives_bind ..).mp h
    obtain ⟨hplain, hplains⟩ := List.forall_mem_cons.mp hops
    rw [ObjectOp.values_cons] at hdue
    obtain ⟨hdueOp, hdueOps⟩ := List.forall_mem_append.mp hdue
    obtain ⟨hd₁, hext₁⟩ :=
      unnamed_call hrec hext hplain (fun v hv => hdueOp v (Option.mem_toList.mpr hv)) hd hop
    obtain ⟨hd', hext'⟩ :=
      ih (hext.trans hext₁) hplains (fun v hv => (hdueOps v hv).mono hext₁) hd₁ hrest
    exact ⟨hd', hext₁.trans hext'⟩

/-- An object whose type is registered has no name behind its header. -/
theorem unnamed_object {o : UserObject} (hknown : (r.types.find? o.typeName).isSome = true)
    (ho : o.IsPlain) (hdue : ∀ v ∈ o.contents, g.Due root st.graph true v) :
    Unnamed (object r rec o) st := by
  intro w st' hw
  obtain ⟨entry, hentry⟩ := Option.isSome_iff_exists.mp hknown
  simp only [object, hentry] at hw
  obtain ⟨-, d, st₁, hcalls, hfinish⟩ := gives_frame hw
  have hempty : ∀ f ∈ ({} : Draft).fields, f.value.ById := List.forall_mem_nil _
  obtain ⟨hfields, hext'⟩ := unnamed_calls hrec (by exact hext) ho (by exact hdue) hempty hcalls
  obtain ⟨-, rfl, rfl⟩ := (gives_finish r _ _ _ _ _ _ _ _ _ rfl).mp hfinish
  refine ⟨⟨rfl, (Wire.fieldsById_iff _).mpr ?_⟩, hext'⟩
  exact List.forall_mem_map.mpr hfields

variable (hcomplete : g.Complete) (hroot : g.Has root) (hplain : g.WritesPlainly root)
  (hknown : ∀ name, g.Meets root name → (r.types.find? name).isSome = true)

include hcomplete hroot hplain hknown

/-- An object that does not give way. -/
theorem unnamed_stays {asked : Bool} {id : NodeId} {o : UserObject}
    (hdue : g.Due root st.graph asked (.ref id)) (ho : st.graph.node? id = some (.object o))
    (hstays : asked = true → o.replacement = none) : Unnamed (tracked id (object r rec o)) st := by
  have hmet : ∀ name ∈ [o.typeName], g.Meets root name := hdue.names hcomplete hroot hext ho
  have hrun : o.IsPlain := hdue.isPlain hcomplete hroot hext ho hplain rfl hstays
  have hcontents := hdue.inside hcomplete hroot hext ho hstays
  refine unnamed_tracked fun hext' => ?_
  exact unnamed_object hrec (hext.trans hext') (hknown o.typeName (hmet _ (List.mem_singleton_self _)))
    hrun fun v hv => (hcontents v hv).mono hext'

/-- What takes the place of an object has no names if the names that it meets are registered. -/
theorem unnamed_substitute {v : Value} (hdue : g.Due root st.graph false v) :
    Unnamed (substitute r rec v) st := by
  intro w st' hw
  obtain ⟨other, o, rfl, ho, hw⟩ | ⟨hnone, hw⟩ := (gives_substitute ..).mp hw
  · exact unnamed_stays hrec hext hcomplete hroot hplain hknown hdue (Graph.object?_eq_some ho) nofun hw
  · refine hrec hext ⟨hdue, fun _ node o hnode ho => ?_⟩ hw
    cases (hnone node hnode).symm.trans (Graph.object?_of_node? ho)

/-- An object has no names whether it gives way or not. -/
theorem unnamed_objectNode {id : NodeId} {o : UserObject} (hdue : g.Due root st.graph true (.ref id))
    (ho : st.graph.node? id = some (.object o)) : Unnamed (objectNode r rec id o) st := by
  intro w st' hw
  cases hreplacement : o.replacement with
  | none =>
    rw [objectNode, hreplacement] at hw
    exact unnamed_stays hrec hext hcomplete hroot hplain hknown hdue ho (fun _ => hreplacement) hw
  | some replacement =>
    have hbrought := st.graph.extends_instantiate replacement
    obtain ⟨-, hvalue⟩ := hdue.replaced hcomplete hroot hext ho hreplacement
    obtain ⟨hbyId, hext'⟩ := unnamed_substitute hrec (by exact hext.trans hbrought) hcomplete hroot hplain
      hknown hvalue ((gives_replaced _ _ hreplacement).mp hw)
    exact ⟨hbyId, hbrought.trans hext'⟩

/-- A node has no names if those that it meets are registered. -/
theorem unnamed_node {asked : Bool} {id : NodeId} {n : Node}
    (hawaits : g.Awaits root st.graph asked (.ref id)) (hn : st.graph.node? id = some n) :
    Unnamed (node r rec id n) st := by
  obtain ⟨hdue, hasked⟩ := hawaits
  have hmet : ∀ name ∈ n.typeNames, (typeRef r name).ById :=
    fun name hname => typeRef_byId (hknown name (hdue.names hcomplete hroot hext hn name hname))
  have hcontents := hdue.inside hcomplete hroot hext hn
  have hlist : ∀ {head : ListHead} {items : List Value}, head.ById →
      (∀ v ∈ items, g.Due root st.graph true v) → ∀ {st₁ : Progress}, st.graph.Extends st₁.graph →
        Unnamed (list rec head items) st₁ := by
    -- Each item is still due behind those before it, as they only add to the graph.
    intro head items hhead hitems st₁ hext₁
    refine unnamed_list hhead fun v hv st₂ hext₂ => ?_
    have hext' := hext₁.trans hext₂
    exact hrec (hext.trans hext') ⟨(hitems v hv).mono hext', nofun⟩
  cases n with
  | object o =>
    cases asked with
    | true => exact unnamed_objectNode hrec hext hcomplete hroot hplain hknown hdue hn
    | false => exact absurd hn (hasked rfl id o rfl)
  | array componentType items =>
    have hhead : (ListHead.objectArray (typeRef r componentType)).ById :=
      hmet componentType (List.mem_singleton_self _)
    exact unnamed_tracked (hlist hhead (hcontents fun _ => rfl))
  | collection typeName items =>
    have hhead : (ListHead.collection (r.collectionKind typeName).code).ById := trivial
    exact unnamed_tracked (hlist hhead (hcontents fun _ => rfl))
  | map typeName entries =>
    have hhead : (ListHead.map (r.mapKind typeName).code).ById := trivial
    exact unnamed_tracked (hlist hhead (hcontents fun _ => rfl))
  | proxy interfaces handler =>
    have hhead : (ListHead.proxy (interfaces.map (typeRef r))).ById := List.forall_mem_map.mpr hmet
    exact hlist hhead (hcontents fun _ => rfl) (.refl _)

/-- A value has no names if those that it meets are registered: one level of the induction over the
    depth. -/
theorem unnamed_valueWith {asked : Bool} {v : Value} (hawaits : g.Awaits root st.graph asked v) :
    Unnamed (valueWith r rec v) st := by
  have hleaf : (∀ node, v ≠ .ref node) → ∀ name ∈ st.graph.typeNames v, (typeRef r name).ById :=
    fun hleaf name hname => typeRef_byId (hknown name (hawaits.1.names_leaf hleaf name hname))
  cases v with
  | plain v => exact unnamed_plain r v
  | enum v =>
    have htype := hleaf nofun v.typeName (List.mem_singleton_self _)
    refine unnamed_atom fun type h _ => ?_
    cases h
    exact htype
  | enumArray typeName items =>
    obtain ⟨htype, hitems⟩ := List.forall_mem_cons.mp (hleaf nofun)
    refine unnamed_list htype fun item hitem _ _ => ?_
    cases item with
    | none => exact unnamed_atom nofun
    | some v =>
      -- A constant names its own type, which need not be that of the array.
      refine unnamed_atom fun type h _ => ?_
      cases h
      exact hitems v.typeName (List.mem_flatMap.mpr ⟨_, hitem, List.mem_singleton_self _⟩)
  | binaryEnum v => exact unnamed_atom nofun
  | classRef typeName => exact unnamed_atom fun _ _ h => nomatch h
  | ref id =>
    intro w st' hw
    obtain ⟨n, hn, hw⟩ := (gives_ref ..).mp hw
    exact unnamed_node hrec hext hcomplete hroot hplain hknown hawaits hn hw

end

/-- If all types that are met are registered, no type stands by its name in the image of a value that is
    due. -/
theorem unnamed_value {r : Registry} {root : Value} (hcomplete : g.Complete) (hroot : g.Has root)
    (hplain : g.WritesPlainly root)
    (hknown : ∀ name, g.Meets root name → (r.types.find? name).isSome = true) (depth : Nat)
    {asked : Bool} {v : Value} (hext : g.Extends st.graph) (hawaits : g.Awaits root st.graph asked v) :
    Unnamed (value r depth v) st := by
  induction depth generalizing st asked v with
  | zero => exact unnamed_failure
  | succ depth ih => exact unnamed_valueWith ih hext hcomplete hroot hplain hknown hawaits

end Image

/-- If all types that are met are registered, no type stands by its name in the image. -/
theorem Wire.IsImage.byId {r : Registry} {g : Graph} {v : Value} {w : Wire} (h : w.IsImage r g v)
    (hcomplete : g.Complete) (hv : g.Has v) (hplain : g.WritesPlainly v)
    (hknown : ∀ name, g.Meets v name → (r.types.find? name).isSome = true) : w.ById := by
  obtain ⟨depth, st, hw⟩ := h
  have hstart : g.Awaits v g true v := ⟨.start g v, nofun⟩
  obtain ⟨hbyId, -⟩ := Image.unnamed_value hcomplete hv hplain hknown depth (.refl g) hstart hw
  exact hbyId

end ObjectWire
