import ObjectWire.Proofs.ImageSpan

/-!
# Images fit their places

The image of a value can stand at the place where it was begun: `Stands` says so of a part of an image,
`stands_value` of every value.  The one thing to be asked of the registry is that no type is registered
under the id that announces a name.
-/

namespace ObjectWire

/-- No type is registered under the id of unregistered types. -/
def Registry.Announces (r : Registry) : Prop :=
  ∀ name entry, r.types.find? name = some entry → entry.typeId ≠ unregisteredTypeId

/-- In a new registry no type has the id that stands for none. -/
theorem Registry.announces_new (config : Config) : (Registry.new config).Announces := by
  intro name entry hfind
  have htypes : (Registry.new config).types =
      Dict.insert {} Registry.objectTypeName ⟨Registry.objectTypeId, false⟩ := rfl
  rw [htypes, Dict.find?_insert] at hfind
  split at hfind
  · cases hfind
    decide
  · cases hfind

namespace Image

/-- The image of `x` can stand where it is begun. -/
def Stands (x : Sketch Wire) : Prop := ∀ ⦃st w st'⦄, Gives x st w st' → w.Fits st.place

/-- A type that can be written can be told from its bytes, if its registry announces all names. -/
theorem fits_typeRef {r : Registry} (hr : r.Announces) {name : String}
    (h : fitsType (typeRef r name) = true) : (typeRef r name).Fits := by
  unfold typeRef at h ⊢
  cases hfind : r.types.find? name with
  | some entry => exact hr name entry hfind
  | none =>
    rw [hfind] at h
    exact of_decide_eq_true (p := (text r name).length ≤ maxWireLength) h

/-- A value that can be written can stand anywhere, unless it is a reference back. -/
theorem fits_atom {a : Atom} {place : Nat} (h : fitsAtom a = true)
    (htype : ∀ type ∈ a.type?, fitsType type = true → type.Fits) (hhandle : a.isHandle = false) :
    a.Fits place := by
  -- What is asked when an atom is sketched is what a reader asks, with types and handles set apart.
  cases a with
  | handle source target => cases hhandle
  | enum type ordinal => exact htype type rfl h
  | classRef type => exact htype type rfl h
  | string text => simpa [fitsAtom, Atom.Fits] using h
  | decimal scale magnitude => simpa [fitsAtom, Atom.Fits] using h
  | encoded bytes start => simpa [fitsAtom, Atom.Fits] using h
  | words tag count payload =>
    simp only [fitsAtom, Bool.and_eq_true, Option.any_eq_true, decide_eq_true_eq] at h
    obtain ⟨⟨width, hwidth, hlen⟩, hcount⟩ := h
    exact ⟨width, hwidth, hlen, hcount⟩
  | binaryEnum typeId name ordinal =>
    simp only [fitsAtom, Bool.and_eq_true, beq_iff_eq, Option.all_eq_true, decide_eq_true_eq] at h
    refine ⟨?_, h.2⟩
    rw [← h.1, beq_iff_eq]
  | _ => trivial

/-- A value without others inside stands anywhere, unless it is a reference back. -/
theorem stands_atom {a : Atom} (htype : ∀ type ∈ a.type?, fitsType type = true → type.Fits)
    (hhandle : a.isHandle = false) : Stands (atom a) := by
  intro st w st' hw
  obtain ⟨hfits, rfl, rfl⟩ := (gives_atom ..).mp hw
  exact fits_atom hfits htype hhandle

/-- So does one that names no type. -/
theorem stands_untyped {a : Atom} (htype : a.type? = none) (hhandle : a.isHandle = false) :
    Stands (atom a) := by
  have hnone : ∀ type ∈ a.type?, fitsType type = true → type.Fits := by
    intro type h
    rw [htype] at h
    cases h
  exact stands_atom hnone hhandle

/-- Several images stand one behind the other, by induction over them. -/
theorem stands_each {α : Type} {item : α → Sketch Wire} (hspans : ∀ a, Spans (item a))
    (h : ∀ a, Stands (item a)) {as : List α} {st st' : Progress} {ws : List Wire}
    (hws : Gives (each item as) st ws st') : Wire.itemsFit st.place ws := by
  induction as generalizing st ws with
  | nil =>
    obtain ⟨rfl, rfl⟩ := (gives_each_nil ..).mp hws
    trivial
  | cons a as ih =>
    obtain ⟨w, ws, st₁, hw, hrest, rfl⟩ := (gives_each_cons ..).mp hws
    -- The values behind the first one begin where it ends.
    have hfits := ih hrest
    rw [hspans a hw] at hfits
    exact ⟨h a hw, hfits⟩

/-- A list stands if its head fits and its items stand. -/
theorem stands_list {α : Type} {item : α → Sketch Wire} {head : ListHead} {items : List α}
    (hspans : ∀ a, Spans (item a)) (h : ∀ a, Stands (item a))
    (hhead : fitsList items.length head = true → head.Fits items.length) :
    Stands (list item head items) := by
  intro st w st' hw
  obtain ⟨hfits, ws, rfl, hws⟩ := (gives_list ..).mp hw
  have hitems := stands_each hspans h hws
  have hlen := length_each hws
  exact ⟨hlen ▸ hhead hfits, hlen ▸ hitems⟩

/-- A log of its own moves nothing. -/
theorem stands_detached {x : Sketch Wire} (h : Stands x) : Stands (detached x) := by
  intro st w st' hw
  obtain ⟨inner, hx, rfl⟩ := (gives_detached ..).mp hw
  -- It begins where the value around it has come to, with another log.
  have hstands := h hx
  exact hstands

/-- A reference back leads from its own place to one before it. -/
theorem stands_tracked {node : NodeId} {x : Sketch Wire} (h : Stands x) : Stands (tracked node x) := by
  intro st w st' hw
  cases hplace : placeOf node st.log with
  | none =>
    have hstands := h ((gives_tracked_none hplace ..).mp hw)
    exact hstands
  | some target =>
    obtain ⟨hfits, rfl, rfl⟩ := (gives_atom ..).mp ((gives_tracked_some hplace ..).mp hw)
    simp only [fitsAtom, Bool.and_eq_true, decide_eq_true_eq] at hfits
    exact ⟨rfl, hfits⟩

/-- What has no image need not stand. -/
theorem stands_failure : Stands failure := fun _ _ _ h => (gives_failure _ _ _ h).elim

/-- A plain value stands anywhere. -/
theorem stands_plain (r : Registry) (v : Plain) : Stands (plain r v) := by
  apply plain_of_atoms stands_failure
  · intro a htype hhandle
    exact stands_untyped htype hhandle
  · intro α item tag xs htype hhandle
    apply stands_list (fun x => spans_atom _) (fun x => stands_untyped (htype x) (hhandle x))
    intro h
    simpa [fitsList, ListHead.Fits] using h

/-- One more field behind the others. -/
theorem fieldsFit_append {start place : Nat} {fields : List (FieldAt Wire)} {f : FieldAt Wire}
    (h : Wire.fieldsFit start place fields) (hoffset : start + f.offset =
      place + (Wire.fieldBytes fields).length) (hstop : f.stop = start + f.offset + f.value.bytes.length)
    (hf : f.value.Fits (start + f.offset)) : Wire.fieldsFit start place (fields ++ [f]) := by
  induction fields generalizing place with
  | nil =>
    obtain ⟨id, offset, stop, value⟩ := f
    simp only [Wire.fieldBytes, List.length_nil, Nat.add_zero] at hoffset
    -- The field stands where the others would have begun.
    rw [hoffset] at hstop hf
    exact ⟨hoffset, hstop, hf, trivial⟩
  | cons g fields ih =>
    obtain ⟨id, offset, stop, value⟩ := g
    obtain ⟨hg, rfl, hvalue, hrest⟩ := h
    refine ⟨hg, rfl, hvalue, ih hrest ?_⟩
    rw [hoffset, Wire.fieldBytes, List.length_append, Nat.add_assoc]

/-- The draft of an object whose data begins at `dataStart` has come to the progress's place. -/
structure Draft.Stands (start dataStart : Nat) (st : Progress) (d : Draft) : Prop where
  place : st.place = dataStart + d.data.length
  fields : ∀ compact, Wire.fieldsFit start dataStart (d.fields.map (·.shown compact))
  inside : d.rawSoFar.Inside

section

variable {r : Registry} {rec : Value → Sketch Wire} {start dataStart : Nat} {d d' : Draft}
  {st st' : Progress}

/-- A field stands at its offset, behind the fields before it. -/
theorem field_stands {id : Int32} {fold : Bool} {y : Sketch Wire} (hstart : start ≤ dataStart)
    (hspans : Spans y) (hy : Stands y) (hd : d.Stands start dataStart st)
    (h : Gives (field start id fold y d) st d' st') : d'.Stands start dataStart st' := by
  obtain ⟨hinside, hnext⟩ := field_place hspans h
  obtain ⟨hnone, -, w, hw, rfl⟩ := gives_field h
  have hplace := hd.place
  refine ⟨by omega, ?_, hinside⟩
  · -- The offset in the entry is the distance that the value stands behind the start.
    intro compact
    have hback : start + (st.place - start) = st.place := by omega
    have hdata : st.place = dataStart + d.fieldBytes.length := by
      rwa [Draft.data_of_none hnone] at hplace
    rw [List.map_append]
    apply fieldsFit_append (hd.fields compact)
    · rw [fieldBytes_shown]
      exact hback.trans hdata
    · show _ = start + (st.place - start) + w.bytes.length
      rw [hback]
      exact hspans hw
    · exact hback.symm ▸ hy hw

variable (hspans : ∀ v, Spans (rec v)) (hrec : ∀ v, Stands (rec v))

include hspans

/-- The raw section lies behind the fields. -/
theorem raw_stands {ops : List RawOp} (hd : d.Stands start dataStart st)
    (h : Gives (raw r rec ops d) st d' st') : d'.Stands start dataStart st' := by
  have hplace := hd.place
  obtain ⟨hinside, hnext⟩ := raw_place hspans hd.inside h
  obtain ⟨made, -, rfl⟩ := gives_raw.mp h
  exact ⟨by omega, hd.fields, hinside⟩

include hrec

/-- A call on the writer of an object leaves the draft standing, whichever call it is. -/
theorem call_stands {op : ObjectOp} (hstart : start ≤ dataStart) (hd : d.Stands start dataStart st)
    (h : Gives (call r rec start d op) st d' st') : d'.Stands start dataStart st' := by
  have hplain : ∀ v, Spans (plain r v) ∧ Stands (plain r v) :=
    fun v => ⟨spans_plain r v, stands_plain r v⟩
  have hvalue : ∀ v, Spans (rec v) ∧ Stands (rec v) := fun v => ⟨hspans v, hrec v⟩
  have hdetached : ∀ v, Spans (detached (rec v)) ∧ Stands (detached (rec v)) :=
    fun v => ⟨spans_detached (hspans v), stands_detached (hrec v)⟩
  obtain ⟨id, fold, y, ⟨hyspans, hy⟩, h⟩ | ⟨ops, h⟩ | ⟨schemaId, rfl, rfl⟩ :=
    gives_call (P := fun y => Spans y ∧ Stands y) hplain hvalue hdetached h
  · exact field_stands hstart hyspans hy hd h
  · exact raw_stands hspans hd h
  · exact ⟨hd.place, hd.fields, hd.inside⟩

/-- So do calls one after the other. -/
theorem calls_stands {ops : List ObjectOp} (hstart : start ≤ dataStart)
    (hd : d.Stands start dataStart st) (h : Gives (calls r rec start d ops) st d' st') :
    d'.Stands start dataStart st' := by
  induction ops generalizing d st with
  | nil =>
    obtain ⟨rfl, rfl⟩ := (gives_pure ..).mp h
    exact hd
  | cons op ops ih =>
    obtain ⟨d₁, st₁, hop, hops⟩ := (gives_bind ..).mp h
    exact ih (call_stands hspans hrec hstart hd hop) hops

end

section

variable {start place : Nat} {fields : List (FieldAt Wire)}

/-- Every field lies between the first place and the end of the fields. -/
theorem fieldsFit_bounds (h : Wire.fieldsFit start place fields) :
    ∀ f ∈ fields, place ≤ start + f.offset ∧
      start + f.offset ≤ place + (Wire.fieldBytes fields).length := by
  -- The first value starts at the place, and each further one where the one before it ends.
  induction fields generalizing place with
  | nil =>
    intro f hf
    cases hf
  | cons g fields ih =>
    obtain ⟨id, offset, stop, value⟩ := g
    obtain ⟨hg, rfl, -, hrest⟩ := h
    rw [Wire.fieldBytes, List.length_append]
    intro f hf
    obtain rfl | hf := List.mem_cons.mp hf
    · simp only [hg]
      omega
    · have := ih hrest f hf
      omega

/-- The last offset of an object is the largest. -/
theorem fieldsFit_last (h : Wire.fieldsFit start place fields) {g : FieldAt Wire}
    (hg : fields.getLast? = some g) : ∀ f ∈ fields, f.offset ≤ g.offset := by
  induction fields generalizing place with
  | nil =>
    intro f hf
    cases hf
  | cons f fields ih =>
    obtain ⟨id, offset, stop, value⟩ := f
    obtain ⟨hoffset, rfl, -, hrest⟩ := h
    intro f hf
    cases fields with
    | nil =>
      cases hg
      exact Nat.le_of_eq (congrArg FieldAt.offset (List.mem_singleton.mp hf))
    | cons f' fields =>
      -- The last field lies behind the first one, and is the last of the others.
      rw [List.getLast?_cons_cons] at hg
      have hlast := ih hrest hg
      obtain rfl | hf := List.mem_cons.mp hf
      · have := fieldsFit_bounds hrest g (List.mem_of_getLast? hg)
        simp only at this ⊢
        omega
      · exact hlast f hf

end

section

/-- The offsets of a draft's fields fit the width that its footer has. -/
theorem Draft.Stands.offsets {start dataStart : Nat} {st : Progress} {d : Draft}
    (h : d.Stands start dataStart st) (hmax : st.place - start ≤ maxWireLength) (compact : Bool) :
    ∀ f ∈ d.fields.map (·.shown compact), f.offset < 256 ^ d.width.bytes := by
  intro f hf
  obtain ⟨placed, hplaced, -⟩ := List.mem_map.mp hf
  obtain ⟨last, hlast⟩ : ∃ last, d.fields.getLast? = some last :=
    ⟨_, List.getLast?_eq_some_getLast (List.ne_nil_of_mem hplaced)⟩
  have hlast' : (d.fields.map (·.shown compact)).getLast? = some (last.shown compact) := by
    rw [List.getLast?_map, hlast]
    rfl
  -- The last offset is the largest, and the width is made for it.
  have hle := fieldsFit_last (h.fields compact) hlast' f hf
  have hbound := fieldsFit_bounds (h.fields compact) _ (List.mem_of_getLast? hlast')
  rw [fieldBytes_shown] at hbound
  have hplace := h.place
  have hdata : d.data.length = d.fieldBytes.length + d.rawSoFar.bytes.length := List.length_append
  have hbytes : d.fieldBytes.length = (d.fields.flatMap (·.value.bytes)).length := rfl
  rw [Draft.width, hlast]
  apply OffsetWidth.lt_of_forOffset hle
  show last.offset < 256 ^ 4
  simp only [Placed.shown] at hbound
  simp only [maxWireLength] at hmax
  omega

/-- The header tells the place of the footer or, without one, that of the raw section. -/
theorem headerOffset_eq {start frontLen : Nat} {st : Progress} {d : Draft}
    (hplace : st.place = start + frontLen + d.data.length) :
    d.headerOffset (st.place - start) = if d.fields.isEmpty then d.rawBytes?.elim 0 fun _ => frontLen
      else frontLen + d.fieldBytes.length + (d.rawBytes?.getD []).length := by
  have hdata : d.data.length = d.fieldBytes.length + (d.rawBytes?.getD []).length := by
    rw [Draft.getD_rawBytes?]
    exact List.length_append
  unfold Draft.headerOffset
  -- With fields the offset is that of the footer, without them that of the raw section.
  cases hfields : d.fields.isEmpty with
  | false =>
    simp only [if_neg Bool.false_ne_true]
    omega
  | true =>
    have hnone : d.fieldBytes.length = 0 := by
      rw [Draft.fieldBytes, List.isEmpty_iff.mp hfields]
      rfl
    cases hraw : d.rawBytes? with
    | none => simp
    | some raw =>
      rw [hraw, Option.getD_some] at hdata
      simp only [if_true, Option.elim]
      omega

/-- The header of a finished object fits its draft. -/
theorem header_fits {start : Nat} {typeId : Int32} {name : Option Bytes} {userType compact : Bool}
    {d : Draft} {st : Progress} {hashCode : Int32} (hname : typeId = unregisteredTypeId ↔ name.isSome)
    (hshort : ∀ text ∈ name, text.length ≤ maxWireLength)
    (hd : d.Stands start (start + frontLength name) st)
    (hmax : st.place + d.tailLength compact - start ≤ maxWireLength) :
    (d.header typeId userType compact (st.place - start) (st.place + d.tailLength compact - start)
      hashCode).Fits name (d.fields.map (·.shown compact)) d.rawBytes? := by
  generalize hheader : d.header typeId userType compact (st.place - start)
    (st.place + d.tailLength compact - start) hashCode = header
  have hflags : header.flags = (if userType then Flag.userType else 0) |||
      (if compact then Flag.compactFooter else 0) ||| d.flags := by
    rw [← hheader]
    rfl
  -- What the flags tell is what the draft has.
  obtain ⟨hschema, hraw, hcompact⟩ := flags_header userType compact d hflags
  have hempty : (d.fields.map (·.shown compact)).isEmpty = d.fields.isEmpty := List.isEmpty_map
  have hlength := length_object 0 hd.place hheader.symm
  constructor
  · rw [← hheader]
    exact hname
  · exact hshort
  · rw [hschema, ← hempty]
    exact List.isEmpty_eq_false_iff
  · rwa [Draft.isSome_rawBytes?]
  · -- A compact footer tells no ids, and the other one tells all of them.
    intro f hf
    obtain ⟨g, -, rfl⟩ := List.mem_map.mp hf
    rw [hcompact]
    cases compact <;> simp [Placed.shown]
  · intro f hf
    have hne : d.fields.isEmpty = false := by
      rw [← hempty]
      exact List.isEmpty_eq_false_iff.mpr (List.ne_nil_of_mem hf)
    rw [hflags, ofFlags_header userType compact hne]
    exact hd.offsets (by omega) compact f hf
  · rw [hlength]
    exact hmax
  · rw [hlength, ← hheader]
    rfl
  · rw [← hheader, hempty, fieldBytes_shown]
    exact congrArg Int32.ofNat (headerOffset_eq hd.place)

variable {r : Registry} {rec : Value → Sketch Wire} (hr : r.Announces) (hspans : ∀ v, Spans (rec v))
  (hrec : ∀ v, Stands (rec v))

include hspans hrec

/-- An object stands if its calls do; its name is there just if its id says so. -/
theorem stands_frame {typeId : Int32} {name : Option Bytes} {userType : Bool} {ops : List ObjectOp}
    (hname : typeId = unregisteredTypeId ↔ name.isSome) :
    Stands (frame r rec typeId name userType ops) := by
  intro st w st' h
  obtain ⟨hshort, d, st₁, hd, hfinish⟩ := gives_frame h
  have hempty : Draft.Stands st.place (st.place + frontLength name)
      { st with place := st.place + frontLength name } {} := ⟨rfl, fun _ => trivial, .empty⟩
  have hstands := calls_stands hspans hrec (Nat.le_add_right ..) hempty hd
  obtain ⟨⟨-, hmax⟩, rfl, rfl⟩ := (gives_finish r _ _ _ _ _ _ _ _ _ rfl).mp hfinish
  exact ⟨rfl, header_fits hname hshort hstands hmax, hstands.fields _⟩

include hr

/-- An object stands whether its type is registered or not. -/
theorem stands_object (o : UserObject) : Stands (object r rec o) := by
  unfold object
  split
  · next entry hentry =>
    -- A registered type has an id, and so the object has no name behind its header.
    apply stands_frame hspans hrec
    simpa using hr o.typeName entry hentry
  · exact stands_frame hspans hrec (by simp)

/-- What takes the place of an object stands there. -/
theorem stands_substitute (v : Value) : Stands (substitute r rec v) := by
  intro st w st' h
  obtain ⟨other, o, -, -, h⟩ | ⟨-, h⟩ := (gives_substitute ..).mp h
  · -- An object in the place of another is not replaced again.
    exact stands_tracked (stands_object hr hspans hrec o) h
  · exact hrec v h

/-- An object stands whether it gives way or not. -/
theorem stands_objectNode (id : NodeId) (o : UserObject) : Stands (objectNode r rec id o) := by
  cases hreplacement : o.replacement with
  | none =>
    rw [objectNode, hreplacement]
    exact stands_tracked (stands_object hr hspans hrec o)
  | some replacement =>
    intro st w st' h
    -- The log and the graph have changed, but not the place.
    have hstands := stands_substitute hr hspans hrec _ ((gives_replaced _ _ hreplacement).mp h)
    exact hstands

/-- A node stands if the values inside it do. -/
theorem stands_node (id : NodeId) (n : Node) : Stands (node r rec id n) := by
  cases n with
  | object o => exact stands_objectNode hr hspans hrec id o
  | array componentType items =>
    refine stands_tracked (stands_list hspans hrec fun h => ?_)
    simp only [fitsList, Bool.and_eq_true, decide_eq_true_eq] at h
    exact ⟨fits_typeRef hr h.1, h.2⟩
  | collection typeName items =>
    exact stands_tracked (stands_list hspans hrec fun h => by simpa [fitsList, ListHead.Fits] using h)
  | map typeName entries =>
    exact stands_tracked (stands_list hspans hrec fun h => by simpa [fitsList, ListHead.Fits] using h)
  | proxy interfaces handler =>
    refine stands_list hspans hrec fun h => ?_
    simp only [fitsList, Bool.and_eq_true, decide_eq_true_eq, List.all_eq_true] at h
    -- Each interface is told by a type of its own.
    refine ⟨h.1.1, fun type ht => ?_, h.2⟩
    obtain ⟨name, -, rfl⟩ := List.mem_map.mp ht
    exact fits_typeRef hr (h.1.2 _ ht)

/-- A value stands if those inside it do: one level of the induction over the depth. -/
theorem stands_valueWith (v : Value) : Stands (valueWith r rec v) := by
  have henum : ∀ v, Stands (atom (enumAtom r v)) := fun v =>
    stands_atom (fun type ht hfits => by cases ht; exact fits_typeRef hr hfits) rfl
  cases v with
  | plain v => exact stands_plain r v
  | enum v => exact henum v
  | enumArray typeName items =>
    refine stands_list (fun item => spans_atom _) (fun item => ?_) fun h => ?_
    · cases item with
      | none => exact stands_untyped rfl rfl
      | some v => exact henum v
    · simp only [fitsList, Bool.and_eq_true, decide_eq_true_eq] at h
      exact ⟨fits_typeRef hr h.1, h.2⟩
  | binaryEnum v => exact stands_untyped rfl rfl
  | classRef typeName =>
    exact stands_atom (fun type ht hfits => by cases ht; exact fits_typeRef hr hfits) rfl
  | ref id =>
    intro st w st' h
    obtain ⟨n, -, h⟩ := (gives_ref ..).mp h
    exact stands_node hr hspans hrec id n h

end

/-- The image of a value fits the place where it is begun. -/
theorem stands_value {r : Registry} (hr : r.Announces) (depth : Nat) (v : Value) :
    Stands (value r depth v) := by
  induction depth generalizing v with
  | zero => exact stands_failure
  | succ depth ih => exact stands_valueWith hr (spans_value r depth) ih v

end Image

end ObjectWire
