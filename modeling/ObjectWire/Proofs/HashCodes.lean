import ObjectWire.Proofs.CarriedRoots
import ObjectWire.Proofs.ImageSpan
import ObjectWire.Proofs.Wire.HashCodes

/-!
# Hash codes touch nothing but their slots

Whether hash codes are filled in decides about four bytes in the header of every object and about nothing
else (`encode_hashing`).  The argument goes through the images: over dynamic objects the image without hash
codes is the image with them, with zeros in their place (`Image.unhashes_value`).
-/

namespace ObjectWire

open ObjectWire.Action Image Reader

namespace Image

/-- Where all objects are dynamic, `y` works out what `x` does with the hash codes left out, and the hash
    codes that `x` has are those of the objects' data. -/
def Unhashes (x y : Sketch Wire) : Prop :=
  ∀ ⦃st w st'⦄, Gives x st w st' → st.graph.Dynamic →
    Gives y st w.unhashed st' ∧ w.Coded identityHash st.place ∧ st'.graph = st.graph

/-- A value without others inside has no hash codes. -/
theorem unhashes_atom (a : Atom) : Unhashes (atom a) (atom a) := by
  intro st w st' hw _
  obtain ⟨hfits, rfl, rfl⟩ := (gives_atom ..).mp hw
  exact ⟨hw, trivial, rfl⟩

/-- What has no image has none, either. -/
theorem unhashes_failure : Unhashes failure failure := fun _ _ _ h => (gives_failure _ _ _ h).elim

section

variable {α : Type} {item item' : α → Sketch Wire} (hspans : ∀ a, Spans (item a))
  (h : ∀ a, Unhashes (item a) (item' a))

include hspans h

/-- Several images have theirs without hash codes one by one, each at its place. -/
theorem unhashes_each {as : List α} {st st' : Progress} {ws : List Wire}
    (hws : Gives (each item as) st ws st') (hdynamic : st.graph.Dynamic) :
    Gives (each item' as) st (Wire.itemsUnhashed ws) st' ∧ Wire.itemsCoded identityHash st.place ws ∧
      st'.graph = st.graph := by
  -- One item after the other: the places go on alike, since hash codes take no other room than zeros.
  induction as generalizing st ws with
  | nil =>
    obtain ⟨rfl, rfl⟩ := (gives_each_nil ..).mp hws
    exact ⟨(gives_each_nil ..).mpr ⟨rfl, rfl⟩, trivial, rfl⟩
  | cons a as ih =>
    obtain ⟨w, ws, st₁, hw, hrest, rfl⟩ := (gives_each_cons ..).mp hws
    obtain ⟨hw', hcoded, hgraph⟩ := h a hw hdynamic
    obtain ⟨hrest', hcodedRest, hgraphRest⟩ := ih hrest (hgraph ▸ hdynamic)
    rw [hspans a hw] at hcodedRest
    exact ⟨(gives_each_cons ..).mpr ⟨_, _, st₁, hw', hrest', rfl⟩, ⟨hcoded, hcodedRest⟩,
      hgraphRest.trans hgraph⟩

/-- A list has its hash codes in its items. -/
theorem unhashes_list {head : ListHead} {items : List α} :
    Unhashes (list item head items) (list item' head items) := by
  intro st w st' hw hdynamic
  obtain ⟨hfits, ws, rfl, hws⟩ := (gives_list ..).mp hw
  have hlen := length_each hws
  obtain ⟨hws', hcoded, hgraph⟩ := unhashes_each hspans h hws hdynamic
  refine ⟨(gives_list ..).mpr ⟨hfits, _, rfl, hws'⟩, ?_, hgraph⟩
  rw [Wire.Coded, hlen]
  exact hcoded

end

/-- A reference back is the same, since places do not move. -/
theorem unhashes_tracked {node : NodeId} {x y : Sketch Wire} (h : Unhashes x y) :
    Unhashes (tracked node x) (tracked node y) := by
  intro st w st' hw hdynamic
  cases hplace : placeOf node st.log with
  | none =>
    obtain ⟨hw', hrest⟩ := h ((gives_tracked_none hplace ..).mp hw) hdynamic
    exact ⟨(gives_tracked_none hplace ..).mpr hw', hrest⟩
  | some target =>
    obtain ⟨hw', hrest⟩ := unhashes_atom _ ((gives_tracked_some hplace ..).mp hw) hdynamic
    exact ⟨(gives_tracked_some hplace ..).mpr hw', hrest⟩

/-- A plain value has no hash codes. -/
theorem unhashes_plain (r : Registry) (v : Plain) : Unhashes (plain r v) (plain r v) := by
  apply plain_of_atoms (P := fun x => Unhashes x x) unhashes_failure
  · intro a _ _
    exact unhashes_atom a
  · intro α item tag xs _ _
    exact unhashes_list (fun x => spans_atom _) fun x => unhashes_atom _

/-- The draft with all hash codes inside it left zero. -/
def Draft.unhashed (d : Draft) : Draft :=
  { d with fields := d.fields.map fun f => { f with value := f.value.unhashed } }

/-- The fields of an object are shown as before, but for the hash codes in their values. -/
theorem shown_unhashed (fields : List Placed) (compact : Bool) :
    (fields.map fun f => { f with value := f.value.unhashed }).map (·.shown compact) =
      Wire.fieldsUnhashed (fields.map (·.shown compact)) := by
  induction fields with
  | nil => rfl
  | cons f fields ih => exact congrArg (_ :: ·) ih

/-- The width of the footer depends on offsets, and they stay. -/
theorem width_unhashed (d : Draft) : d.unhashed.width = d.width := by
  have hoffset : d.unhashed.fields.getLast?.map (·.offset) = d.fields.getLast?.map (·.offset) := by
    rw [Draft.unhashed, List.getLast?_map, Option.map_map]
    rfl
  rw [Draft.width, Draft.width, hoffset]

/-- No more than the number of fields and their offsets matters for what stands around the data. -/
theorem header_unhashed (d : Draft) (typeId : Int32) (userType compact : Bool) (dataEnd stop : Nat)
    (hashCode : Int32) : d.unhashed.header typeId userType compact dataEnd stop hashCode =
      d.header typeId userType compact dataEnd stop hashCode := by
  have hempty : d.unhashed.fields.isEmpty = d.fields.isEmpty := List.isEmpty_map
  simp only [Draft.header, Draft.flags, Draft.headerOffset, hempty, width_unhashed]
  rfl

/-- So does the length of what follows the data. -/
theorem tailLength_unhashed (d : Draft) (compact : Bool) :
    d.unhashed.tailLength compact = d.tailLength compact := by
  have hempty : d.unhashed.fields.isEmpty = d.fields.isEmpty := List.isEmpty_map
  have hlength : d.unhashed.fields.length = d.fields.length := List.length_map _
  simp only [Draft.tailLength, hempty, hlength, width_unhashed]
  rfl

/-- The draft of an object whose data begins at `dataStart` has come to the progress's place, and the
    objects inside it have their hash codes. -/
structure Draft.Coded (dataStart : Nat) (st : Progress) (d : Draft) : Prop where
  inside : d.rawSoFar.Inside
  place : st.place = dataStart + d.data.length
  fields : ∀ compact, Wire.fieldsCoded identityHash dataStart (d.fields.map (·.shown compact))

/-- One more field behind the others. -/
theorem fieldsCoded_append {place : Nat} {fields : List (FieldAt Wire)} {f : FieldAt Wire}
    (h : Wire.fieldsCoded identityHash place fields)
    (hf : f.value.Coded identityHash (place + (Wire.fieldBytes fields).length)) :
    Wire.fieldsCoded identityHash place (fields ++ [f]) := by
  induction fields generalizing place with
  | nil => exact ⟨hf, trivial⟩
  | cons g fields ih =>
    refine ⟨h.1, ih h.2 ?_⟩
    rw [Nat.add_assoc, ← List.length_append]
    exact hf

section

variable {r : Registry} {rec rec' : Value → Sketch Wire} {start dataStart : Nat} {d d' : Draft}
  {st st' : Progress} (hspans : ∀ v, Spans (rec v)) (hrec : ∀ v, Unhashes (rec v) (rec' v))

/-- A field keeps its id and its offset. -/
theorem unhashes_field {id : Int32} {fold : Bool} {x y : Sketch Wire} (hspans : Spans x)
    (hxy : Unhashes x y) (h : Gives (field start id fold x d) st d' st') (hdynamic : st.graph.Dynamic)
    (hd : d.Coded dataStart st) :
    Gives (field start id fold y d.unhashed) st d'.unhashed st' ∧ d'.Coded dataStart st' ∧
      st'.graph = st.graph := by
  obtain ⟨hinside, hnext⟩ := field_place hspans h
  obtain ⟨hnone, hnew, w, hw, rfl⟩ := gives_field h
  obtain ⟨hw', hcoded, hgraph⟩ := hxy hw hdynamic
  have hplace := hd.place
  refine ⟨?_, ⟨hinside, by omega, fun compact => ?_⟩, hgraph⟩
  · simp only [field, gives_bind, gives_guard, gives_place, gives_pure]
    refine ⟨(), st, ⟨⟨Option.isNone_iff_eq_none.mpr hnone, fun f hf => ?_⟩, rfl⟩, _, _, ⟨rfl, rfl⟩, _, _,
      hw', _, _, ⟨rfl, rfl⟩, ?_, rfl⟩
    · obtain ⟨g, hg, rfl⟩ := List.mem_map.mp hf
      exact hnew g hg
    · simp [Draft.unhashed]
  · rw [Draft.data_of_none hnone] at hplace
    rw [List.map_append]
    -- The new value stands where the data ended, behind the fields that are coded already.
    apply fieldsCoded_append (hd.fields compact)
    rw [fieldBytes_shown]
    exact hplace ▸ hcoded

/-- Bytes as they are have no hash codes inside them. -/
theorem unhashes_bytes {bs : Bytes} {r' : Registry} (hspans : ∀ v, Spans (rec v))
    (h : Gives (raw r rec [.bytes bs] d) st d' st') (hd : d.Coded dataStart st) :
    Gives (raw r' rec' [.bytes bs] d.unhashed) st d'.unhashed st' ∧ d'.Coded dataStart st' ∧
      st'.graph = st.graph := by
  obtain ⟨hinside, hnext⟩ := raw_place hspans hd.inside h
  have hplace := hd.place
  obtain ⟨made, hmade, rfl⟩ := gives_raw.mp h
  simp only [rawCalls, rawCall, gives_bind, gives_loose, gives_pure] at hmade
  obtain ⟨_, _, ⟨rfl, rfl⟩, rfl, rfl⟩ := hmade
  refine ⟨gives_raw.mpr ⟨_, ?_, rfl⟩, ⟨hinside, by omega, hd.fields⟩, rfl⟩
  simp only [rawCalls, rawCall, gives_bind, gives_loose, gives_pure]
  exact ⟨_, _, ⟨rfl, rfl⟩, rfl, rfl⟩

include hspans hrec

/-- Plain calls one after the other keep all offsets, by induction over the calls. -/
theorem unhashes_calls {ops : List ObjectOp} (r' : Registry)
    (hops : ∀ op ∈ ops, op.isPlain = true)
    (h : Gives (calls r rec start d ops) st d' st') (hdynamic : st.graph.Dynamic)
    (hd : d.Coded dataStart st) :
    Gives (calls r' rec' start d.unhashed ops) st d'.unhashed st' ∧ d'.Coded dataStart st' ∧
      st'.graph = st.graph := by
  -- The two registries differ in the option only, so each call does the same to the draft.
  induction ops generalizing d st with
  | nil =>
    obtain ⟨rfl, rfl⟩ := (gives_pure ..).mp h
    exact ⟨(gives_pure ..).mpr ⟨rfl, rfl⟩, hd, rfl⟩
  | cons op ops ih =>
    obtain ⟨hop, hrest⟩ := List.forall_mem_cons.mp hops
    obtain ⟨d₁, st₁, hcall, hcalls⟩ := (gives_bind ..).mp h
    have hfirst : Gives (call r' rec' start d.unhashed op) st d₁.unhashed st₁ ∧ d₁.Coded dataStart st₁ ∧
        st₁.graph = st.graph := by
      cases op with
      | field name v => exact unhashes_field (hspans v) (hrec v) hcall hdynamic hd
      | raw ops =>
        obtain ⟨bs, rfl⟩ := ObjectOp.isPlain_raw hop
        exact unhashes_bytes hspans hcall hd
      | _ => cases hop
    obtain ⟨hcall', hd₁, hgraph⟩ := hfirst
    obtain ⟨hcalls', hd', hgraph'⟩ := ih hrest hcalls (hgraph ▸ hdynamic) hd₁
    exact ⟨(gives_bind ..).mpr ⟨_, st₁, hcall', hcalls'⟩, hd', hgraph'.trans hgraph⟩

end

/-- The header of an object tells where its data ends: at the footer or, if it has none, with the object. -/
theorem dataEnd_header {d : Draft} {typeId : Int32} {userType compact : Bool} {dataEnd : Nat}
    {hashCode : Int32} (hmax : dataEnd + d.tailLength compact ≤ maxWireLength) :
    (d.header typeId userType compact dataEnd (dataEnd + d.tailLength compact) hashCode).dataEnd
      (!d.fields.isEmpty) = dataEnd := by
  simp only [Header.dataEnd, Draft.header, Draft.headerOffset]
  cases hempty : d.fields.isEmpty with
  | false =>
    simp only [Bool.not_false, if_true, Bool.false_eq_true, if_false]
    rw [toInt_ofNat (by omega), Int.toNat_natCast]
  | true =>
    have htail : d.tailLength compact = 0 := by
      rw [Draft.tailLength, hempty, List.isEmpty_iff.mp hempty]
      simp
    simp only [Bool.not_true, Bool.false_eq_true, if_false, htail, Nat.add_zero]
    rw [toInt_ofNat (by omega), Int.toNat_natCast]

section

variable {r : Registry} {rec rec' : Value → Sketch Wire} (hspans : ∀ v, Spans (rec v))
  (hrec : ∀ v, Unhashes (rec v) (rec' v))

include hspans hrec

/-- The header of an object tells where the data ends that its hash code is taken of. -/
theorem unhashes_frame {typeId : Int32} {name : Option Bytes} {userType : Bool} {ops : List ObjectOp}
    (hops : ∀ op ∈ ops, op.isPlain = true) :
    Unhashes (frame (r.hashing true) rec typeId name userType ops)
      (frame (r.hashing false) rec' typeId name userType ops) := by
  intro st w st' h hdynamic
  simp only [frame, gives_bind, gives_place, gives_guard, gives_advance] at h ⊢
  obtain ⟨_, _, ⟨rfl, rfl⟩, _, _, ⟨hshort, rfl⟩, _, _, rfl, d, st₁, hd, hfinish⟩ := h
  -- Nothing is drafted behind the front, so there is nothing in it that could be coded wrongly.
  have hempty : Draft.Coded (st.place + frontLength name)
      { st with place := st.place + frontLength name } {} := ⟨.empty, rfl, fun _ => trivial⟩
  obtain ⟨hd', hcoded, hgraph⟩ := unhashes_calls hspans hrec (r.hashing false) hops hd hdynamic hempty
  obtain ⟨⟨hclosed, hmax⟩, rfl, rfl⟩ := (gives_finish _ _ _ _ _ _ _ _ _ _ rfl).mp hfinish
  refine ⟨⟨_, _, ⟨rfl, rfl⟩, (), _, ⟨hshort, rfl⟩, (), _, rfl, d.unhashed, st₁, hd', ?_⟩, ?_, hgraph⟩
  · refine (gives_finish _ _ _ _ _ _ _ _ _ _ rfl).mpr ?_
    rw [tailLength_unhashed, header_unhashed]
    refine ⟨⟨hclosed, hmax⟩, ?_, rfl⟩
    rw [Wire.unhashed, ← shown_unhashed]
    rfl
  · have hdata : (Wire.fieldBytes (d.fields.map (·.shown (userType && (r.hashing true).config.compactFooter))) ++
        d.rawBytes?.getD []) = d.data := by
      rw [fieldBytes_shown, Draft.getD_rawBytes?]
      rfl
    have hend : st₁.place - st.place = frontLength name + d.data.length := by
      rw [hcoded.place, Nat.add_assoc, Nat.add_sub_cancel_left]
    -- Where the object ends, counted from its start.
    have hstop : st₁.place + d.tailLength (userType && (r.hashing true).config.compactFooter) - st.place =
        frontLength name + d.data.length +
          d.tailLength (userType && (r.hashing true).config.compactFooter) := by
      rw [hcoded.place]
      omega
    rw [hstop] at hmax ⊢
    rw [hend]
    refine ⟨rfl, ?_, ?_, hcoded.fields _⟩
    · rw [hdata]
      rfl
    · rw [hdata, List.isEmpty_map]
      exact dataEnd_header hmax

/-- An object has its image without hash codes if the values inside it have. -/
theorem unhashes_object (o : DynamicObject) :
    Unhashes (object (r.hashing true) rec (.dynamic o)) (object (r.hashing false) rec' (.dynamic o)) := by
  have htypes : ∀ hashes, (r.hashing hashes).types = r.types := fun _ => rfl
  have htext : ∀ hashes s, text (r.hashing hashes) s = text r s := fun _ _ => rfl
  unfold object
  simp only [htypes, htext]
  split
  · exact unhashes_frame hspans hrec (UserObject.isPlain_dynamic o)
  · exact unhashes_frame hspans hrec (UserObject.isPlain_dynamic o)

/-- A node has its image without hash codes if the values inside it have. -/
theorem unhashes_node (id : NodeId) {n : Node} (hdynamic : ∀ o, n = .object o → ∃ d, o = .dynamic d) :
    Unhashes (node (r.hashing true) rec id n) (node (r.hashing false) rec' id n) := by
  cases n with
  | object o =>
    obtain ⟨d, rfl⟩ := hdynamic o rfl
    exact unhashes_tracked (unhashes_object hspans hrec d)
  | array componentType items => exact unhashes_tracked (unhashes_list hspans hrec)
  | collection typeName items => exact unhashes_tracked (unhashes_list hspans hrec)
  | map typeName entries => exact unhashes_tracked (unhashes_list hspans hrec)
  | proxy interfaces handler => exact unhashes_list hspans hrec

/-- So has a value: one level of the induction over the depth. -/
theorem unhashes_valueWith (v : Value) :
    Unhashes (valueWith (r.hashing true) rec v) (valueWith (r.hashing false) rec' v) := by
  cases v with
  | plain v =>
    -- The option is about objects, and a plain value has none inside.
    have hplain : ∀ hashes, plain (r.hashing hashes) v = plain r v := by
      intro hashes
      cases v <;> rfl
    show Unhashes (plain (r.hashing true) v) (plain (r.hashing false) v)
    rw [hplain, hplain]
    exact unhashes_plain r v
  | enum v => exact unhashes_atom _
  | enumArray typeName items => exact unhashes_list (fun item => spans_atom _) fun item => unhashes_atom _
  | binaryEnum v => exact unhashes_atom _
  | classRef typeName => exact unhashes_atom _
  | ref id =>
    intro st w st' h hdynamic
    obtain ⟨n, hn, h⟩ := (gives_ref ..).mp h
    obtain ⟨h', hrest⟩ := unhashes_node hspans hrec id (fun o ho => hdynamic id o (ho ▸ hn)) h hdynamic
    exact ⟨(gives_ref ..).mpr ⟨n, hn, h'⟩, hrest⟩

end

/-- The image of a value of dynamic objects without hash codes is its image with zeros for hash codes. -/
theorem unhashes_value (r : Registry) (depth : Nat) (v : Value) :
    Unhashes (value (r.hashing true) depth v) (value (r.hashing false) depth v) := by
  induction depth generalizing v with
  | zero => exact unhashes_failure
  | succ depth ih => exact unhashes_valueWith (spans_value _ depth) ih v

end Image

/-- The world with hash codes filled in or not. -/
def World.hashing (hashes : Bool) (world : World) : World :=
  { world with service := world.service.hashing hashes }

/-- What can be encoded with hash codes filled in or not can be encoded either way. -/
theorem encode_hashing_ok {v : Value} {world : World} {hashes : Bool} {bs : Bytes}
    (hdynamic : world.graph.Dynamic) (hclosed : world.graph.Closed) (hv : world.graph.Has v)
    (h : (encode v (world.hashing hashes)).1 = .ok bs) (other : Bool) :
    ∃ bs', (encode v (world.hashing other)).1 = .ok bs' := by
  have hyields : (encode v).Yields (world.hashing hashes) bs (encode v (world.hashing hashes)).2 :=
    Prod.ext h rfl
  obtain ⟨scratch', hwith⟩ := encode_yields hyields
  obtain ⟨s, hs, -, -, -⟩ := encodeWith_yields hwith
  rw [writeValue_yields] at hs
  refine encode_of_writeDepth (s := World.session (world.hashing hashes) _ _) hdynamic hclosed hv rfl ?_ hs
    other world.journal
  show max (Tape.zeros world.service.config.initialCapacity).size Growth.maxCapacity ≤ _
  rw [Tape.size_zeros]
  exact Nat.le_add_left _ _

/-- A value of dynamic objects can be encoded with hash codes filled in if it can be without.  Both times it
    has as many bytes, and they differ at most in the hash codes of the objects that are written in full.
    There all bytes are zero if codes are not filled in.  If they are, each is the hash of the object's own
    data as it stands among the bytes told: from behind header and name up to the footer or, in an object
    without fields, up to its end, with the raw section and with the codes of the objects inside it. -/
theorem encode_hashing {v : Value} {world : World} (hdynamic : world.graph.Dynamic)
    (hclosed : world.graph.Closed) (hv : world.graph.Has v) :
    ((∃ bs, (encode v (world.hashing true)).1 = .ok bs) ↔
      ∃ bs, (encode v (world.hashing false)).1 = .ok bs) ∧
    ∀ on off, (encode v (world.hashing true)).1 = .ok on → (encode v (world.hashing false)).1 = .ok off →
      ∃ w : Wire, w.IsImage (world.hashing true).service.registry.static world.graph v ∧
        on = w.bytes ∧ off = w.unhashed.bytes ∧ off.length = on.length ∧
        (∀ i, (∀ slot ∈ w.slots, ¬ slot.Covers i) → off[i]? = on[i]?) ∧
        ∀ slot ∈ w.slots,
          Holds off (slot.start + Header.hashCodeOffset) (Word.bytes (0 : Int32)) ∧
          Holds on (slot.start + Header.hashCodeOffset)
            (Word.bytes (identityHash (on.extract slot.front slot.stop))) := by
  constructor
  · constructor
    · intro h
      obtain ⟨bs, hbs⟩ := h
      exact encode_hashing_ok hdynamic hclosed hv hbs false
    · intro h
      obtain ⟨bs, hbs⟩ := h
      exact encode_hashing_ok hdynamic hclosed hv hbs true
  · -- The image is worked out once, with the hash codes, and the other bytes are those of its unhashed form.
    intro on off hon hoff
    have hyields : (encode v).Yields (world.hashing true) on (encode v (world.hashing true)).2 :=
      Prod.ext hon rfl
    have hregular : (world.hashing true).graph.Regular := hdynamic.regular
    obtain ⟨w, ⟨depth, st, hw⟩, rfl⟩ := encode_image hregular hyields
    obtain ⟨hw', hcoded, -⟩ := unhashes_value world.service.registry.static depth v hw hdynamic
    have hoff' : off = w.unhashed.bytes :=
      @encode_eq_image depth v (world.hashing false) off w.unhashed st hdynamic.regular hw' hoff
    subst hoff'
    have hagree := hcoded.agreeOutside
    refine ⟨w, ⟨depth, st, hw⟩, rfl, rfl, hagree.length, fun i hi => hagree.byte i fun slot hslot => ?_,
      fun slot hslot => ⟨?_, hcoded.slots_hold (holds_self _) slot hslot⟩⟩
    · rw [Nat.zero_add]
      exact hi slot hslot
    · exact hcoded.unhashed.slots_hold (holds_self _) slot (w.slots_unhashed ▸ hslot)

/-- An object that refers twice to another one, which has no field. -/
def nestedWorld : World where
  service := { registry := Registry.new { initialCapacity := 16 } }
  graph := { nodes := #[
    .object (.dynamic { typeName := "Pair", fields := [("a", .ref 1), ("b", .ref 1)], raw := some [7] }),
    .object (.dynamic { typeName := "Leaf", fields := [], raw := some [9, 9] })] }

/-- The sample world has no objects with programs of their own. -/
theorem nestedWorld_dynamic : nestedWorld.graph.Dynamic := by decide

/-- The bytes of the first object, with hash codes. -/
def nestedHashed : Bytes :=
  [103, 1, 47, 0, 0, 0, 0, 0, 146, 120, 171, 98, 80, 0, 0, 0, 230, 5, 21, 34, 74, 0, 0, 0, 9, 4, 0, 0, 0,
    80, 97, 105, 114, 103, 1, 37, 0, 0, 0, 0, 0, 225, 4, 0, 0, 35, 0, 0, 0, 0, 0, 0, 0, 33, 0, 0, 0, 9, 4,
    0, 0, 0, 76, 101, 97, 102, 9, 9, 102, 35, 0, 0, 0, 7, 33, 68, 73, 0, 0, 0]

/-- The bytes of the first object, without them. -/
def nestedPlain : Bytes :=
  [103, 1, 47, 0, 0, 0, 0, 0, 0, 0, 0, 0, 80, 0, 0, 0, 230, 5, 21, 34, 74, 0, 0, 0, 9, 4, 0, 0, 0, 80, 97,
    105, 114, 103, 1, 37, 0, 0, 0, 0, 0, 0, 0, 0, 0, 35, 0, 0, 0, 0, 0, 0, 0, 33, 0, 0, 0, 9, 4, 0, 0, 0,
    76, 101, 97, 102, 9, 9, 102, 35, 0, 0, 0, 7, 33, 68, 73, 0, 0, 0]

/-- An object in a field of another has a hash code of its own, and that is part of what the outer one is
    taken of. -/
theorem encode_hashing_sample :
    (encode (.ref 0) (nestedWorld.hashing true)).1 = .ok nestedHashed ∧
      (encode (.ref 0) (nestedWorld.hashing false)).1 = .ok nestedPlain ∧
      ∃ w : Wire, nestedHashed = w.bytes ∧ nestedPlain = w.unhashed.bytes ∧ ∀ slot ∈ w.slots,
        Holds nestedPlain (slot.start + Header.hashCodeOffset) (Word.bytes (0 : Int32)) ∧
        Holds nestedHashed (slot.start + Header.hashCodeOffset)
          (Word.bytes (identityHash (nestedHashed.extract slot.front slot.stop))) := by
  have hclosed : nestedWorld.graph.Closed := by decide
  have hon : (encode (.ref 0)).Yields (nestedWorld.hashing true) nestedHashed _ :=
    yields_of_toOption (by decide +kernel)
  have hoff : (encode (.ref 0)).Yields (nestedWorld.hashing false) nestedPlain _ :=
    yields_of_toOption (by decide +kernel)
  have hon' := congrArg Prod.fst hon
  have hoff' := congrArg Prod.fst hoff
  obtain ⟨-, hboth⟩ := encode_hashing nestedWorld_dynamic hclosed (v := .ref 0) (by decide)
  obtain ⟨w, -, hw, hw', -, -, hslots⟩ := hboth _ _ hon' hoff'
  exact ⟨hon', hoff', w, hw, hw', hslots⟩

end ObjectWire
