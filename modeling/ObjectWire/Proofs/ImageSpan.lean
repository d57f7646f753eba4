import ObjectWire.Proofs.Draft
import ObjectWire.Proofs.Wire.Fits

/-!
# Images and their places

Working out an image goes on exactly as many places as the image has bytes: `Spans` says so of a part of
an image, `spans_value` of every value.  Calls on an object's writer go on with its data in the same way,
and calls on a raw section with its cells.
-/

namespace ObjectWire

namespace Image

/-- `x` goes on behind its image. -/
def Spans (x : Sketch Wire) : Prop :=
  ∀ ⦃st w st'⦄, Gives x st w st' → st'.place = st.place + w.bytes.length

/-- A value without others inside goes on by its bytes. -/
theorem spans_atom (a : Atom) : Spans (atom a) := by
  intro st w st' h
  obtain ⟨-, rfl, rfl⟩ := (gives_atom ..).mp h
  rfl

/-- Several images go on by all their bytes. -/
theorem spans_each {α : Type} {item : α → Sketch Wire} (h : ∀ a, Spans (item a)) {as : List α}
    {st st' : Progress} {ws : List Wire} (hws : Gives (each item as) st ws st') :
    st'.place = st.place + (Wire.itemBytes ws).length := by
  induction as generalizing st ws with
  | nil =>
    obtain ⟨rfl, rfl⟩ := (gives_each_nil ..).mp hws
    rfl
  | cons a as ih =>
    obtain ⟨w, ws, st₁, hw, hrest, rfl⟩ := (gives_each_cons ..).mp hws
    rw [ih hrest, h a hw, Wire.itemBytes, List.length_append, Nat.add_assoc]

/-- A list goes on by its head and its items. -/
theorem spans_list {α : Type} {item : α → Sketch Wire} {head : ListHead} {items : List α}
    (h : ∀ a, Spans (item a)) : Spans (list item head items) := by
  intro st w st' hw
  obtain ⟨-, ws, rfl, hws⟩ := (gives_list ..).mp hw
  rw [spans_each h hws, Wire.bytes, List.length_append, length_each hws, Nat.add_assoc]

/-- A log of its own makes no difference to the place. -/
theorem spans_detached {x : Sketch Wire} (h : Spans x) : Spans (detached x) := by
  intro st w st' hw
  obtain ⟨inner, hx, rfl⟩ := (gives_detached ..).mp hw
  -- The value has a log of its own, but no place of its own.
  have hspan := h hx
  exact hspan

/-- A reference back goes on by its own bytes, not by those it stands for. -/
theorem spans_tracked {node : NodeId} {x : Sketch Wire} (h : Spans x) : Spans (tracked node x) := by
  intro st w st' hw
  cases hplace : placeOf node st.log with
  | none =>
    have hspan := h ((gives_tracked_none hplace ..).mp hw)
    exact hspan
  | some target =>
    have hspan := spans_atom _ ((gives_tracked_some hplace ..).mp hw)
    exact hspan

/-- What has no image goes nowhere. -/
theorem spans_failure : Spans failure := fun _ _ _ h => (gives_failure _ _ _ h).elim

/-- A plain value is a value without others inside that names no type, or a list of such values. -/
theorem plain_of_atoms {P : Sketch Wire → Prop} (hfailure : P failure)
    (hatom : ∀ a : Atom, a.type? = none → a.isHandle = false → P (atom a))
    (hlist : ∀ {α : Type} {item : α → Atom} {tag : Tag} {xs : List α}, (∀ x, (item x).type? = none) →
      (∀ x, (item x).isHandle = false) → P (list (fun x => atom (item x)) (.elements tag) xs))
    (r : Registry) (v : Plain) : P (plain r v) := by
  have helements : ∀ {α : Type} (f : α → Atom) (tag : Tag) (xs : List (Option α)),
      (∀ x, (f x).type? = none) → (∀ x, (f x).isHandle = false) → P (elements f tag xs) := by
    intro α f tag xs htype hhandle
    apply hlist
    · intro x
      cases x with
      | none => rfl
      | some x => exact htype x
    · intro x
      cases x with
      | none => rfl
      | some x => exact hhandle x
  cases v with
  | strings v => exact helements _ _ v (fun _ => rfl) fun _ => rfl
  | uuids v => exact helements _ _ v (fun _ => rfl) fun _ => rfl
  | dates v => exact helements _ _ v (fun _ => rfl) fun _ => rfl
  | timestamps v => exact helements _ _ v (fun _ => rfl) fun _ => rfl
  | times v => exact helements _ _ v (fun _ => rfl) fun _ => rfl
  | decimals v => exact helements _ _ v (fun _ => rfl) fun _ => rfl
  | encoded v =>
    have himage : plain r (.encoded v) = if v.start ≤ maxWireLength then
        atom (.encoded v.bytes (Int32.ofNat v.start)) else failure := rfl
    rw [himage]
    -- An encoded object that starts too far behind its front has no image.
    split
    · exact hatom _ rfl rfl
    · exact hfailure
  | _ => exact hatom _ rfl rfl

/-- A plain value goes on by its bytes. -/
theorem spans_plain (r : Registry) (v : Plain) : Spans (plain r v) := by
  apply plain_of_atoms spans_failure
  · intro a _ _
    exact spans_atom a
  · intro α item tag xs _ _
    exact spans_list fun x => spans_atom _

section

variable {r : Registry} {rec : Value → Sketch Wire} (hrec : ∀ v, Spans (rec v))

include hrec

/-- The places of a raw section and the progress of its image go on together. -/
theorem rawCall_place {first : Nat} {d d' : RawDraft} {op : RawOp} {st st' : Progress} (hd : d.Inside)
    (h : Gives (rawCall r rec first d op) st d' st') :
    d'.Inside ∧ st'.place + d.cells.length = st.place + d'.cells.length := by
  have hadd : ∀ bs, d' = d.add bs → st'.place = st.place + bs.length →
      d'.Inside ∧ st'.place + d.cells.length = st.place + d'.cells.length := by
    intro bs hd' hplace
    subst hd'
    constructor
    · exact hd.add bs
    · rw [RawDraft.length_add]
      omega
  obtain ⟨-, rfl, rfl⟩ | ⟨slot, v, offset, -, -, hs, rfl, rfl⟩ | ⟨-, hadded⟩ :=
    gives_rawCall (spans_plain r) hrec (fun v => spans_detached (hrec v)) h
  · constructor
    · exact hd.reserve
    · simp only [RawDraft.length_reserve]
      omega
  · -- A place is filled in with as many bytes as were left open.
    exact ⟨hd.fill hs (Word.length_bytes v), by rw [hd.length_fill hs (Word.length_bytes v)]⟩
  · obtain ⟨bs, hd', rfl⟩ | ⟨x, w, hx, hw, hd'⟩ := hadded
    · exact hadd bs hd' rfl
    · exact hadd w.bytes hd' (hx hw)

/-- Calls on a raw section go on as far as they make it longer. -/
theorem rawCalls_place {first : Nat} {d d' : RawDraft} {ops : List RawOp} {st st' : Progress}
    (hd : d.Inside) (h : Gives (rawCalls r rec first d ops) st d' st') :
    d'.Inside ∧ st'.place + d.cells.length = st.place + d'.cells.length := by
  induction ops generalizing d st with
  | nil =>
    obtain ⟨rfl, rfl⟩ := (gives_pure ..).mp h
    exact ⟨hd, rfl⟩
  | cons op ops ih =>
    obtain ⟨d₁, st₁, hop, hops⟩ := (gives_bind ..).mp h
    obtain ⟨hd₁, hplace⟩ := rawCall_place hrec hd hop
    obtain ⟨hd', hplace'⟩ := ih hd₁ hops
    exact ⟨hd', by omega⟩

/-- So do they as calls on the object. -/
theorem raw_place {ops : List RawOp} {d d' : Draft} {st st' : Progress} (hd : d.rawSoFar.Inside)
    (h : Gives (raw r rec ops d) st d' st') :
    d'.rawSoFar.Inside ∧ st'.place + d.data.length = st.place + d'.data.length := by
  obtain ⟨made, hmade, rfl⟩ := gives_raw.mp h
  obtain ⟨hinside, hplace⟩ := rawCalls_place hrec hd hmade
  refine ⟨hinside, ?_⟩
  -- The fields stay as they are, and so the data grows by as much as the raw section.
  show st'.place + (d.fieldBytes ++ d.rawSoFar.bytes).length =
    st.place + (d.fieldBytes ++ made.bytes).length
  simp only [RawDraft.bytes, List.length_append, List.length_map]
  omega

omit hrec in
/-- What a field that was made looks like. -/
theorem gives_field {start : Nat} {id : Int32} {fold : Bool} {y : Sketch Wire} {d d' : Draft}
    {st st' : Progress} (h : Gives (field start id fold y d) st d' st') :
    d.raw = none ∧ (∀ f ∈ d.fields, f.id ≠ id) ∧ ∃ w, Gives y st w st' ∧
      d' = { d with
        fields := d.fields ++ [⟨id, st.place - start, st'.place, w⟩]
        schemaId := if fold then SchemaId.push d.schemaId id else d.schemaId } := by
  simp only [field, gives_bind, gives_guard, gives_place, gives_pure] at h
  obtain ⟨_, _, ⟨⟨hraw, hnew⟩, rfl⟩, _, _, ⟨rfl, rfl⟩, w, _, hw, _, _, ⟨rfl, rfl⟩, rfl, rfl⟩ := h
  exact ⟨Option.isNone_iff_eq_none.mp hraw, hnew, w, hw, rfl⟩

omit hrec in
/-- A field goes on by the bytes of its value, which are its part of the data. -/
theorem field_place {start : Nat} {id : Int32} {fold : Bool} {y : Sketch Wire} {d d' : Draft}
    {st st' : Progress} (hy : Spans y) (h : Gives (field start id fold y d) st d' st') :
    d'.rawSoFar.Inside ∧ st'.place + d.data.length = st.place + d'.data.length := by
  obtain ⟨hnone, -, w, hw, rfl⟩ := gives_field h
  have hplace := hy hw
  constructor
  · exact Draft.rawSoFar_of_none (d := d) hnone ▸ .empty
  · rw [Draft.data_of_none hnone, Draft.data_of_none (by exact hnone)]
    simp only [Draft.fieldBytes, List.flatMap_append, List.length_append, List.flatMap_singleton]
    omega

/-- The data of an object and the progress of its image go on together. -/
theorem call_place {start : Nat} {op : ObjectOp} {d d' : Draft} {st st' : Progress}
    (hd : d.rawSoFar.Inside) (h : Gives (call r rec start d op) st d' st') :
    d'.rawSoFar.Inside ∧ st'.place + d.data.length = st.place + d'.data.length := by
  obtain ⟨id, fold, y, hy, h⟩ | ⟨ops, h⟩ | ⟨schemaId, rfl, rfl⟩ :=
    gives_call (spans_plain r) hrec (fun v => spans_detached (hrec v)) h
  · exact field_place hy h
  · exact raw_place hrec hd h
  · exact ⟨hd, rfl⟩

/-- Calls one after the other go on as far as they make the data longer. -/
theorem calls_place {start : Nat} {ops : List ObjectOp} {d d' : Draft} {st st' : Progress}
    (hd : d.rawSoFar.Inside) (h : Gives (calls r rec start d ops) st d' st') :
    st'.place + d.data.length = st.place + d'.data.length := by
  induction ops generalizing d st with
  | nil =>
    obtain ⟨rfl, rfl⟩ := (gives_pure ..).mp h
    rfl
  | cons op ops ih =>
    obtain ⟨d₁, st₁, hop, hops⟩ := (gives_bind ..).mp h
    obtain ⟨hd₁, hplace⟩ := call_place hrec hd hop
    have := ih hd₁ hops
    omega

end

/-- The bytes of a finished object end where its progress does. -/
theorem length_object {start : Nat} {typeId : Int32} {name : Option Bytes} {userType compact : Bool}
    {d : Draft} {st : Progress} {hashCode : Int32} {header : Header} (place : Nat)
    (hd : st.place = start + frontLength name + d.data.length)
    (hheader : header = d.header typeId userType compact (st.place - start)
      (st.place + d.tailLength compact - start) hashCode) :
    (Wire.object place header name (d.fields.map (·.shown compact)) d.rawBytes?).bytes.length =
      st.place + d.tailLength compact - start := by
  have hflags : header.flags = (if userType then Flag.userType else 0) |||
      (if compact then Flag.compactFooter else 0) ||| d.flags := by rw [hheader]; rfl
  have hwidth : d.fields.isEmpty = false → OffsetWidth.ofFlags header.flags = d.width :=
    fun hne => hflags ▸ ofFlags_header userType compact hne
  -- Header, name, data and tail, one behind the other.
  rw [bytes_object d place name compact hwidth]
  simp only [List.length_append, Header.length_bytes, Draft.length_tail]
  simp only [frontLength] at hd
  omega

section

variable {r : Registry} {rec : Value → Sketch Wire} (hrec : ∀ v, Spans (rec v))

/-- An object taken apart: the calls go to a draft behind the header and the name, and the object is made
    of the draft. -/
theorem gives_frame {typeId : Int32} {name : Option Bytes} {userType : Bool} {ops : List ObjectOp}
    {st st' : Progress} {w : Wire} (h : Gives (frame r rec typeId name userType ops) st w st') :
    (∀ text ∈ name, text.length ≤ maxWireLength) ∧ ∃ d st₁,
      Gives (calls r rec st.place {} ops) { st with place := st.place + frontLength name } d st₁ ∧
      Gives (finish r st.place typeId name userType d) st₁ w st' := by
  simp only [frame, gives_bind, gives_place, gives_guard, gives_advance] at h
  obtain ⟨_, _, ⟨rfl, rfl⟩, _, _, ⟨hshort, rfl⟩, _, _, rfl, d, st₁, hd, hfinish⟩ := h
  refine ⟨fun text ht => ?_, d, st₁, hd, hfinish⟩
  rw [Option.all_eq_true] at hshort
  exact of_decide_eq_true (hshort text ht)

include hrec

/-- An object goes on by its header, its name, its data and what follows them. -/
theorem spans_frame {typeId : Int32} {name : Option Bytes} {userType : Bool} {ops : List ObjectOp} :
    Spans (frame r rec typeId name userType ops) := by
  intro st w st' h
  obtain ⟨-, d, st₁, hd, hfinish⟩ := gives_frame h
  have hfront : st₁.place = st.place + frontLength name + d.data.length :=
    calls_place hrec (by exact .empty) hd
  obtain ⟨-, rfl, rfl⟩ := (gives_finish r _ _ _ _ _ _ _ _ _ rfl).mp hfinish
  rw [length_object _ hfront rfl]
  show st₁.place + _ = _
  omega

/-- An object goes on by its bytes whether its type is registered or not. -/
theorem spans_object (o : UserObject) : Spans (object r rec o) := by
  unfold object
  split
  · exact spans_frame hrec
  · exact spans_frame hrec

/-- What takes the place of an object goes on by its own bytes. -/
theorem spans_substitute (v : Value) : Spans (substitute r rec v) := by
  intro st w st' h
  obtain ⟨other, o, -, -, h⟩ | ⟨-, h⟩ := (gives_substitute ..).mp h
  · exact spans_tracked (spans_object hrec o) h
  · exact hrec v h

/-- An object goes on by its bytes whether it gives way or not. -/
theorem spans_objectNode (id : NodeId) (o : UserObject) : Spans (objectNode r rec id o) := by
  cases hreplacement : o.replacement with
  | none =>
    rw [objectNode, hreplacement]
    exact spans_tracked (spans_object hrec o)
  | some replacement =>
    intro st w st' h
    have hspan := spans_substitute hrec _ ((gives_replaced _ _ hreplacement).mp h)
    exact hspan

/-- A node goes on by its bytes if the values inside it do. -/
theorem spans_node (id : NodeId) (n : Node) : Spans (node r rec id n) := by
  cases n with
  | object o => exact spans_objectNode hrec id o
  | array componentType items => exact spans_tracked (spans_list hrec)
  | collection typeName items => exact spans_tracked (spans_list hrec)
  | map typeName entries => exact spans_tracked (spans_list hrec)
  | proxy interfaces handler => exact spans_list hrec

/-- So does a value: one level of the induction over the depth. -/
theorem spans_valueWith (v : Value) : Spans (valueWith r rec v) := by
  cases v with
  | plain v => exact spans_plain r v
  | enum v => exact spans_atom _
  | enumArray typeName items => exact spans_list fun item => spans_atom _
  | binaryEnum v => exact spans_atom _
  | classRef typeName => exact spans_atom _
  | ref id =>
    intro st w st' h
    obtain ⟨n, -, h⟩ := (gives_ref ..).mp h
    exact spans_node hrec id n h

end

/-- The image of a value ends where its progress does. -/
theorem spans_value (r : Registry) (depth : Nat) (v : Value) : Spans (value r depth v) := by
  induction depth generalizing v with
  | zero => exact spans_failure
  | succ depth ih => exact spans_valueWith ih v

end Image

end ObjectWire
