import ObjectWire.Proofs.ImageTrace

/-!
# Objects keep the log

The lines that an object's calls add are shown by the object's data.  A raw section needs more care than a
field: a place in it may be filled in after values were written behind it, and even twice.  But no value
stands in such a place, so the bytes outside all places left open are enough (`RawDraft.Agrees`).
-/

namespace ObjectWire

open Reader

namespace Image

/-- A cell belongs to a place that was left open. -/
def RawDraft.Reserved (d : RawDraft) (i : Nat) : Prop :=
  ∃ slot offset : Nat, d.slots[slot]? = some offset ∧ offset ≤ i ∧ i < offset + 4

/-- The bytes from a place on agree with a raw section, but for the places left open in it. -/
structure RawDraft.Agrees (d : RawDraft) (start : Nat) (bs : Bytes) : Prop where
  long : start + d.cells.length ≤ bs.length
  same : ∀ i b, d.cells[i]? = some (some b) → ¬ d.Reserved i → bs[start + i]? = some b

/-- Bytes that stand at a place stand there one by one. -/
theorem holds_of_getElem? {bs seg : Bytes} {place : Nat} (hle : place + seg.length ≤ bs.length)
    (h : ∀ i b, seg[i]? = some b → bs[place + i]? = some b) : Holds bs place seg := by
  refine ⟨by omega, List.prefix_iff_getElem?.mpr fun i hi => ?_⟩
  rw [List.getElem?_drop]
  exact h i _ (List.getElem?_eq_getElem hi)

/-- A byte of what stands at a place is the byte found there. -/
theorem getElem?_of_holds {bs seg : Bytes} {place i : Nat} {b : UInt8} (h : Holds bs place seg)
    (hb : seg[i]? = some b) : bs[place + i]? = some b := by
  obtain ⟨hi, rfl⟩ := List.getElem?_eq_some_iff.mp hb
  have hget := List.prefix_iff_getElem?.mp h.2 i hi
  rwa [List.getElem?_drop] at hget

/-- What agrees with a longer section agrees with the shorter one and shows the bytes added. -/
theorem RawDraft.Agrees.of_add {d : RawDraft} {start : Nat} {bs seg : Bytes} (hd : d.Inside)
    (h : (d.add seg).Agrees start bs) : d.Agrees start bs ∧ Holds bs (start + d.cells.length) seg := by
  have hlong := h.long
  rw [RawDraft.length_add] at hlong
  constructor
  · refine ⟨by omega, fun i b hb hout => h.same i b ?_ hout⟩
    exact (List.getElem?_append_left (List.getElem?_eq_some_iff.mp hb).1).trans hb
  · apply holds_of_getElem? (by omega)
    intro i b hb
    rw [Nat.add_assoc]
    apply h.same _ b
    · simp only [RawDraft.add]
      rw [List.getElem?_append_right (Nat.le_add_right ..), Nat.add_sub_cancel_left,
        List.getElem?_map, hb]
      rfl
    · -- A place left open lies before the bytes added.
      intro hreserved
      obtain ⟨slot, offset, hs, -, hlt⟩ := hreserved
      have := hd slot offset hs
      omega

/-- A place left open at the end asks nothing of the bytes, so what agrees with it agrees without it. -/
theorem RawDraft.Agrees.of_reserve {d : RawDraft} {start : Nat} {bs : Bytes}
    (h : d.reserve.Agrees start bs) : d.Agrees start bs := by
  have hlong := h.long
  rw [RawDraft.length_reserve] at hlong
  refine ⟨by omega, fun i b hb hout => h.same i b ?_ ?_⟩
  · exact (List.getElem?_append_left (List.getElem?_eq_some_iff.mp hb).1).trans hb
  · -- The new place lies behind all cells there were.
    have hlt := (List.getElem?_eq_some_iff.mp hb).1
    intro hreserved
    obtain ⟨slot, offset, hs, hle, hlt'⟩ := hreserved
    rw [RawDraft.reserve, List.getElem?_append] at hs
    split at hs
    · exact hout ⟨slot, offset, hs, hle, hlt'⟩
    · have := List.mem_singleton.mp (List.mem_of_getElem? hs)
      omega

/-- Filling in a place changes nothing outside of it. -/
theorem RawDraft.Agrees.of_fill {d : RawDraft} {start slot offset : Nat} {bs seg : Bytes}
    (hd : d.Inside) (hs : d.slots[slot]? = some offset) (hlen : seg.length = 4)
    (h : (d.fill offset seg).Agrees start bs) : d.Agrees start bs := by
  have hin := hd slot offset hs
  have hlong := h.long
  rw [hd.length_fill hs hlen] at hlong
  refine ⟨hlong, fun i b hb hout => h.same i b ?_ hout⟩
  -- A cell that no place was left open for is not in the place filled in.
  have hi : i < offset ∨ offset + 4 ≤ i := by
    by_cases hlt : i < offset
    · exact .inl hlt
    · right
      by_contra hge
      exact hout ⟨slot, offset, hs, by omega, by omega⟩
  have htake : (d.cells.take offset).length = offset := List.length_take_of_le (by omega)
  simp only [RawDraft.fill, List.append_assoc, List.getElem?_append, htake, List.length_map, hlen]
  rcases hi with hi | hi
  · rw [if_pos hi, List.getElem?_take, if_pos hi]
    exact hb
  · rw [if_neg (by omega), if_neg (by omega), List.getElem?_drop]
    have : offset + 4 + (i - offset - 4) = i := by omega
    rw [this]
    exact hb

/-- A finished raw section agrees with its bytes. -/
theorem agrees_bytes {d : RawDraft} {start : Nat} {bs : Bytes} (h : Holds bs start d.bytes) :
    d.Agrees start bs := by
  refine ⟨?_, fun i b hb _ => getElem?_of_holds h ?_⟩
  · have := h.length_le
    rwa [RawDraft.bytes, List.length_map] at this
  · rw [RawDraft.bytes, List.getElem?_map, hb]
    rfl

/-- The references back in the fields of a draft. -/
def Draft.references (d : Draft) : List (Nat × Nat) := d.fields.flatMap (·.value.references)

/-- The references back in the fields are those of their values, whatever else is told of the fields. -/
theorem fieldReferences_shown (fields : List Placed) (compact : Bool) :
    Wire.fieldReferences (fields.map (·.shown compact)) = fields.flatMap (·.value.references) := by
  induction fields with
  | nil => rfl
  | cons f fields ih =>
    rw [List.map_cons, List.flatMap_cons, ← ih]
    rfl

/-- The bytes from `front` on are those of a draft's fields, and agree behind these with its raw section. -/
structure Draft.Agrees (d : Draft) (front : Nat) (bs : Bytes) : Prop where
  fields : Holds bs front d.fieldBytes
  raw : d.rawSoFar.Agrees (front + d.fieldBytes.length) bs

/-- The bytes of an object's data agree with its draft. -/
theorem Draft.agrees_data {d : Draft} {front : Nat} {bs : Bytes} (h : Holds bs front d.data) :
    d.Agrees front bs := by
  obtain ⟨hfields, hraw⟩ := holds_append.mp h
  exact ⟨hfields, agrees_bytes hraw⟩

/-- A step of an object whose data begins at `front`.  What it met is shown by all that agrees with the
    draft behind it, and so is all that was met before. -/
structure Draft.Steps (front : Nat) (d d' : Draft) (st st' : Progress) : Prop where
  met : ∃ refs, d'.references = d.references ++ refs ∧ Met (d'.Agrees front) refs st.place st st'
  agrees : ∀ bs, d'.Agrees front bs → d.Agrees front bs

namespace Draft.Steps

variable {front : Nat} {d d₁ d' : Draft} {st st₁ st' : Progress}

theorem sound (h : Steps front d d' st st') : Sound st'.place st'.log := by
  obtain ⟨refs, -, hmet⟩ := h.met
  exact hmet.sound

/-- A step that leaves fields and raw section as they are. -/
theorem same (hsound : Sound st.place st.log) (hfields : d'.fields = d.fields) (hraw : d'.raw = d.raw) :
    Steps front d d' st st where
  met := by
    refine ⟨[], ?_, .nothing hsound rfl rfl (Nat.le_refl _)⟩
    rw [references, hfields, List.append_nil]
    rfl
  agrees bs hbs := by
    obtain ⟨hbytes, hsection⟩ := hbs
    rw [fieldBytes, hfields] at hbytes hsection
    rw [rawSoFar, hraw] at hsection
    exact ⟨hbytes, hsection⟩

/-- One step and another one are one step. -/
theorem trans (h : Steps front d d₁ st st₁) (h' : Steps front d₁ d' st₁ st') :
    Steps front d d' st st' where
  met := by
    obtain ⟨refs, hrefs, hmet⟩ := h.met
    obtain ⟨refs', hrefs', hmet'⟩ := h'.met
    refine ⟨refs ++ refs', ?_, hmet.trans hmet' h'.agrees fun _ hbs => hbs⟩
    rw [hrefs', hrefs, List.append_assoc]
  agrees bs hbs := h.agrees bs (h'.agrees bs hbs)

end Draft.Steps

/-- The value of a field stands behind the fields before it, and before a raw section. -/
theorem field_steps {front start : Nat} {id : Int32} {fold : Bool} {y : Sketch Wire} {d d' : Draft}
    {st st' : Progress} (hy : Traces y) (hplace : st.place = front + d.data.length)
    (hsound : Sound st.place st.log) (h : Gives (field start id fold y d) st d' st') :
    d.Steps front d' st st' := by
  obtain ⟨hnone, -, w, hw, rfl⟩ := gives_field h
  rw [Draft.data_of_none hnone] at hplace
  -- In a draft with the new field the old fields come first, and its value follows them.
  have hfields : ∀ {bs front'}, Holds bs front'
      (Draft.fieldBytes { d with fields := d.fields ++ [⟨id, st.place - start, st'.place, w⟩] }) →
        Holds bs front' d.fieldBytes ∧ Holds bs (front' + d.fieldBytes.length) w.bytes := by
    intro bs front' hbs
    rw [Draft.fieldBytes, List.flatMap_append, List.flatMap_singleton] at hbs
    exact holds_append.mp hbs
  constructor
  · refine ⟨w.references, by simp [Draft.references], ?_⟩
    apply (hy hsound hw).weaken _ (List.Subset.refl _) (Nat.le_refl _)
    intro bs hbs
    rw [hplace]
    exact (hfields hbs.fields).2
  · intro bs hbs
    obtain ⟨hold, hvalue⟩ := hfields hbs.fields
    refine ⟨hold, ?_⟩
    -- The raw section is not begun, so it asks for nothing.
    rw [Draft.rawSoFar_of_none hnone]
    exact ⟨Nat.le_trans (Nat.le_add_right ..) hvalue.length_le, by simp⟩

section

variable {r : Registry} {rec : Value → Sketch Wire} (hspans : ∀ v, Spans (rec v))
  (hrec : ∀ v, Traces (rec v))

include hrec

/-- What a call on a raw section met is shown by what agrees with the section. -/
theorem rawCall_met {first start : Nat} {d d' : RawDraft} {op : RawOp} {st st' : Progress}
    (hd : d.Inside) (hplace : st.place = start + d.cells.length) (hsound : Sound st.place st.log)
    (h : Gives (rawCall r rec first d op) st d' st') :
    Met (d'.Agrees start) [] st.place st st' ∧ ∀ bs, d'.Agrees start bs → d.Agrees start bs := by
  obtain ⟨-, rfl, rfl⟩ | ⟨slot, v, offset, -, -, hs, rfl, rfl⟩ | ⟨-, hadded⟩ :=
    gives_rawCall (traces_plain r) hrec (fun v => traces_detached (hrec v)) h
  · have hle : st.place ≤ st.place + 4 := Nat.le_add_right ..
    exact ⟨.nothing (hsound.mono hle) rfl rfl hle, fun bs hbs => hbs.of_reserve⟩
  · exact ⟨.nothing hsound rfl rfl (Nat.le_refl _),
      fun bs hbs => hbs.of_fill hd hs (Word.length_bytes v)⟩
  · obtain ⟨added, rfl, rfl⟩ | ⟨x, w, hx, hw, rfl⟩ := hadded
    · have hle : st.place ≤ st.place + added.length := Nat.le_add_right ..
      exact ⟨.nothing (hsound.mono hle) rfl rfl hle, fun bs hbs => (hbs.of_add hd).1⟩
    · -- The bytes of a value stand behind all cells there were.
      refine ⟨(hx hsound hw).weaken (fun bs hbs => ?_) (List.nil_subset _) (Nat.le_refl _),
        fun bs hbs => (hbs.of_add hd).1⟩
      rw [hplace]
      exact (hbs.of_add hd).2

include hspans

/-- What a run of calls on a raw section met is shown by the section as the last of them leaves it. -/
theorem rawCalls_met {first start : Nat} {d d' : RawDraft} {ops : List RawOp} {st st' : Progress}
    (hd : d.Inside) (hplace : st.place = start + d.cells.length) (hsound : Sound st.place st.log)
    (h : Gives (rawCalls r rec first d ops) st d' st') :
    Met (d'.Agrees start) [] st.place st st' ∧ ∀ bs, d'.Agrees start bs → d.Agrees start bs := by
  -- Call by call: the section grows, so what agrees with its last state agrees with each one before.
  induction ops generalizing d st with
  | nil =>
    obtain ⟨rfl, rfl⟩ := (gives_pure ..).mp h
    exact ⟨.nothing hsound rfl rfl (Nat.le_refl _), fun bs hbs => hbs⟩
  | cons op ops ih =>
    obtain ⟨d₁, st₁, hop, hops⟩ := (gives_bind ..).mp h
    obtain ⟨hmet, hagrees⟩ := rawCall_met hrec hd hplace hsound hop
    obtain ⟨hd₁, hplace₁⟩ := rawCall_place hspans hd hop
    obtain ⟨hmet', hagrees'⟩ := ih hd₁ (by omega) hmet.sound hops
    exact ⟨hmet.trans hmet' hagrees' fun _ hbs => hbs, fun bs hbs => hagrees bs (hagrees' bs hbs)⟩

/-- A group of calls on the raw section is a step of the object, wherever the section stands by then. -/
theorem raw_steps {front : Nat} {ops : List RawOp} {d d' : Draft} {st st' : Progress}
    (hd : d.rawSoFar.Inside) (hplace : st.place = front + d.data.length)
    (hsound : Sound st.place st.log) (h : Gives (raw r rec ops d) st d' st') :
    d.Steps front d' st st' := by
  obtain ⟨made, hmade, rfl⟩ := gives_raw.mp h
  -- Data come from the fields first, so the raw section starts behind these.
  have hstart : st.place = front + d.fieldBytes.length + d.rawSoFar.cells.length := by
    rw [hplace, Draft.data, RawDraft.bytes, List.length_append, List.length_map, Nat.add_assoc]
  obtain ⟨hmet, hagrees⟩ := rawCalls_met hspans hrec hd hstart hsound hmade
  constructor
  · refine ⟨[], (List.append_nil _).symm, ?_⟩
    exact hmet.weaken (fun bs hbs => hbs.raw) (List.Subset.refl _) (Nat.le_refl _)
  · exact fun bs hbs => ⟨hbs.fields, hagrees bs hbs.raw⟩

/-- Each call on an object's writer is a step: it adds a field, goes on in the raw section, or leaves
    both alone. -/
theorem call_steps {front start : Nat} {op : ObjectOp} {d d' : Draft} {st st' : Progress}
    (hd : d.rawSoFar.Inside) (hplace : st.place = front + d.data.length)
    (hsound : Sound st.place st.log) (h : Gives (call r rec start d op) st d' st') :
    d.Steps front d' st st' := by
  obtain ⟨id, fold, y, hy, h⟩ | ⟨ops, h⟩ | ⟨schemaId, rfl, rfl⟩ :=
    gives_call (traces_plain r) hrec (fun v => traces_detached (hrec v)) h
  · exact field_steps hy hplace hsound h
  · exact raw_steps hspans hrec hd hplace hsound h
  · exact .same hsound rfl rfl

/-- The calls on an object's writer are shown by the data they make. -/
theorem calls_steps {front start : Nat} {ops : List ObjectOp} {d d' : Draft} {st st' : Progress}
    (hd : d.rawSoFar.Inside) (hplace : st.place = front + d.data.length)
    (hsound : Sound st.place st.log) (h : Gives (calls r rec start d ops) st d' st') :
    d.Steps front d' st st' := by
  induction ops generalizing d st with
  | nil =>
    obtain ⟨rfl, rfl⟩ := (gives_pure ..).mp h
    exact .same hsound rfl rfl
  | cons op ops ih =>
    obtain ⟨d₁, st₁, hop, hops⟩ := (gives_bind ..).mp h
    have hstep := call_steps hspans hrec hd hplace hsound hop
    obtain ⟨hd₁, hplace₁⟩ := call_place hspans hd hop
    exact hstep.trans (ih hd₁ (by omega) hstep.sound hops)

/-- An object made by calls begins with its tag and shows what its calls met. -/
theorem headed_frame {typeId : Int32} {name : Option Bytes} {userType : Bool} {ops : List ObjectOp} :
    Headed .object (frame r rec typeId name userType ops) := by
  intro st w st' hsound h
  obtain ⟨-, d, st₁, hd, hfinish⟩ := gives_frame h
  have hle : st.place + 1 ≤ st.place + frontLength name := by
    simp only [frontLength, Header.size]
    omega
  have hsound' : Sound (st.place + frontLength name) st.log := hsound.mono hle
  -- The calls start behind the header and the name, with nothing drafted yet.
  obtain ⟨refs, hrefs, hmet⟩ :=
    (calls_steps hspans hrec (by exact .empty) (by exact rfl) (by exact hsound') hd).met
  obtain ⟨-, rfl, rfl⟩ := (gives_finish r _ _ _ _ _ _ _ _ _ rfl).mp hfinish
  refine ⟨⟨_, rfl⟩, ?_⟩
  rw [Wire.references, fieldReferences_shown]
  -- The footer and what stands behind it meet nothing.
  have htail : Met (fun _ => True) [] st₁.place st₁
      { st₁ with place := st₁.place + d.tailLength (userType && r.config.compactFooter) } :=
    .nothing (hmet.sound.mono (Nat.le_add_right ..)) rfl rfl (Nat.le_add_right ..)
  have hall := (hmet.trans htail (fun bs hbs => hbs) fun _ _ => trivial).moved
  refine hall.weaken (fun bs hbs => ?_) ?_ hle
  · -- The data stand between the header with the name and the footer.
    have hfront : ∀ header : Header, (header.bytes ++ name.elim [] nameBytes).length = frontLength name :=
      fun header => by rw [List.length_append, Header.length_bytes, frontLength]
    rw [bytes_parts, fieldBytes_shown, ← List.append_assoc, holds_append, hfront,
      ← List.append_assoc, Draft.getD_rawBytes?] at hbs
    exact d.agrees_data (holds_append.mp hbs.2).1
  · rw [List.append_nil]
    have hall : d.references = refs := hrefs
    exact hall ▸ List.Subset.refl _

/-- So does a dynamic object, whose fields are calls that the library makes. -/
theorem headed_object (o : UserObject) : Headed .object (object r rec o) := by
  unfold object
  split
  · exact headed_frame hspans hrec
  · exact headed_frame hspans hrec

/-- A replacement is met like a value, or as an object that is recorded under its own number. -/
theorem substitute_met {v : Value} {st st' : Progress} {w : Wire} (hsound : Sound st.place st.log)
    (h : Gives (substitute r rec v) st w st') :
    Met (Holds · st.place w.bytes) w.references st.place st st' := by
  obtain ⟨other, o, -, ho, h⟩ | ⟨-, h⟩ := (gives_substitute ..).mp h
  · exact traces_tracked (headed_object hspans hrec o) (Graph.object?_eq_some ho) rfl hsound h
  · exact hrec v hsound h

/-- An object is met as itself or as its replacement. -/
theorem objectNode_met {id : NodeId} {o : UserObject} {st st' : Progress} {w : Wire}
    (ho : st.graph.node? id = some (.object o)) (hsound : Sound st.place st.log)
    (h : Gives (objectNode r rec id o) st w st') :
    Met (Holds · st.place w.bytes) w.references st.place st st' := by
  cases hreplacement : o.replacement with
  | none =>
    rw [objectNode, hreplacement] at h
    exact traces_tracked (headed_object hspans hrec o) ho rfl hsound h
  | some replacement =>
    -- The object itself is not recorded: its line has no place.
    have hsound' : Sound st.place (.replaced id st.place :: st.log) :=
      ⟨.replaced hsound.linked, hsound.before⟩
    obtain ⟨new, hadded⟩ :=
      substitute_met hspans hrec (by exact hsound') ((gives_replaced _ _ hreplacement).mp h)
    have hgraph := Graph.extends_instantiate st.graph replacement
    have hmet : Met (Holds · st.place w.bytes) w.references st.place
        { st with log := .replaced id st.place :: st.log } st' :=
      ⟨new, hadded.sound, hadded.log, hgraph.trans hadded.graph, hadded.le, hadded.ordered,
        hadded.inside, hadded.shown, hadded.refs⟩
    refine hmet.noted .nil (fun p hp => ?_) (Nat.le_refl _) fun bs _ o' ho' => ?_
    · cases hp
    · rw [List.mem_singleton.mp ho']
      exact ⟨o, Graph.object?_of_node? (hgraph.trans hadded.graph _ _ ho), by rw [hreplacement]; rfl⟩

/-- Each kind of node shows what is met in it, and that is its line in the log too. -/
theorem node_met {id : NodeId} {n : Node} {st st' : Progress} {w : Wire}
    (hn : st.graph.node? id = some n) (hsound : Sound st.place st.log)
    (h : Gives (node r rec id n) st w st') :
    Met (Holds · st.place w.bytes) w.references st.place st st' := by
  cases n with
  | object o => exact objectNode_met hspans hrec hn hsound h
  | array componentType items => exact traces_tracked (headed_list hspans hrec) hn rfl hsound h
  | collection typeName items => exact traces_tracked (headed_list hspans hrec) hn rfl hsound h
  | map typeName entries => exact traces_tracked (headed_list hspans hrec) hn rfl hsound h
  | proxy interfaces handler => exact (headed_list hspans hrec).traces hsound h

/-- If the values inside do, every value shows what was met in it. -/
theorem traces_valueWith (v : Value) : Traces (valueWith r rec v) := by
  cases v with
  | plain v => exact traces_plain r v
  | enum v => exact traces_atom rfl
  | enumArray typeName items =>
    refine (headed_list (fun item => spans_atom _) fun item => traces_atom ?_).traces
    cases item with
    | none => rfl
    | some v => rfl
  | binaryEnum v => exact traces_atom rfl
  | classRef typeName => exact traces_atom rfl
  | ref id =>
    intro st w st' hsound h
    obtain ⟨n, hn, h⟩ := (gives_ref ..).mp h
    exact node_met hspans hrec hn hsound h

end

/-- The image of a value keeps its log. -/
theorem traces_value (r : Registry) (depth : Nat) (v : Value) : Traces (value r depth v) := by
  -- By induction on the depth: the values inside a value are met at one level less.
  induction depth generalizing v with
  | zero => exact traces_failure
  | succ depth ih => exact traces_valueWith (spans_value r depth) ih v

end Image

end ObjectWire
