import ObjectWire.Proofs.ObjectImage

/-!
# Raw sections as their images

A call on the raw section of an object takes the section's draft one step on: it adds bytes behind its end,
leaves a place open there (`Drafted.reserve`), or fills in a place that some call before has left open
(`Drafted.fill`).  How long ago that was, and what was written since, makes no difference.
-/

namespace ObjectWire

open ObjectWire.Action Image WriteM

section

variable {r : Registry} {base : Nat} {o₀ o o' : OpenObject} {st st' : Progress} {d : Draft}
  {raw : RawDraft}

namespace Drafted

/-- The raw section begins behind the fields, unless it was begun before. -/
theorem enter (h : Drafted r base o₀ o st d) {u : Unit} (hx : ObjectM.enterRaw.Yields o u o') :
    Drafted r base o₀ o' st { d with raw := some d.rawSoFar } := by
  obtain rfl := ObjectM.enterRaw_yields hx
  refine ⟨h.follows, ?_, h.data, h.inside, h.fields, h.offsets⟩
  have hstart : o.writer.rawStart.getD o.session.tape.cursor =
      o₀.session.tape.cursor + d.fieldBytes.length := by
    rw [h.writer]
    cases hraw : d.raw with
    | some raw => rfl
    | none => rw [h.cursor, Draft.data_of_none hraw]; rfl
  rw [hstart, h.writer]
  rfl

/-- Whatever is written behind the section's end makes it longer. -/
theorem add (h : Drafted r base o₀ o st { d with raw := some raw }) {s' : Session} {new : Bytes}
    (hf : Follows r base s' st') (ha : o.session.tape.Appended s'.tape new)
    (hfields : s'.fields = o.session.fields) :
    Drafted r base o₀ { o with session := s' } st' { d with raw := some (raw.add new) } where
  follows := hf
  writer := h.writer
  data := by
    obtain ⟨bs, hbs, hcells⟩ := h.data
    refine ⟨bs ++ new, ?_, List.rel_append hcells (covers_some new)⟩
    rw [← List.append_assoc]
    exact hbs.trans ha
  inside := RawDraft.Inside.add h.inside new
  fields := by
    show s'.fields.entries = _
    rw [hfields]
    exact h.fields
  offsets := h.offsets

/-- Room left open shows what lay there before. -/
theorem reserve (h : Drafted r base o₀ o st { d with raw := some raw }) {s' : Session} {hole : Bytes}
    (hlen : hole.length = 4) (hl : Laid o.session s' hole) :
    Drafted r base o₀
      ⟨{ o.writer with slots := o.writer.slots ++ [o.session.tape.cursor] }, s'⟩
      { st with place := st.place + 4 }
      { d with raw := some raw.reserve } where
  follows := hlen ▸ h.follows.laid hl
  writer := by
    -- The place is as far behind the section's start as the section is long.
    have hcursor : o.session.tape.cursor =
        o₀.session.tape.cursor + d.fieldBytes.length + raw.cells.length := by
      have hdata := h.cursor
      rw [Draft.data, RawDraft.bytes, List.length_append, List.length_map, ← Nat.add_assoc] at hdata
      exact hdata
    rw [hcursor, h.writer]
    simp only [RawDraft.reserve, Draft.rawSoFar, Option.getD_some, Option.map_some,
      List.map_append, List.map_cons, List.map_nil]
    rfl
  data := by
    obtain ⟨bs, hbs, hcells⟩ := h.data
    refine ⟨bs ++ hole, ?_, List.rel_append hcells (hlen ▸ covers_none hole)⟩
    rw [← List.append_assoc]
    exact hbs.trans hl.tape
  inside := RawDraft.Inside.reserve h.inside
  fields := by
    show s'.fields.entries = _
    rw [hl.fields]
    exact h.fields
  offsets := h.offsets

/-- A place filled in shows its word, and nothing around it changes. -/
theorem fill (h : Drafted r base o₀ o st { d with raw := some raw }) {slot : Nat} {v : Int32} {u : Unit}
    (hx : (ObjectM.fillSlot slot v).Yields o u o') :
    ∃ offset, raw.slots[slot]? = some offset ∧
      Drafted r base o₀ o' st { d with raw := some (raw.fill offset (Word.bytes v)) } := by
  simp only [ObjectM.fillSlot, yields_bind, ObjectM.yields_writer] at hx
  obtain ⟨_, _, ⟨rfl, rfl⟩, hx⟩ := hx
  split at hx
  swap
  · exact (yields_stop _ _ _ _ hx).elim
  next position hslot =>
  obtain ⟨s', hpatch, rfl⟩ := (ObjectM.yields_inSession ..).mp hx
  obtain ⟨t, ht, rfl⟩ := (yields_onTape ..).mp hpatch
  -- A place that the writer knows is one of the draft's.
  rw [h.writer] at hslot
  simp only [Draft.rawSoFar, Option.getD_some, List.getElem?_map, Option.map_eq_some_iff] at hslot
  obtain ⟨offset, hoffset, rfl⟩ := hslot
  refine ⟨offset, hoffset, ?_⟩
  -- The place lies inside the section, which falls into what is before, in and behind it.
  obtain ⟨bs, hbs, hcells⟩ : ∃ bs, o₀.session.tape.Appended o.session.tape (d.fieldBytes ++ bs) ∧
      List.Forall₂ Covers raw.cells bs := h.data
  have hin : offset + 4 ≤ raw.cells.length := h.inside slot offset hoffset
  have hlength : raw.cells.length = bs.length := hcells.length_eq
  have hfront : (d.fieldBytes ++ bs.take offset).length = d.fieldBytes.length + offset := by
    rw [List.length_append, List.length_take_of_le (by omega)]
  have hold : ((bs.drop offset).take 4).length = 4 := by
    rw [List.length_take, List.length_drop]
    omega
  have hsplit : d.fieldBytes ++ bs =
      d.fieldBytes ++ bs.take offset ++ (bs.drop offset).take 4 ++ bs.drop (offset + 4) := by
    rw [List.append_assoc, List.append_assoc, ← List.drop_drop, List.take_append_drop,
      List.take_append_drop]
  have ha : o₀.session.tape.Appended t
      (d.fieldBytes ++ bs.take offset ++ Word.bytes v ++ bs.drop (offset + 4)) := by
    have hplace : o₀.session.tape.cursor + (d.fieldBytes ++ bs.take offset).length =
        o₀.session.tape.cursor + d.fieldBytes.length + offset := by rw [hfront, Nat.add_assoc]
    exact Tape.Appended.patched (hsplit ▸ hbs) ((Word.length_bytes v).trans hold.symm)
      (by rwa [hplace])
  have hcursor : t.cursor = o.session.tape.cursor := by
    have hsame := congrArg List.length hsplit
    rw [ha.cursor, hbs.cursor, hsame]
    simp only [List.length_append, hold, Word.length_bytes]
    rfl
  exact {
    follows := ⟨hcursor.trans h.follows.cursor, h.follows.graph, h.follows.regular, h.follows.static,
      h.follows.find, h.follows.size⟩
    writer := h.writer
    data := by
      refine ⟨bs.take offset ++ Word.bytes v ++ bs.drop (offset + 4), ?_, ?_⟩
      · rwa [← List.append_assoc, ← List.append_assoc]
      · exact List.rel_append (List.rel_append (List.forall₂_take offset hcells) (covers_some _))
          (List.forall₂_drop (offset + 4) hcells)
    inside := RawDraft.Inside.fill h.inside hoffset (Word.length_bytes v)
    fields := h.fields
    offsets := h.offsets }

end Drafted

variable {rec : Value → WriteM Unit} {image : Value → Sketch Wire}
  (hrec : ∀ v, Draws r (rec v) (image v) Wire.bytes)

include hrec

/-- A call on a raw section takes its draft one step on. -/
theorem runRaw_drafted {first : Nat} {op : RawOp} {u : Unit}
    (h : Drafted r base o₀ o st { d with raw := some raw })
    (hx : (ObjectM.runRaw rec first op).Yields o u o') :
    ∃ raw' st', Gives (rawCall r image first raw op) st raw' st' ∧
      Drafted r base o₀ o' st' { d with raw := some raw' } := by
  -- Words and bytes are laid down as they are.
  have hloose : ∀ {x : Action Tape Unit} {new : Bytes},
      (ObjectM.inSession (onTape x)).Yields o u o' →
      (∀ t', x.Yields o.session.tape () t' → o.session.tape.Appended t' new) →
      ∃ raw' st', Gives (loose raw new) st raw' st' ∧
        Drafted r base o₀ o' st' { d with raw := some raw' } := by
    intro x new hin hnew
    obtain ⟨s', hlay, rfl⟩ := (ObjectM.yields_inSession ..).mp hin
    have hl := laid_onTape hlay hnew
    exact ⟨_, _, (gives_loose ..).mpr ⟨rfl, rfl⟩, h.add (h.follows.laid hl) hl.tape hl.fields⟩
  -- A value's bytes are those of its image.
  have hvalue : ∀ {x : WriteM Unit} {y : Sketch Wire}, Draws r x y Wire.bytes →
      (ObjectM.inSession x).Yields o u o' →
      ∃ raw' st', Gives (do return raw.add (← y).bytes) st raw' st' ∧
        Drafted r base o₀ o' st' { d with raw := some raw' } := by
    intro x y hxy hin
    obtain ⟨s', hdraw, rfl⟩ := (ObjectM.yields_inSession ..).mp hin
    obtain ⟨w, st', hw, hf, ha, hfields⟩ := hxy hdraw h.follows
    exact ⟨_, st', (gives_bind ..).mpr ⟨w, st', hw, (gives_pure ..).mpr ⟨rfl, rfl⟩⟩,
      h.add hf ha hfields⟩
  have hfill : ∀ {slot : Nat} {v : Int32}, (ObjectM.fillSlot slot v).Yields o u o' →
      ∃ raw' st', Gives (Image.fillSlot raw slot v) st raw' st' ∧
        Drafted r base o₀ o' st' { d with raw := some raw' } := by
    intro slot v hx
    obtain ⟨offset, hoffset, h'⟩ := h.fill hx
    exact ⟨_, st, gives_fillSlot.mpr ⟨offset, hoffset, rfl, rfl⟩, h'⟩
  cases op with
  | text v => exact hvalue (draws_plain _) hx
  | value v => exact hvalue (hrec v) hx
  | detached v => exact hvalue (draws_detached (hrec v)) hx
  | fill slot v => exact hfill hx
  | fillEarlier slot v => exact hfill hx
  | reserve =>
    simp only [ObjectM.runRaw, ObjectM.reserveSlot, WriteM.reserveSlot, yields_bind,
      ObjectM.yields_inSession, yields_position, yields_onTape, yields_pure,
      ObjectM.yields_updateWriter] at hx
    obtain ⟨_, _, ⟨_, ⟨_, _, ⟨rfl, rfl⟩, _, _, ⟨t₁, hreserve, rfl⟩, _, _, ⟨t₂, hseek, rfl⟩, rfl, rfl⟩, rfl⟩,
      rfl⟩ := hx
    obtain ⟨hole, hlen, ha⟩ := Tape.skip_appended hreserve hseek
    refine ⟨_, _, ?_, h.reserve hlen ⟨ha, rfl, rfl, rfl, rfl⟩⟩
    simp only [rawCall, gives_bind, gives_advance, gives_pure]
    exact ⟨(), _, rfl, trivial, rfl⟩
  | bytes v => exact hloose (x := Tape.write v) hx fun _ => Tape.write_appended
  | u8 v | i16 v | u16 v | i32 v | i64 v | f32 v | f64 v | bool v =>
    exact hloose (x := Tape.writeWord v) hx fun _ => Tape.writeWord_appended

/-- Calls on a raw section take its draft as many steps on. -/
theorem forEach_runRaw_drafted {first : Nat} {ops : List RawOp} {u : Unit}
    (h : Drafted r base o₀ o st { d with raw := some raw })
    (hx : (forEach (ObjectM.runRaw rec first) ops).Yields o u o') :
    ∃ raw' st', Gives (rawCalls r image first raw ops) st raw' st' ∧
      Drafted r base o₀ o' st' { d with raw := some raw' } := by
  -- The section as one call leaves it is where the next one goes on.
  induction ops generalizing o st raw with
  | nil =>
    obtain rfl := (yields_forEach_nil ..).mp hx
    exact ⟨raw, st, (gives_pure ..).mpr ⟨rfl, rfl⟩, h⟩
  | cons op ops ih =>
    obtain ⟨o₁, hop, hops⟩ := (yields_forEach_cons ..).mp hx
    obtain ⟨raw₁, st₁, hraw₁, h₁⟩ := runRaw_drafted hrec h hop
    obtain ⟨raw₂, st₂, hraw₂, h₂⟩ := ih h₁ hops
    exact ⟨raw₂, st₂, (gives_bind ..).mpr ⟨raw₁, st₁, hraw₁, hraw₂⟩, h₂⟩

/-- The calls on the raw section of an object go on with it where its draft has come to. -/
theorem runRaws_drafted {ops : List RawOp} {o₁ : OpenObject} {u : Unit} {positions : List Nat}
    (h : Drafted r base o₀ o st d) (henter : ObjectM.enterRaw.Yields o u o₁)
    (hx : (ObjectM.runRaws rec ops).Yields o₁ positions o') :
    ∃ d' st', Gives (Image.raw r image ops d) st d' st' ∧ Drafted r base o₀ o' st' d' := by
  have h₁ := h.enter henter
  simp only [ObjectM.runRaws, yields_bind, ObjectM.yields_writer, yields_pure] at hx
  obtain ⟨_, _, ⟨rfl, rfl⟩, _, _, hops, _, _, ⟨rfl, rfl⟩, -, rfl⟩ := hx
  obtain ⟨raw', st', hraw', h'⟩ := forEach_runRaw_drafted hrec h₁ hops
  -- The writer and the draft count the same places.
  have hfirst : o₁.writer.slots.length = d.rawSoFar.slots.length := by
    rw [h₁.writer]
    exact List.length_map _
  rw [hfirst] at hraw'
  exact ⟨_, st', gives_raw.mpr ⟨raw', hraw', rfl⟩, h'⟩

end

end ObjectWire
