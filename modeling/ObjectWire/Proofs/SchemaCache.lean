import ObjectWire.Proofs.Layout

/-!
# What a compact footer is read back with

A compact footer holds the offsets of the fields and leaves out their ids.  Its reader looks them up in
the registry, under the object's type and the schema id in the header.  Finishing an object looks there
as well, but what it adds it files under the schema's own id (`ObjectWriter.schema?_taught`).  So the ids
can be looked up if and only if the header has the schema's own id, as it does if all calls on the writer
kept the schema id up with the fields (`Desk.finish_caches`).  With a schema id that was set in advance
they are lost (`Desk.finish_caches_preset`).
-/

namespace ObjectWire

open ObjectWire.Action Image

/-- A registry that has cached nothing finds nothing. -/
theorem TypeService.schema?_of_empty {s : TypeService} (h : s.registry.schemas.entries = [])
    (typeId schemaId : Int32) : s.schema? typeId schemaId = none := by
  simp [schema?, Registry.schema?, Dict.find?, h, Dict.findIn]

namespace ObjectWriter

/-- The schema of an object's fields is found under a schema id if and only if that is the schema's own
    id, unless another schema is in its place. -/
theorem schema?_taught (w : ObjectWriter) (schemaId : Int32) {s : Session}
    (hkeeps : s.service.keepsSchemas = true) (hkeyed : s.service.registry.Keyed)
    (hown : ∀ known, s.service.schema? w.typeId schemaId = some known →
      known = s.fields.schema w.fieldCount) :
    (w.taught schemaId s).schema? w.typeId schemaId =
      if schemaId = (s.fields.schema w.fieldCount).id then some (s.fields.schema w.fieldCount)
      else none := by
  have hschema? : s.service.schema? w.typeId schemaId = s.service.registry.schema? w.typeId schemaId :=
    if_pos hkeeps
  have hknown : s.service.hasSchema w.typeId schemaId =
      (s.service.registry.schema? w.typeId schemaId).isSome := by
    rw [TypeService.hasSchema, hkeeps, Bool.true_and]
    rfl
  cases hfind : s.service.registry.schema? w.typeId schemaId with
  | some known =>
    -- A schema that is known is not added again, and it is filed rightly.
    have hsame : known = s.fields.schema w.fieldCount := hown known (hschema?.trans hfind)
    have hid : known.id = schemaId := hkeyed _ _ _ hfind
    rw [taught, hknown, hfind, if_pos Option.isSome_some, hschema?, hfind, ← hsame, if_pos hid.symm]
  | none =>
    have hadd : ∀ schema, (s.service.addSchema w.typeId schema).schema? w.typeId schemaId =
        if schema.id = schemaId then
          some ((s.service.registry.schema? w.typeId schema.id).getD schema)
        else none := by
      intro schema
      rw [TypeService.addSchema, if_pos hkeeps, TypeService.schema?, if_pos hkeeps,
        Registry.schema?_addSchema, hfind]
      simp only [true_and]
    rw [taught, hknown, hfind, if_neg (by decide), hadd]
    by_cases hid : (s.fields.schema w.fieldCount).id = schemaId
    · rw [if_pos hid, if_pos hid.symm, hid, hfind, Option.getD_none]
    · rw [if_neg hid, if_neg (Ne.symm hid)]

end ObjectWriter

namespace Frame.Sound

variable {f : Frame} {s : Session} (h : f.Sound s.fields s.tape.cursor)

include h

/-- From the start of an open writer to the cursor there is room for the header, then whatever stands
    before the data, and then the data. -/
theorem appended (hroom : s.tape.cursor ≤ s.tape.capacity) :
    ∃ hole name data : Bytes, hole.length = Header.size ∧
      f.writer.dataStart = f.writer.start + (Header.size + name.length) ∧
      Tape.Appended { s.tape with cursor := f.writer.start } s.tape (hole ++ (name ++ data)) := by
  obtain ⟨n, hdata⟩ := Nat.exists_eq_add_of_le h.data.1
  have hfront : f.writer.dataStart = f.writer.start + (Header.size + n) := by
    rw [hdata, Nat.add_assoc]
  have hall := Tape.appended_parts (hfront ▸ h.data.2) hroom
  exact ⟨_, _, _, Tape.length_span _ _ _, by rw [Tape.length_span, hfront], hall⟩

/-- The object of an open writer that finishes is laid out from the writer's start to the cursor, and
    lists the fields that were accepted. -/
theorem finished (hroom : s.tape.cursor ≤ s.tape.capacity) {userType : Bool} {s' : Session}
    {written : WrittenObject} (hfinish : (f.writer.finish userType).Yields s written s') :
    ∃ l : Layout, l.Agrees ∧ s'.tape.slice? f.writer.start s'.tape.cursor = some l.bytes ∧
      l.fields = f.written ∧ (l.fields ≠ [] → l.header.schemaId = f.writer.schemaId) ∧
      written.schemaId = l.header.schemaId ∧
      (l.fields ≠ [] → s'.service = f.writer.taught f.writer.schemaId s) := by
  obtain ⟨hole, name, data, hhole, hdata, ha⟩ := h.appended hroom
  have hcount : s.fields.last f.writer.fieldCount = [] ↔ f.writer.fieldCount = 0 := by
    rw [h.last, h.fieldCount, List.length_eq_zero_iff]
  -- With fields on the stack the branch for none is not taken.
  have hfields : ∀ {α : Type} (a b : α), s.fields.last f.writer.fieldCount ≠ [] →
      (if f.writer.fieldCount = 0 then a else b) = b :=
    fun _ _ hne => if_neg fun hzero => hne (hcount.mpr hzero)
  obtain ⟨hash, hagrees, hbytes, -, hwritten⟩ :=
    finish_laid_out ha hhole rfl hdata hcount hfinish
  obtain ⟨⟨tape, hs'⟩, -⟩ := finish_laid ha hhole rfl hdata hfinish
  refine ⟨_, hagrees, hbytes.slice?_between (Layout.bytes_ne_nil _), h.last,
    hfields 0 _, congrArg WrittenObject.schemaId hwritten, fun hne => ?_⟩
  rw [hs']
  exact hfields _ _ hne

end Frame.Sound

namespace Desk

/-- Whatever was done at a desk before, an object with fields that the innermost writer finishes has the
    ids of its fields in the registry, in the order of its footer, under the schema id in its header, if
    and only if that is the id of the schema with these fields; nothing can be looked up otherwise.  It
    is that id if all calls on the writer kept it up.  Only a schema with other fields that was filed
    there before would come in its place.  Whatever is done afterwards, what can be looked up stays. -/
theorem finish_caches {s s' : Session} {moves : List Move} {f : Frame} {rest : List Frame}
    {userType : Bool} {written : WrittenObject} (hkeeps : s.service.keepsSchemas = true)
    (hkeyed : s.service.registry.Keyed) (hopened : (run ⟨s, []⟩ moves).opened = f :: rest)
    (hwritten : f.written ≠ [])
    (hfinish : (f.writer.finish userType).Yields (run ⟨s, []⟩ moves).session written s')
    (hown : ∀ known,
      (run ⟨s, []⟩ moves).session.service.schema? f.writer.typeId written.schemaId = some known →
      known.fieldIds = f.ids) :
    ∃ l : Layout, l.Agrees ∧ s'.tape.slice? f.writer.start s'.tape.cursor = some l.bytes ∧
      l.fields = f.written ∧ l.header.schemaId = written.schemaId ∧
      s'.service.schema? f.writer.typeId l.header.schemaId =
        (if l.header.schemaId = SchemaId.ofFields (l.fields.map (·.id)) then
          some ⟨l.fields.map (·.id)⟩
        else none) ∧
      (f.folded → l.header.schemaId = SchemaId.ofFields (l.fields.map (·.id))) ∧
      ∀ later known, s'.service.schema? f.writer.typeId l.header.schemaId = some known →
        (run ⟨f.writer.release s', rest⟩ later).session.service.schema? f.writer.typeId
          l.header.schemaId = some known := by
  have hempty : Sound ⟨s, []⟩ := trivial
  have hsound := hempty.run moves
  have hroomy : Roomy ⟨s, []⟩ := fun hopen => absurd rfl hopen
  have hroom := hroomy.run moves
  have hevolves : s.service.Evolves _ := (onward_run ⟨s, []⟩ moves).service
  -- All that the run leaves behind is a sound desk, with a registry that files everything rightly.
  generalize run ⟨s, []⟩ moves = d at *
  obtain ⟨s₁, opened⟩ := d
  obtain rfl : opened = f :: rest := hopened
  have hkeeps₁ : s₁.service.keepsSchemas = true := hevolves.keepsSchemas.trans hkeeps
  obtain ⟨l, hagrees, hslice, hfields, hschemaId, hheader, hservice⟩ :=
    hsound.1.finished (hroom (List.cons_ne_nil _ _)) hfinish
  have hid : l.header.schemaId = f.writer.schemaId := hschemaId (hfields ▸ hwritten)
  have hids : l.fields.map (·.id) = f.ids := by rw [hfields, Frame.ids]
  refine ⟨l, hagrees, hslice, hfields, hheader.symm, ?_, ?_, ?_⟩
  · have hschema : s₁.fields.schema f.writer.fieldCount = ⟨f.ids⟩ := hsound.1.schema
    have htaught := f.writer.schema?_taught f.writer.schemaId hkeeps₁ (hevolves.registry.keyed hkeyed)
      fun known hknown => by
        rw [hschema]
        rw [hheader, hid] at hown
        exact congrArg Schema.mk (hown known hknown)
    rw [hservice (hfields ▸ hwritten), hid, htaught, hschema, hids]
    rfl
  · intro hfolded
    rw [hid, hids]
    exact hsound.1.schemaId hfolded
  · intro later known hknown
    have hfinished : s₁.service.Evolves s'.service :=
      (ObjectWriter.keeps_finish f.writer userType |>.of_yields hfinish).service
    have hlater := (onward_run ⟨f.writer.release s', rest⟩ later).service
    have hkeeps' : s'.service.keepsSchemas = true := hfinished.keepsSchemas.trans hkeeps₁
    rw [TypeService.schema?, if_pos hkeeps'] at hknown
    rw [TypeService.schema?, if_pos (hlater.keepsSchemas.trans hkeeps')]
    exact hlater.registry.schemas _ _ _ hknown

theorem finish_caches_sample :
    ∃ s' : Session, ∃ l : Layout, s'.tape.slice? 0 s'.tape.cursor = some l.bytes ∧
      l.fields.map (·.id) = [97, 12] ∧
      s'.service.schema? 7 l.header.schemaId = some ⟨[97, 12]⟩ := by
  have hopened : (run ⟨sampleStart, []⟩ sampleMoves).opened.map
      (fun f => (f.ids, f.folded, f.writer.start, f.writer.typeId)) = [([97, 12], true, 0, 7)] := by
    decide +kernel
  have hfinish : (run ⟨sampleStart, []⟩ sampleMoves).opened.all (fun f =>
      (f.writer.finish true (run ⟨sampleStart, []⟩ sampleMoves).session).1.toOption.isSome) = true := by
    decide +kernel
  have hcache : (run ⟨sampleStart, []⟩ sampleMoves).session.service.registry.schemas.entries = [] := by
    decide +kernel
  obtain ⟨f, rest, hf, hknown, -⟩ := List.map_eq_cons_iff.mp hopened
  simp only [Prod.mk.injEq] at hknown
  obtain ⟨hids, hfolded, hstart, htype⟩ := hknown
  rw [hf] at hfinish
  obtain ⟨written, hwritten⟩ := Option.isSome_iff_exists.mp
    (List.all_eq_true.mp hfinish f List.mem_cons_self)
  -- The evaluation says that the writer finishes; what is cached then follows from that.
  obtain ⟨l, -, hslice, hfields, -, hschema, hown, -⟩ := finish_caches rfl
    (Registry.keyed_new { initialCapacity := 16 }) hf
    (fun hnone => by simp [Frame.ids, hnone] at hids) (yields_of_toOption hwritten)
    fun known hfound => by
      rw [TypeService.schema?_of_empty hcache] at hfound
      cases hfound
  have hids' : l.fields.map (·.id) = [97, 12] := by
    rw [hfields]
    exact hids
  rw [hstart] at hslice
  refine ⟨_, l, hslice, hids', ?_⟩
  rw [htype, if_pos (hown hfolded), hids'] at hschema
  exact hschema

/-- A writer whose schema id is set in advance, with a field that is not folded into it. -/
def presetMoves : List Move := [
  .begin 7 none, .call (.setSchemaId 1234), .call (.fieldIdUnfolded 5 (.plain (.int 0)))]

/-- With a schema id set in advance the header has that id, and the ids of the fields are not found under
    it, although nothing was cached before. -/
theorem finish_caches_preset :
    ∃ f written s', (run ⟨sampleStart, []⟩ presetMoves).opened = [f] ∧
      (∀ typeId schemaId,
        (run ⟨sampleStart, []⟩ presetMoves).session.service.schema? typeId schemaId = none) ∧
      (f.writer.finish true).Yields (run ⟨sampleStart, []⟩ presetMoves).session written s' ∧
      f.writer.typeId = 7 ∧ f.ids = [5] ∧ written.schemaId = 1234 ∧
      s'.service.schema? 7 1234 = none := by
  -- The moves are run on a small desk: which writer is open, how it ends, and what was cached before.
  have hopened : (run ⟨sampleStart, []⟩ presetMoves).opened.map
      (fun f => (f.ids, f.writer.typeId)) = [([5], 7)] := by
    decide +kernel
  have hfinish : (run ⟨sampleStart, []⟩ presetMoves).opened.all (fun f =>
      let (result, s') := f.writer.finish true (run ⟨sampleStart, []⟩ presetMoves).session
      result.toOption.map (·.schemaId) = some 1234 ∧ s'.service.schema? 7 1234 = none) = true := by
    decide +kernel
  have hcache : (run ⟨sampleStart, []⟩ presetMoves).session.service.registry.schemas.entries = [] := by
    decide +kernel
  obtain ⟨f, rest, hf, hknown, hrest⟩ := List.map_eq_cons_iff.mp hopened
  obtain ⟨hids, htype⟩ := Prod.mk.inj hknown
  rw [List.map_eq_nil_iff.mp hrest] at hf
  rw [hf] at hfinish
  obtain ⟨hresult, hnone⟩ := of_decide_eq_true (List.all_eq_true.mp hfinish f List.mem_cons_self)
  obtain ⟨written, hwritten, hid⟩ := Option.map_eq_some_iff.mp hresult
  exact ⟨f, written, _, hf, TypeService.schema?_of_empty hcache, yields_of_toOption hwritten, htype,
    hids, hid, hnone⟩

end Desk

end ObjectWire
