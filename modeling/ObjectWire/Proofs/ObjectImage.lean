import Mathlib.Data.List.Forall2
import ObjectWire.Proofs.Finish
import ObjectWire.Proofs.ValueImage

/-!
# Objects as their images

An object is written from its front to its end, but its header is filled in last, and so are the places
that its raw section leaves open.  What lies in such a place in between is whatever the tape held, so the
image has open cells there (`Covers`) and says something about them only once they are filled in.

`Opened` says how the object was begun: room for the header, then the name.  `Drafted` says how far the image
of the object has come: its data is what was appended since, its fields are the entries on top of the field
stack.  Every call on the writer takes the draft one step on, and finishing the object lays the footer behind
the data and puts header and hash into the room left for them.
-/

namespace ObjectWire

open ObjectWire.Action

namespace Image

/-- The entry of the field stack for a field. -/
def Placed.entry (f : Placed) : FieldEntry := ⟨f.id, UInt32.ofNat f.offset⟩

/-- The footer of the entries on the stack is the footer of the draft. -/
theorem footer_entries {d : Draft} (compact : Bool) (h : ∀ f ∈ d.fields, f.offset < UInt32.size) :
    footerWidth (d.fields.map Placed.entry) = d.width ∧
      footer (d.fields.map Placed.entry) compact =
        (d.fields.map (·.shown compact)).flatMap (FieldAt.entry d.width) := by
  have hoffset : ∀ f ∈ d.fields, f.entry.offset.toNat = f.offset := fun f hf => by
    rw [Placed.entry, UInt32.toNat_ofNat_of_lt' (h f hf)]
  -- The last offset decides on the width in both.
  have hwidth : footerWidth (d.fields.map Placed.entry) = d.width := by
    rw [footerWidth, Draft.width, List.getLast?_map]
    cases hlast : d.fields.getLast? with
    | none => rfl
    | some f =>
      have := hoffset f (List.mem_of_getLast? hlast)
      simp [this]
  refine ⟨hwidth, ?_⟩
  rw [footer, hwidth, List.flatMap_map, List.flatMap_map]
  refine List.flatMap_congr fun f hf => ?_
  rw [footerEntry, hoffset f hf]
  cases compact <;> rfl

end Image

open Image WriteM ObjectWriter

/-- A byte stands where the image has it; where the image has none, any byte may stand. -/
def Covers (cell : Option UInt8) (b : UInt8) : Prop := ∀ c, cell = some c → c = b

/-- Bytes that are known cover themselves. -/
theorem covers_some (bs : Bytes) : List.Forall₂ Covers (bs.map some) bs := by
  rw [List.forall₂_map_left_iff, List.forall₂_same]
  exact fun b _ c hc => (Option.some.inj hc).symm

/-- Cells that were left open are covered by whatever stands there. -/
theorem covers_none (bs : Bytes) : List.Forall₂ Covers (List.replicate bs.length none) bs := by
  induction bs with
  | nil => exact .nil
  | cons b bs ih =>
    have hopen : Covers none b := by
      intro c h
      cases h
    exact .cons hopen ih

/-- Where no cell is open, the image has every byte. -/
theorem covers_closed {cells : List (Option UInt8)} {bs : Bytes} (h : List.Forall₂ Covers cells bs)
    (hnone : none ∉ cells) : bs = cells.map (·.getD 0) := by
  induction h with
  | nil => rfl
  | @cons cell b cells bs hb _ ih =>
    rw [List.mem_cons, not_or] at hnone
    -- The first cell has a byte, and that is the byte on the tape.
    rw [List.map_cons, ← ih hnone.2]
    cases cell with
    | none => exact absurd rfl hnone.1
    | some c => rw [hb c rfl]; rfl

/-- `o` is an object just begun in `s`: room for a header, then the bytes of a name. -/
structure Opened (s : Session) (o : OpenObject) (typeId : Int32) (registered : Bool)
    (hole name : Bytes) : Prop where
  laid : Laid s o.session (hole ++ name)
  hole : hole.length = Header.size
  writer : o.writer = {
    start := s.tape.cursor, dataStart := o.session.tape.cursor, typeId, registered
    schemaId := SchemaId.seed, fieldCount := 0, rawStart := none, slots := [] }

/-- `o` has come as far as the draft `d` of the object begun as `o₀`.  Where a place is left open, anything may
    lie on the tape. -/
structure Drafted (r : Registry) (base : Nat) (o₀ o : OpenObject) (st : Progress) (d : Draft) :
    Prop where
  follows : Follows r base o.session st
  writer : o.writer = { o₀.writer with
    schemaId := d.schemaId
    fieldCount := d.fields.length
    rawStart := d.raw.map fun _ => o₀.session.tape.cursor + d.fieldBytes.length
    slots := d.rawSoFar.slots.map (o₀.session.tape.cursor + d.fieldBytes.length + ·) }
  data : ∃ bs, o₀.session.tape.Appended o.session.tape (d.fieldBytes ++ bs) ∧
    List.Forall₂ Covers d.rawSoFar.cells bs
  inside : d.rawSoFar.Inside
  fields : o.session.fields.entries =
    (d.fields.map Placed.entry).reverse ++ o₀.session.fields.entries
  offsets : ∀ f ∈ d.fields, f.offset < UInt32.size

/-- To begin an object leaves room for its header and writes its name, if it has one. -/
theorem begin_opened {s s' : Session} {w : ObjectWriter} {typeId : Int32} {inlineName : Option String}
    (h : (ObjectWriter.begin typeId inlineName).Yields s w s') :
    ∃ hole, Opened s ⟨w, s'⟩ typeId inlineName.isNone hole
        ((inlineName.map (text s.service.registry.static)).elim [] nameBytes) ∧
      (inlineName.map (text s.service.registry.static)).all (·.length ≤ maxWireLength) = true := by
  simp only [ObjectWriter.begin, yields_bind, yields_position, yields_onTape] at h
  obtain ⟨_, _, ⟨rfl, rfl⟩, _, _, ⟨t₁, hreserve, rfl⟩, _, _, ⟨t₂, hseek, rfl⟩, h⟩ := h
  obtain ⟨hole, hlen, ha⟩ := Tape.skip_appended hreserve hseek
  have hl₁ : Laid s { s with tape := t₂ } hole := ⟨ha, rfl, rfl, rfl, rfl⟩
  refine ⟨hole, ?_⟩
  -- The name stands right behind the room for the header.
  cases inlineName with
  | none =>
    simp only at h
    obtain ⟨_, _, ⟨rfl, rfl⟩, rfl, rfl⟩ := h
    exact ⟨⟨by simpa using hl₁, hlen, rfl⟩, rfl⟩
  | some name =>
    simp only [yields_pure, yields_bind, yields_position] at h
    obtain ⟨_, s₃, hname, _, _, ⟨rfl, rfl⟩, rfl, rfl⟩ := h
    obtain ⟨hle, hl₂⟩ := writePlain_string_laid hname
    exact ⟨⟨hl₁.trans hl₂, hlen, rfl⟩, by simpa using hle⟩

section

variable {r : Registry} {base : Nat} {o₀ o : OpenObject} {st : Progress} {d : Draft}

/-- The cursor is behind the data. -/
theorem Drafted.cursor (h : Drafted r base o₀ o st d) :
    o.session.tape.cursor = o₀.session.tape.cursor + d.data.length := by
  obtain ⟨bs, ha, hcells⟩ := h.data
  rw [ha.cursor, Draft.data, RawDraft.bytes, List.length_append, List.length_append, List.length_map,
    hcells.length_eq]

/-- Once every place is filled in, the data is all there. -/
theorem Drafted.appended (h : Drafted r base o₀ o st d) (hclosed : d.isClosed = true) :
    o₀.session.tape.Appended o.session.tape d.data := by
  obtain ⟨bs, ha, hcells⟩ := h.data
  rwa [covers_closed hcells (of_decide_eq_true hclosed)] at ha

/-- The fields on top of the stack are those of the draft. -/
theorem Drafted.last (h : Drafted r base o₀ o st d) :
    o.session.fields.last o.writer.fieldCount = d.fields.map Placed.entry := by
  rw [h.writer, FieldStack.last, h.fields, List.take_left' (by simp), List.reverse_reverse]

/-- With its fields off the stack, the stack is what it was. -/
theorem Drafted.pop (h : Drafted r base o₀ o st d) :
    o.session.fields.pop o.writer.fieldCount = o₀.session.fields := by
  rw [h.writer, FieldStack.pop, h.fields, List.drop_left' (by simp)]

section

variable {s : Session} {typeId : Int32} {registered : Bool} {hole name : Bytes}
  (h : Drafted r base o₀ o st d)

include h

theorem Drafted.fieldCount_eq : o.writer.fieldCount = 0 ↔ d.fields = [] := by
  rw [h.writer]
  exact List.length_eq_zero_iff

/-- The width of the footer is told by the draft, since it depends on the offsets alone. -/
theorem Drafted.footerWidth? : o.writer.footerWidth? o.session.fields = d.footerWidth? := by
  rw [ObjectWriter.footerWidth?, Draft.footerWidth?, h.last, (footer_entries false h.offsets).1]
  simp only [h.fieldCount_eq, List.isEmpty_iff]

variable (hopen : Opened s o₀ typeId registered hole name)

include hopen

/-- The raw section starts behind the fields. -/
theorem Drafted.rawOffset? : o.writer.rawOffset? =
    d.rawBytes?.map fun _ => Header.size + name.length + d.fieldBytes.length := by
  have hfront := hopen.laid.tape.cursor
  rw [List.length_append, hopen.hole] at hfront
  rw [ObjectWriter.rawOffset?, h.writer, hopen.writer, Draft.rawBytes?, Option.map_map, Option.map_map]
  congr 1
  funext _
  show o₀.session.tape.cursor + d.fieldBytes.length - s.tape.cursor =
    Header.size + name.length + d.fieldBytes.length
  omega

/-- The tail of the object is that of the draft. -/
theorem Drafted.tail (compact : Bool) : o.writer.tail o.session.fields compact =
    d.tail compact (Header.size + name.length + d.fieldBytes.length) := by
  rw [ObjectWriter.tail, Draft.tail, h.last, (footer_entries compact h.offsets).2, h.rawOffset? hopen]
  by_cases hempty : d.fields = []
  · simp [h.fieldCount_eq, hempty]
  · cases hraw : d.raw <;> simp [h.fieldCount_eq, hempty, Draft.rawBytes?, hraw]

/-- So is its header. -/
theorem Drafted.header (userType compact : Bool) (stop : Nat) (hashCode : Int32) :
    o.writer.header o.session.fields userType compact (o.session.tape.cursor - o.writer.start) stop
        hashCode =
      d.header (if registered then typeId else unregisteredTypeId) userType compact
        (o.session.tape.cursor - s.tape.cursor) stop hashCode := by
  have hstart : o.writer.start = s.tape.cursor := by rw [h.writer, hopen.writer]
  have hfront := hopen.laid.tape.cursor
  rw [List.length_append, hopen.hole] at hfront
  have hdata := h.cursor
  have hlength : d.data.length = d.fieldBytes.length + (d.rawBytes?.getD []).length := by
    rw [Draft.getD_rawBytes?]
    exact List.length_append
  have hoffset : o.writer.headerOffset (o.session.tape.cursor - s.tape.cursor) =
      d.headerOffset (o.session.tape.cursor - s.tape.cursor) := by
    rw [ObjectWriter.headerOffset, Draft.headerOffset, h.rawOffset? hopen]
    simp only [h.fieldCount_eq, List.isEmpty_iff]
    cases hraw : d.rawBytes? with
    | none => rfl
    | some raw =>
      -- Without fields the raw section is all of the data.
      rw [hraw, Option.getD_some] at hlength
      have hplace : Header.size + name.length + d.fieldBytes.length =
          o.session.tape.cursor - s.tape.cursor - raw.length := by omega
      simp only [Option.map_some, Option.getD_some, Option.elim_some, hplace]
  have hisSome : o.writer.rawStart.isSome = d.raw.isSome := by
    rw [h.writer]
    exact Option.isSome_map
  rw [ObjectWriter.header, Draft.header, h.footerWidth?, hisSome, ← d.flags_eq, hstart, hoffset]
  simp only [h.fieldCount_eq, List.isEmpty_iff]
  rw [h.writer, hopen.writer]

end

/-- Finishing an object makes its image of the draft. -/
theorem finish_drawn {s : Session} {typeId : Int32} {registered : Bool} {hole : Bytes}
    {name : Option Bytes} (hopen : Opened s o₀ typeId registered hole (name.elim [] nameBytes))
    (h : Drafted r base o₀ o st d) (hclosed : d.isClosed = true) {start : Nat}
    (hstart : s.tape.cursor = base + start)
    {userType : Bool} {written : WrittenObject} {s' : Session}
    (hfin : (o.writer.finish userType).Yields o.session written s') :
    ∃ w st', Gives (Image.finish r start (if registered then typeId else unregisteredTypeId) name
        userType d) st w st' ∧ Follows r base s' st' ∧ s.tape.Appended s'.tape w.bytes ∧
      s'.fields = o.session.fields := by
  have hconfig : o.session.service.config = r.config := by rw [config_eq, h.follows.static]
  have hw_start : o.writer.start = s.tape.cursor := by rw [h.writer, hopen.writer]
  have hw_data : o.writer.dataStart = s.tape.cursor + (Header.size + (name.elim [] nameBytes).length) := by
    rw [h.writer, hopen.writer, hopen.laid.tape.cursor, List.length_append, hopen.hole]
  have hdata : s.tape.Appended o.session.tape (hole ++ (name.elim [] nameBytes ++ d.data)) := by
    rw [← List.append_assoc]
    exact hopen.laid.tape.trans (h.appended hclosed)
  obtain ⟨⟨tape, rfl⟩, ha, hmax, -, -⟩ := finish_laid hdata hopen.hole hw_start hw_data hfin
  rw [h.header hopen, h.tail hopen, hconfig, hw_start] at ha
  rw [hw_start] at hmax
  generalize hcompact : (userType && r.config.compactFooter) = compact at *
  have hlength : (d.tail compact (Header.size + (name.elim [] nameBytes).length +
      d.fieldBytes.length)).length = d.tailLength compact := d.length_tail ..
  have hcur : o.session.tape.cursor = base + st.place := h.follows.cursor
  have hcur' : tape.cursor = base + (st.place + d.tailLength compact) := by
    have hend := hdata.cursor
    have hstop := ha.cursor
    simp only [List.length_append, Header.length_bytes, hlength, hopen.hole] at hend hstop
    omega
  have hdataEnd : o.session.tape.cursor - s.tape.cursor = st.place - start := by omega
  have hstop : tape.cursor - s.tape.cursor = st.place + d.tailLength compact - start := by omega
  rw [hdataEnd, hstop] at ha
  rw [hstop] at hmax
  -- What the type service was taught is none of the image's business.
  have hstatic : (if o.writer.fieldCount = 0 then o.session.service
      else o.writer.taught o.writer.schemaId o.session).registry.static = r := by
    rw [← h.follows.static]
    split
    · rfl
    · exact (o.writer.evolves_taught _ _).registry.static
  refine ⟨_, _, (gives_finish r _ _ _ _ _ _ _ _ _ hcompact).mpr ⟨⟨hclosed, hmax⟩, rfl, rfl⟩,
    ⟨hcur', h.follows.graph, h.follows.regular, hstatic, h.follows.find, h.follows.size⟩, ?_, rfl⟩
  rw [bytes_object d start name compact (ofFlags_header userType compact)]
  exact ha

end

end ObjectWire
