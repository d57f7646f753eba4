import ObjectWire.Proofs.Draft
import ObjectWire.Proofs.ObjectAction
import ObjectWire.Proofs.SessionImage

/-!
# What finishing an object lays

An object that is finished gets its footer behind the data and its header into the room left before it.
Here nothing is assumed of how the data came about: whatever lies between the room for the header and the
cursor is a name and some data (`finish_laid`).
-/

namespace ObjectWire

open ObjectWire.Action Image WriteM

namespace ObjectWriter

/-- The width of the footer's offsets, if there are fields. -/
def footerWidth? (w : ObjectWriter) (fields : FieldStack) : Option OffsetWidth :=
  if w.fieldCount = 0 then none else some (footerWidth (fields.last w.fieldCount))

/-- Where the raw section starts, counted from the start of the object. -/
def rawOffset? (w : ObjectWriter) : Option Nat := w.rawStart.map (· - w.start)

/-- What stands behind the data: the footer and, behind it, the place of the raw section. -/
def tail (w : ObjectWriter) (fields : FieldStack) (compact : Bool) : Bytes :=
  if w.fieldCount = 0 then []
  else footer (fields.last w.fieldCount) compact ++ w.rawOffset?.elim [] countBytes

/-- What the header tells of footer and raw section. -/
def headerOffset (w : ObjectWriter) (dataEnd : Nat) : Nat :=
  if w.fieldCount = 0 then w.rawOffset?.getD 0 else dataEnd

/-- The header of an object whose data ends and which itself ends so far behind its start. -/
def header (w : ObjectWriter) (fields : FieldStack) (userType compact : Bool) (dataEnd stop : Nat)
    (hashCode : Int32) : Header where
  flags := (if userType then Flag.userType else 0) ||| (if compact then Flag.compactFooter else 0) |||
    endFlags (w.footerWidth? fields) w.rawStart.isSome
  typeId := if w.registered then w.typeId else unregisteredTypeId
  hashCode
  totalLength := Int32.ofNat stop
  schemaId := if w.fieldCount = 0 then 0 else w.schemaId
  offset := Int32.ofNat (w.headerOffset dataEnd)

end ObjectWriter

/-- The footer that is appended is that of the last fields, in the width of the last offset. -/
theorem writeFooter_appended {fields : FieldStack} {count : Nat} {compact : Bool} {t t' : Tape}
    {width : OffsetWidth} (h : (fields.writeFooter count compact).Yields t width t') :
    width = footerWidth (fields.last count) ∧
      t.Appended t' (footer (fields.last count) compact) := by
  simp only [FieldStack.writeFooter, yields_bind, yields_pure] at h
  obtain ⟨_, _, hreserve, _, _, hput, rfl, rfl⟩ := h
  exact ⟨rfl, .of_grown (Tape.reserve_grown hreserve).1 (Tape.put_appended hput)⟩

section

variable {w : ObjectWriter} {s s' : Session} {compact : Bool} {ending : ObjectWriter.Ending}
  (h : (w.writeEnding compact).Yields s ending s')

include h

/-- Without fields there is no footer, and the header tells where the raw section is. -/
theorem writeEnding_bare (hcount : w.fieldCount = 0) :
    s' = s ∧ (∀ raw ∈ w.rawStart, w.start ≤ raw ∧ raw - w.start ≤ maxWireLength) ∧
      ending = ⟨endFlags none w.rawStart.isSome, 0, Int32.ofNat (w.rawOffset?.getD 0)⟩ := by
  rw [ObjectWriter.writeEnding, hcount, if_neg (by decide)] at h
  rw [ObjectWriter.rawOffset?]
  cases hraw : w.rawStart with
  | none =>
    simp only [hraw, yields_pure] at h
    obtain ⟨rfl, rfl⟩ := h
    exact ⟨rfl, fun _ hnone => (Option.not_mem_none _ hnone).elim, rfl⟩
  | some raw =>
    simp only [hraw, yields_bind, yields_pure] at h
    obtain ⟨v, s₁, hv, rfl, rfl⟩ := h
    obtain ⟨hle, hmax, rfl, rfl⟩ := ObjectWriter.relative_yields hv
    exact ⟨rfl, fun raw' hraw' => Option.mem_some_iff.mp hraw' ▸ ⟨hle, hmax⟩, by simp⟩

/-- The header tells where the footer is, and the last word where the raw section is. -/
theorem writeEnding_footed (hcount : w.fieldCount ≠ 0) :
    (∃ tape, s' = { s with tape }) ∧
      s.tape.Appended s'.tape
        (footer (s.fields.last w.fieldCount) compact ++ w.rawOffset?.elim [] countBytes) ∧
      (∀ raw ∈ w.rawStart, w.start ≤ raw ∧ raw - w.start ≤ maxWireLength) ∧
      ending = ⟨endFlags (some (footerWidth (s.fields.last w.fieldCount))) w.rawStart.isSome,
        w.schemaId, Int32.ofNat (s.tape.cursor - w.start)⟩ := by
  rw [ObjectWriter.writeEnding, if_pos hcount] at h
  simp only [yields_bind, yields_position, yields_read, yields_onTape] at h
  obtain ⟨_, _, ⟨rfl, rfl⟩, offset, s₁, hoffset, _, _, ⟨rfl, rfl⟩, width, _, ⟨t, ht, rfl⟩, h⟩ := h
  obtain ⟨-, -, rfl, rfl⟩ := ObjectWriter.relative_yields hoffset
  obtain ⟨rfl, hfoot⟩ := writeFooter_appended ht
  rw [ObjectWriter.rawOffset?]
  -- The offset of the raw section stands behind the footer, if there is a raw section.
  cases hraw : w.rawStart with
  | none =>
    simp only [hraw, yields_pure] at h
    obtain ⟨rfl, rfl⟩ := h
    refine ⟨⟨t, rfl⟩, ?_, fun _ hnone => (Option.not_mem_none _ hnone).elim, by simp [endFlags]⟩
    rw [Option.map_none, Option.elim_none, List.append_nil]
    exact hfoot
  | some raw =>
    simp only [hraw, yields_bind, yields_onTape, yields_pure] at h
    obtain ⟨v, _, hv, _, _, ⟨t', hword, rfl⟩, rfl, rfl⟩ := h
    obtain ⟨hle, hmax, rfl, rfl⟩ := ObjectWriter.relative_yields hv
    exact ⟨⟨t', rfl⟩, hfoot.trans (Tape.writeWord_appended hword),
      fun raw' hraw' => Option.mem_some_iff.mp hraw' ▸ ⟨hle, hmax⟩, rfl⟩

/-- The end of an object is its footer, the place of its raw section, and what the header has to tell of
    them. -/
theorem writeEnding_laid :
    (∃ tape, s' = { s with tape }) ∧ s.tape.Appended s'.tape (w.tail s.fields compact) ∧
      (∀ raw ∈ w.rawStart, w.start ≤ raw ∧ raw - w.start ≤ maxWireLength) ∧
      ending = ⟨endFlags (w.footerWidth? s.fields) w.rawStart.isSome,
        if w.fieldCount = 0 then 0 else w.schemaId,
        Int32.ofNat (w.headerOffset (s.tape.cursor - w.start))⟩ := by
  rw [ObjectWriter.tail, ObjectWriter.footerWidth?, ObjectWriter.headerOffset]
  by_cases hcount : w.fieldCount = 0
  · obtain ⟨rfl, hmax, hending⟩ := writeEnding_bare h hcount
    simp only [if_pos hcount]
    exact ⟨⟨_, rfl⟩, .refl _, hmax, hending⟩
  · simp only [if_neg hcount]
    exact writeEnding_footed h hcount

end

/-- The hash code stands in the middle of a header. -/
theorem header_bytes_hash (h : Header) :
    ∃ front back, front.length = Header.hashCodeOffset ∧
      ∀ hash, { h with hashCode := hash }.bytes = front ++ Word.bytes hash ++ back := by
  refine ⟨Tag.object.code :: Header.version :: (Word.bytes h.flags ++ Word.bytes h.typeId),
    Word.bytes h.totalLength ++ Word.bytes h.schemaId ++ Word.bytes h.offset, ?_, fun hash => ?_⟩
  · simp [Word.width, Header.hashCodeOffset]
  · simp [Header.bytes, List.append_assoc]

/-- The hash is taken of the data and put into the header. -/
theorem writeHash_laid {w : ObjectWriter} {t : Tape} {s s' : Session} {header : Header}
    {name data tail : Bytes} {u : Unit}
    (ha : t.Appended s.tape (header.bytes ++ (name ++ data ++ tail)))
    (hstart : w.start = t.cursor) (hdata : w.dataStart = t.cursor + (Header.size + name.length))
    (h : (w.writeHash (w.dataStart + data.length)).Yields s u s') :
    (∃ tape, s' = { s with tape }) ∧
      t.Appended s'.tape
        ({ header with hashCode := identityHash data }.bytes ++ (name ++ data ++ tail)) := by
  have hroom : s.tape.cursor ≤ s.tape.capacity := ha.room (by simp [Header.bytes])
  -- What is hashed is read back off the tape.
  have hslice : s.tape.slice? w.dataStart (w.dataStart + data.length) = some data := by
    have hall : t.Appended s.tape (header.bytes ++ name ++ data ++ tail) := by
      simpa only [List.append_assoc] using ha
    rw [hdata, ← Header.length_bytes header, ← List.length_append]
    exact hall.slice? hroom
  simp only [ObjectWriter.writeHash, yields_bind, yields_read] at h
  obtain ⟨_, _, ⟨rfl, rfl⟩, h⟩ := h
  rw [hslice] at h
  obtain ⟨t', ht, rfl⟩ := (yields_onTape ..).mp h
  refine ⟨⟨t', rfl⟩, ?_⟩
  -- Only the four bytes of the hash code change.
  obtain ⟨front, back, hlen, hbytes⟩ := header_bytes_hash header
  have hold : header.bytes = front ++ Word.bytes header.hashCode ++ back := hbytes header.hashCode
  rw [hold, List.append_assoc] at ha
  rw [hstart, ← hlen] at ht
  rw [hbytes, List.append_assoc]
  exact ha.patched (by simp) ht

/-- A header without a hash code gets one if that is asked for. -/
theorem optionalHash_laid {w : ObjectWriter} {t : Tape} {s s' : Session} {header : Int32 → Header}
    {on : Bool} {name data tail : Bytes} {u : Unit}
    (hheader : ∀ hash, header hash = { header 0 with hashCode := hash })
    (ha : t.Appended s.tape ((header 0).bytes ++ (name ++ data ++ tail)))
    (hstart : w.start = t.cursor) (hdata : w.dataStart = t.cursor + (Header.size + name.length))
    (h : (if on then w.writeHash (w.dataStart + data.length) else pure ()).Yields s u s') :
    (∃ tape, s' = { s with tape }) ∧
      t.Appended s'.tape
        ((header (if on then identityHash data else 0)).bytes ++ (name ++ data ++ tail)) := by
  cases on with
  | true =>
    obtain ⟨htape, ha'⟩ := writeHash_laid ha hstart hdata h
    rw [← hheader] at ha'
    exact ⟨htape, ha'⟩
  | false =>
    obtain ⟨-, rfl⟩ := (yields_pure ..).mp h
    exact ⟨⟨s.tape, rfl⟩, ha⟩

/-- Finishing an object puts its header before its name and data and its tail behind them, and teaches
    the type service the object's schema. -/
theorem finish_laid {w : ObjectWriter} {t : Tape} {s s' : Session} {hole name data : Bytes}
    {userType : Bool} {written : WrittenObject} (ha : t.Appended s.tape (hole ++ (name ++ data)))
    (hhole : hole.length = Header.size) (hstart : w.start = t.cursor)
    (hdata : w.dataStart = t.cursor + (Header.size + name.length))
    (h : (w.finish userType).Yields s written s') :
    let compact := userType && s.service.config.compactFooter
    let header := w.header s.fields userType compact (s.tape.cursor - w.start)
      (s'.tape.cursor - w.start) (if s.service.config.identityHash then identityHash data else 0)
    (∃ tape, s' = { s with
        tape
        service := if w.fieldCount = 0 then s.service else w.taught w.schemaId s }) ∧
      t.Appended s'.tape (header.bytes ++ (name ++ data ++ w.tail s.fields compact)) ∧
      s'.tape.cursor - w.start ≤ maxWireLength ∧
      (∀ raw ∈ w.rawStart, w.start ≤ raw ∧ raw - w.start ≤ maxWireLength) ∧
      written = ⟨w.start, s'.tape.cursor - w.start, header.schemaId, w.fieldCount⟩ := by
  obtain ⟨ending, s₁, s₂, s₃, hend, hmax, hpatch, rfl, hhash, rfl⟩ := ObjectWriter.finish_yields h
  obtain ⟨⟨t₁, rfl⟩, htail, hraw, rfl⟩ := writeEnding_laid hend
  obtain ⟨t₂, ht₂, rfl⟩ := (yields_onTape ..).mp hpatch
  generalize hcompact : (userType && s.service.config.compactFooter) = compact at *
  -- At first the object has no header.
  have ha₁ : t.Appended t₁ ([] ++ hole ++ (name ++ data ++ w.tail s.fields compact)) := by
    simpa only [List.nil_append, List.append_assoc] using ha.trans htail
  -- Then it has one without a hash code.
  let header := w.header s.fields userType compact (s.tape.cursor - w.start) (t₁.cursor - w.start)
  have ha₂ : t.Appended t₂ ((header 0).bytes ++ (name ++ data ++ w.tail s.fields compact)) := by
    have hplace : w.start = t.cursor + ([] : Bytes).length := hstart
    have hlen : (header 0).bytes.length = hole.length := by rw [hhole, Header.length_bytes]
    have hpatched : (Tape.patch (t.cursor + ([] : Bytes).length) (header 0).bytes).Yields t₁ () t₂ := by
      rw [← hplace]
      exact ht₂
    exact ha₁.patched hlen hpatched
  -- In the end the hash code may be filled in.
  have hend : s.tape.cursor = w.dataStart + data.length := by
    rw [ha.cursor, hdata, List.length_append, List.length_append, hhole]
    omega
  rw [hend] at hhash
  have hheader : ∀ hash, header hash = { header 0 with hashCode := hash } := fun _ => rfl
  obtain ⟨⟨tape, rfl⟩, ha₃⟩ := optionalHash_laid hheader ha₂ hstart hdata hhash
  have hcursor : tape.cursor = t₁.cursor := by
    rw [ha₃.cursor, ha₁.cursor]
    simp only [List.nil_append, List.length_append, Header.length_bytes, hhole]
  simp only [hcursor]
  refine ⟨⟨tape, ?_⟩, ha₃, hmax, hraw, rfl⟩
  split <;> rfl

end ObjectWire
