import ObjectWire.Proofs.Finish
import ObjectWire.Proofs.Refusals
import ObjectWire.Proofs.Wire.Reads

/-!
# Footers

A footer is a table of entries of one width, one for each field.  The width is chosen by the last offset, and
every other offset is cut to it; nothing is lost by that as long as the offsets never fall
(`lt_footerWidth`).  So a reader that is told the width and the number of entries gets back what was
written, entry by entry (`Reader.reads_footer`).
-/

namespace ObjectWire

open ObjectWire.Action

namespace OffsetWidth

section

variable (a b c : UInt16)

/-- A mask of flags that are combined is the masks combined. -/
theorem and_or_left : a &&& (b ||| c) = a &&& b ||| a &&& c := by
  apply UInt16.toBitVec_inj.mp
  ext i hi
  simp [Bool.and_or_distrib_left]

/-- So is a combination under a mask. -/
theorem or_and_right : (a ||| b) &&& c = a &&& c ||| b &&& c := by
  apply UInt16.toBitVec_inj.mp
  ext i hi
  simp [Bool.and_or_distrib_right]

end

/-- The flag of a width tells the width beside any flags that say nothing of widths. -/
theorem ofFlags_or (width : OffsetWidth) {bits : UInt16}
    (h : bits &&& (Flag.oneByteOffsets ||| Flag.twoByteOffsets) = 0) :
    ofFlags (width.flag ||| bits) = width := by
  rw [and_or_left, UInt16.or_eq_zero_iff] at h
  unfold ofFlags
  rw [or_and_right, or_and_right, h.1, h.2, UInt16.or_zero, UInt16.or_zero]
  cases width <;> decide

end OffsetWidth

section

variable {fields : List FieldEntry}

/-- If the offsets never fall, the width for the last one holds them all. -/
theorem lt_footerWidth (h : fields.Pairwise fun e e' => e.offset.toNat ≤ e'.offset.toNat)
    {e : FieldEntry} (he : e ∈ fields) : e.offset.toNat < 256 ^ (footerWidth fields).bytes := by
  obtain ⟨last, hlast⟩ : ∃ last, fields.getLast? = some last :=
    ⟨_, List.getLast?_eq_some_getLast (List.ne_nil_of_mem he)⟩
  have hle : e.offset.toNat ≤ last.offset.toNat := by
    obtain ⟨before, rfl⟩ := List.getLast?_eq_some_iff.mp hlast
    obtain he | he := List.mem_append.mp he
    · exact (List.pairwise_append.mp h).2.2 e he last (List.mem_singleton_self _)
    · exact Nat.le_of_eq (congrArg (·.offset.toNat) (List.mem_singleton.mp he))
  rw [footerWidth, hlast]
  exact OffsetWidth.lt_of_forOffset hle last.offset.toNat_lt

/-- A width that holds all offsets is not narrower. -/
theorem footerWidth_le {width : OffsetWidth} (h : ∀ e ∈ fields, e.offset.toNat < 256 ^ width.bytes) :
    (footerWidth fields).bytes ≤ width.bytes := by
  apply OffsetWidth.forOffset_le
  cases hlast : fields.getLast? with
  | none => exact Nat.pow_pos (by decide)
  | some last => exact h last (List.mem_of_getLast? hlast)

end

namespace Reader

/-- Reads one entry of a footer: the id, unless the footer is compact, and the offset. -/
def entry (bs : Bytes) (width : OffsetWidth) (compact : Bool) : Reader (Option Int32 × Nat) := do
  let id ← optional (compact = false) (i32 bs)
  return (id, ← number bs width.bytes)

/-- Reads a footer of so many entries. -/
def entries (bs : Bytes) (width : OffsetWidth) (compact : Bool) (count : Nat) :
    Reader (List (Option Int32 × Nat)) := times (entry bs width compact) count

end Reader

/-- What a footer tells of a field. -/
def FieldEntry.told (compact : Bool) (e : FieldEntry) : Option Int32 × Nat :=
  (if compact then none else some e.id, e.offset.toNat)

namespace Reader

variable {bs : Bytes} {compact : Bool}

/-- An entry of a footer is read back, if its offset fits the width. -/
theorem reads_entry {width : OffsetWidth} {e : FieldEntry} (h : e.offset.toNat < 256 ^ width.bytes) :
    Reads bs (entry bs width compact) (ObjectWire.footerEntry width compact e) (e.told compact) := by
  cases compact with
  | false =>
    have hid : Reads bs (optional (false = false) (i32 bs)) (Word.bytes e.id) (some e.id) :=
      (reads_i32 e.id).map some
    exact hid.bind ((reads_number width.bytes h).last (.pure _))
  | true =>
    have hid : Reads bs (optional (true = false) (i32 bs)) [] none := .pure none
    exact hid.bind ((reads_number width.bytes h).last (.pure _))

/-- So are the entries of a whole footer, one behind the other. -/
theorem reads_entries {width : OffsetWidth} {fields : List FieldEntry}
    (h : ∀ e ∈ fields, e.offset.toNat < 256 ^ width.bytes) :
    Reads bs (entries bs width compact fields.length)
      (fields.flatMap (ObjectWire.footerEntry width compact)) (fields.map (·.told compact)) := by
  induction fields with
  | nil => exact .pure []
  | cons e fields ih =>
    obtain ⟨he, hrest⟩ := List.forall_mem_cons.mp h
    exact (reads_entry he).bind ((ih hrest).last (.pure _))

/-- A footer is read back entry by entry, in order. -/
theorem reads_footer {fields : List FieldEntry}
    (h : fields.Pairwise fun e e' => e.offset.toNat ≤ e'.offset.toNat) :
    Reads bs (entries bs (footerWidth fields) compact fields.length) (ObjectWire.footer fields compact)
      (fields.map (·.told compact)) :=
  reads_entries fun _ he => lt_footerWidth h he

end Reader

namespace FieldStack

/-- On a tape that grows by the length of the footer, the footer of the last fields is laid at the cursor
    and nothing else.  If the offsets never fall, it is read back, with the width that the write tells, as
    the same offsets in the same order and, unless the footer is compact, the same ids.  No narrower
    width holds all offsets, and the flag of this one tells it beside any other flags of a header.  What
    lies deeper on the stack plays no part. -/
theorem writeFooter_read (s : FieldStack) {count : Nat} (hcount : count ≤ s.size) (compact : Bool)
    {t t₁ : Tape}
    (hgrow : (Tape.reserve (count * ((footerWidth (s.last count)).bytes +
      if compact then 0 else 4))).Yields t () t₁)
    (hordered : (s.last count).Pairwise fun e e' => e.offset.toNat ≤ e'.offset.toNat) :
    ∃ t' width bytes, (s.writeFooter count compact).Yields t width t' ∧
      t.Appended t' bytes ∧
      bytes.length = count * (width.bytes + if compact then 0 else 4) ∧
      Reader.entries bytes width compact count 0 =
        some ((s.last count).map (·.told compact), bytes.length) ∧
      (∀ e ∈ s.last count, e.offset.toNat < 256 ^ width.bytes) ∧
      (∀ other : OffsetWidth, (∀ e ∈ s.last count, e.offset.toNat < 256 ^ other.bytes) →
        width.bytes ≤ other.bytes) ∧
      (∀ bits : UInt16, bits &&& (Flag.oneByteOffsets ||| Flag.twoByteOffsets) = 0 →
        OffsetWidth.ofFlags (width.flag ||| bits) = width) ∧
      ∀ deeper : List FieldEntry,
        writeFooter ⟨s.entries.take count ++ deeper⟩ count compact = s.writeFooter count compact := by
  have hlength : (s.last count).length = count := by
    rw [last, List.length_reverse, List.length_take]
    exact Nat.min_eq_left hcount
  have hbytes : (footer (s.last count) compact).length =
      count * ((footerWidth (s.last count)).bytes + if compact then 0 else 4) := by
    rw [length_footer_entries, hlength]
  -- The room that was made is as much as the entries take.
  obtain ⟨t', hput⟩ : ∃ t', (Tape.put (footer (s.last count) compact)).Yields t₁ () t' :=
    ⟨_, if_pos (Tape.reserved_room (Nat.le_of_eq hbytes) hgrow)⟩
  have hwrite : (s.writeFooter count compact).Yields t (footerWidth (s.last count)) t' := by
    simp only [writeFooter, yields_bind, yields_pure, hlength]
    exact ⟨(), t₁, hgrow, (), t', hput, trivial, rfl⟩
  refine ⟨t', _, _, hwrite, (writeFooter_appended hwrite).2, hbytes, ?_,
    fun e he => lt_footerWidth hordered he, fun other h => footerWidth_le h,
    fun bits h => OffsetWidth.ofFlags_or _ h, fun deeper => ?_⟩
  · have hread := Reader.reads_footer hordered 0 (Reader.holds_self (footer (s.last count) compact))
    rw [hlength, Nat.zero_add] at hread
    exact hread
  · -- Of the stack only the top entries are looked at.
    have hlast : last ⟨s.entries.take count ++ deeper⟩ count = s.last count := by
      have htake : (s.entries.take count).length = count := by rwa [last, List.length_reverse] at hlength
      rw [last, last, List.take_left' htake]
    rw [writeFooter, writeFooter, hlast]

/-- The fields of two objects, one inside the other.  The one around it has gone further than two bytes can
    tell. -/
def sampleNested : FieldStack := ⟨[⟨2, 300⟩, ⟨1, 24⟩, ⟨9, 70000⟩]⟩

/-- The two fields of a nested object are read back from its footer, without those of the object around
    it. -/
theorem writeFooter_read_sample :
    ∃ t' bytes, (sampleNested.writeFooter 2 false).Yields (Tape.new .heap 4) .two t' ∧
      bytes.length = 12 ∧
      Reader.entries bytes .two false 2 0 = some ([(some 1, 24), (some 2, 300)], 12) := by
  have hgrow : (Tape.reserve 12).Yields (Tape.new .heap 4) () (Tape.reserve 12 (Tape.new .heap 4)).2 := rfl
  obtain ⟨t', width, bytes, hwrite, -, hlen, hread, hfits, hnarrow, -⟩ :=
    sampleNested.writeFooter_read (show 2 ≤ 3 by decide) false hgrow (by decide)
  have hwidth : width = .two := by
    have h300 : 300 < 256 ^ width.bytes := hfits ⟨2, 300⟩ (by decide)
    have htwo : width.bytes ≤ 2 := hnarrow .two (by decide)
    cases width with
    | one => exact absurd h300 (by decide)
    | two => rfl
    | four => exact absurd htwo (by decide)
  subst hwidth
  rw [hlen] at hread
  exact ⟨t', bytes, hwrite, hlen, hread⟩

end FieldStack

end ObjectWire
