import ObjectWire.Proofs.Image

/-!
# Objects put together

The bytes of an object that was made from a draft, part by part, and what the flags of its header say.
-/

namespace ObjectWire

namespace Image

/-- What stands behind the data: the footer and, behind it, the place of the raw section. -/
def Draft.tail (d : Draft) (compact : Bool) (rawOffset : Nat) : Bytes :=
  (d.fields.map (·.shown compact)).flatMap (FieldAt.entry d.width) ++
    if d.fields.isEmpty || d.raw.isNone then [] else countBytes rawOffset

/-- A footer has an entry for each field: an offset, and an id unless it is compact. -/
theorem length_footer (fields : List Placed) (width : OffsetWidth) (compact : Bool) :
    ((fields.map (·.shown compact)).flatMap (FieldAt.entry width)).length =
      fields.length * (width.bytes + if compact then 0 else 4) := by
  rw [length_entries width fun f hf => ?_, List.length_map]
  obtain ⟨f, -, rfl⟩ := List.mem_map.mp hf
  cases compact <;> simp [Placed.shown]

/-- What follows the data of a draft is as long as the draft says. -/
theorem Draft.length_tail (d : Draft) (compact : Bool) (rawOffset : Nat) :
    (d.tail compact rawOffset).length = d.tailLength compact := by
  rw [tail, List.length_append, length_footer, tailLength, apply_ite List.length]
  simp

/-- The flags for a footer with offsets of some width, if there is a footer, and for a raw section. -/
def endFlags (width : Option OffsetWidth) (raw : Bool) : UInt16 :=
  (width.elim 0 fun width => Flag.hasSchema ||| width.flag) ||| if raw then Flag.hasRaw else 0

/-- Without a footer only the raw section is flagged. -/
@[simp] theorem endFlags_none (raw : Bool) : endFlags none raw = if raw then Flag.hasRaw else 0 := by
  cases raw <;> decide

/-- The flags of a header tell what the object has, and how wide its footer's offsets are. -/
theorem flags_tell (user compact : Bool) (width : Option OffsetWidth) (raw : Bool) {flags : UInt16}
    (h : flags = (if user then Flag.userType else 0) |||
      (if compact then Flag.compactFooter else 0) ||| endFlags width raw) :
    (flags &&& Flag.userType ≠ 0 ↔ user = true) ∧
      (flags &&& Flag.compactFooter ≠ 0 ↔ compact = true) ∧
      (flags &&& Flag.hasSchema ≠ 0 ↔ width.isSome = true) ∧
      (flags &&& Flag.hasRaw ≠ 0 ↔ raw = true) ∧
      ∀ width' ∈ width, OffsetWidth.ofFlags flags = width' := by
  subst h
  obtain _ | _ | _ | _ := width <;> cases raw <;> cases user <;> cases compact <;> decide

/-- The width of the offsets, if there are fields. -/
def Draft.footerWidth? (d : Draft) : Option OffsetWidth :=
  if d.fields.isEmpty then none else some d.width

/-- The flags of a draft tell its footer's width and its raw section. -/
theorem Draft.flags_eq (d : Draft) : d.flags = endFlags d.footerWidth? d.raw.isSome := by
  rw [flags, footerWidth?]
  cases d.fields.isEmpty <;> cases d.raw.isSome <;> cases d.width <;> rfl

/-- From the flags of a header it can be told whether there is a footer, a raw section, and ids in the
    footer. -/
theorem flags_header (user compact : Bool) (d : Draft) {flags : UInt16}
    (h : flags = (if user then Flag.userType else 0) |||
      (if compact then Flag.compactFooter else 0) ||| d.flags) :
    (flags &&& Flag.hasSchema ≠ 0 ↔ d.fields.isEmpty = false) ∧
      (flags &&& Flag.hasRaw ≠ 0 ↔ d.raw.isSome = true) ∧
      (flags &&& Flag.compactFooter ≠ 0 ↔ compact = true) := by
  obtain ⟨-, hcompact, hschema, hraw, -⟩ := flags_tell user compact _ _ (d.flags_eq ▸ h)
  refine ⟨?_, hraw, hcompact⟩
  rw [hschema, Draft.footerWidth?]
  cases d.fields.isEmpty <;> simp

/-- So can the width of the footer's offsets. -/
theorem ofFlags_header (user compact : Bool) {d : Draft} (h : d.fields.isEmpty = false) :
    OffsetWidth.ofFlags ((if user then Flag.userType else 0) |||
      (if compact then Flag.compactFooter else 0) ||| d.flags) = d.width := by
  obtain ⟨-, -, -, -, hwidth⟩ := flags_tell user compact d.footerWidth? d.raw.isSome rfl
  rw [d.flags_eq]
  apply hwidth
  rw [Draft.footerWidth?, h]
  rfl

/-- How a field's id is shown has no part in the bytes of its value. -/
theorem fieldBytes_shown (fields : List Placed) (compact : Bool) :
    Wire.fieldBytes (fields.map (·.shown compact)) = fields.flatMap (·.value.bytes) := by
  induction fields with
  | nil => rfl
  | cons f fields ih => rw [List.map_cons, List.flatMap_cons, ← ih]; rfl

/-- The bytes of an object are its header, its name, its data and its tail. -/
theorem bytes_object (d : Draft) (start : Nat) {header : Header} (name : Option Bytes)
    (compact : Bool) (h : d.fields.isEmpty = false → OffsetWidth.ofFlags header.flags = d.width) :
    (Wire.object start header name (d.fields.map (·.shown compact)) d.rawBytes?).bytes =
      header.bytes ++ (name.elim [] nameBytes ++ d.data ++
        d.tail compact (Header.size + (name.elim [] nameBytes).length + d.fieldBytes.length)) := by
  have hempty : (d.fields.map (·.shown compact)).isEmpty = d.fields.isEmpty := List.isEmpty_map
  have hfooter : (d.fields.map (·.shown compact)).flatMap
      (FieldAt.entry (.ofFlags header.flags)) =
        (d.fields.map (·.shown compact)).flatMap (FieldAt.entry d.width) := by
    cases hd : d.fields.isEmpty with
    | true => rw [List.isEmpty_iff.mp hd]; rfl
    | false => rw [h hd]
  rw [Wire.bytes, fieldBytes_shown, hempty, hfooter]
  simp only [Draft.tail, Draft.data, Draft.fieldBytes, Draft.getD_rawBytes?, Draft.isNone_rawBytes?,
    List.append_assoc, List.length_append, Header.length_bytes, Nat.add_assoc]

end Image

end ObjectWire
