import ObjectWire.Proofs.LittleEndian
import ObjectWire.Proofs.Wire.Tree

/-!
# Trees in their places

`Wire.Fits place w` says that the tree `w` can stand at a place: all its counts, offsets, flags and
places are the ones of the values that stand there, one directly behind the other.  It is what a reader
relies on.  `Wire.Tiled` is the part of it about fields: in every object the values of the fields lie
one behind the other, from the end of the header and the name up to the raw section or the footer.
-/

namespace ObjectWire

/-- The type can be told apart from other ones. -/
def TypeRef.Fits : TypeRef → Prop
  | .id typeId => typeId ≠ unregisteredTypeId
  | .name text => text.length ≤ maxWireLength

/-- The type that a value names. -/
def Atom.type? : Atom → Option TypeRef
  | .enum type _ | .classRef type => some type
  | _ => none

/-- Whether the value is a reference back. -/
def Atom.isHandle : Atom → Bool
  | .handle _ _ => true
  | _ => false

/-- The value can stand at a place. -/
def Atom.Fits (place : Nat) : Atom → Prop
  | .string text => text.length ≤ maxWireLength
  | .decimal _ magnitude => magnitude.length ≤ maxWireLength
  | .words tag count payload =>
    ∃ width, tag.wordWidth? = some width ∧ payload.length = count * width ∧ count ≤ maxWireLength
  | .enum type _ | .classRef type => type.Fits
  | .binaryEnum typeId name _ =>
    (typeId = unregisteredTypeId ↔ name.isSome) ∧ ∀ text ∈ name, text.length ≤ maxWireLength
  | .encoded bytes _ => bytes.length ≤ maxWireLength
  | .handle at_ target => at_ = place ∧ target ≤ place ∧ place - target ≤ maxWireLength
  | _ => True

/-- The head can stand before so many values. -/
def ListHead.Fits (items : Nat) : ListHead → Prop
  | .elements tag => tag.hasElements = true ∧ items ≤ maxWireLength
  | .objectArray type | .enumArray type => type.Fits ∧ items ≤ maxWireLength
  | .collection _ => items ≤ maxWireLength
  | .map _ => items % 2 = 0 ∧ items / 2 ≤ maxWireLength
  | .proxy interfaces =>
    items = 1 ∧ (∀ type ∈ interfaces, type.Fits) ∧ interfaces.length ≤ maxWireLength

/-- The header says what the object has, where it is, and how long the object is. -/
structure Header.Fits (header : Header) (name : Option Bytes) (fields : List (FieldAt Wire))
    (raw : Option Bytes) : Prop where
  unnamed : header.typeId = unregisteredTypeId ↔ name.isSome
  nameShort : ∀ text ∈ name, text.length ≤ maxWireLength
  hasSchema : header.flags &&& Flag.hasSchema ≠ 0 ↔ fields ≠ []
  hasRaw : header.flags &&& Flag.hasRaw ≠ 0 ↔ raw.isSome
  ids : ∀ f ∈ fields, f.id = none ↔ header.flags &&& Flag.compactFooter ≠ 0
  offsets : ∀ f ∈ fields, f.offset < 256 ^ (OffsetWidth.ofFlags header.flags).bytes
  short : (Wire.object 0 header name fields raw).bytes.length ≤ maxWireLength
  totalLength : header.totalLength =
    Int32.ofNat (Wire.object 0 header name fields raw).bytes.length
  offset : header.offset = Int32.ofNat (
    if fields.isEmpty then raw.elim 0 fun _ => frontLength name
    else frontLength name + (Wire.fieldBytes fields).length + (raw.getD []).length)

mutual

/-- The tree can stand at a place. -/
def Wire.Fits (place : Nat) : Wire → Prop
  | .atom a => a.Fits place
  | .list head items =>
    head.Fits items.length ∧ Wire.itemsFit (place + (head.bytes items.length).length) items
  | .object start header name fields raw =>
    start = place ∧ header.Fits name fields raw ∧
      Wire.fieldsFit place (place + frontLength name) fields

/-- The trees can stand one behind the other from a place on. -/
def Wire.itemsFit (place : Nat) : List Wire → Prop
  | [] => True
  | item :: items => item.Fits place ∧ Wire.itemsFit (place + item.bytes.length) items

/-- The fields of an object that starts at `start` stand one behind the other from a place on. -/
def Wire.fieldsFit (start place : Nat) : List (FieldAt Wire) → Prop
  | [] => True
  | ⟨_, offset, stop, value⟩ :: fields =>
    start + offset = place ∧ stop = place + value.bytes.length ∧ value.Fits place ∧
      Wire.fieldsFit start stop fields

end

/-- The place behind the fields of an object: there its raw section starts or, if it has none, its footer
    or, if it has no fields, the object ends. -/
def Header.fieldsEnd (header : Header) (start : Nat) (hasFields : Bool) : Option Bytes → Nat
  | some raw =>
    if hasFields then start + header.offset.toInt.toNat - raw.length
    else start + header.offset.toInt.toNat
  | none =>
    start + if hasFields then header.offset.toInt.toNat else header.totalLength.toInt.toNat

mutual

/-- In every object of the tree, the values of the fields tile the place between the header with the name
    and what stands behind the fields. -/
def Wire.Tiled : Wire → Prop
  | .atom _ => True
  | .list _ items => Wire.itemsTiled items
  | .object start header name fields raw =>
    Wire.tiles start (start + frontLength name) (header.fieldsEnd start (!fields.isEmpty) raw) fields

/-- Every one of the trees is tiled. -/
def Wire.itemsTiled : List Wire → Prop
  | [] => True
  | item :: items => item.Tiled ∧ Wire.itemsTiled items

/-- Each field of an object at `start` begins where the one before it ends, the first at `place`; the last
    ends at `stop`. -/
def Wire.tiles (start place stop : Nat) : List (FieldAt Wire) → Prop
  | [] => place = stop
  | ⟨_, offset, fieldStop, value⟩ :: fields =>
    start + offset = place ∧ value.Tiled ∧ Wire.tiles start fieldStop stop fields

end

namespace Header.Fits

variable {header : Header} {name : Option Bytes} {fields : List (FieldAt Wire)} {raw : Option Bytes}

/-- The header tells how long the object is, wherever it stands. -/
theorem totalLength_toNat (h : header.Fits name fields raw) (place : Nat) :
    header.totalLength.toInt.toNat = (Wire.object place header name fields raw).bytes.length := by
  rw [h.totalLength, toInt_ofNat h.short, Int.toNat_natCast]
  rfl

/-- The offset in the header is in range, whichever of the three it is. -/
theorem offset_le (h : header.Fits name fields raw) :
    (if fields.isEmpty then raw.elim 0 fun _ => frontLength name
      else frontLength name + (Wire.fieldBytes fields).length + (raw.getD []).length) ≤
        maxWireLength := by
  have hlen := length_parts 0 header name fields raw
  have hshort := h.short
  -- Whatever the offset leads to lies inside the object, and the object is short enough.
  split
  · cases raw with
    | none => exact Nat.zero_le _
    | some bytes =>
      show frontLength name ≤ maxWireLength
      omega
  · omega

/-- The header tells where the footer is or, if there is no footer, the raw section. -/
theorem offset_toNat (h : header.Fits name fields raw) :
    header.offset.toInt.toNat = if fields.isEmpty then raw.elim 0 fun _ => frontLength name
      else frontLength name + (Wire.fieldBytes fields).length + (raw.getD []).length := by
  rw [h.offset, toInt_ofNat h.offset_le, Int.toNat_natCast]

/-- The header of an object tells where its fields end. -/
theorem fieldsEnd (h : header.Fits name fields raw) (start : Nat) :
    header.fieldsEnd start (!fields.isEmpty) raw =
      start + frontLength name + (Wire.fieldBytes fields).length := by
  have hlen := length_parts 0 header name fields raw
  have htotal := h.totalLength_toNat 0
  have hoffset := h.offset_toNat
  cases fields with
  | nil =>
    have hnone : (Wire.fieldBytes []).length = 0 := rfl
    cases raw with
    | none =>
      -- Nothing at all stands behind the name.
      have htail : (tailBytes name [] none).length = 0 := rfl
      simp only [List.flatMap_nil, List.length_nil, Option.getD_none] at hlen
      simp only [Header.fieldsEnd, List.isEmpty_nil, Bool.not_true, Bool.false_eq_true, if_false]
      omega
    | some bytes =>
      simp only [List.isEmpty_nil, if_true, Option.elim] at hoffset
      simp only [Header.fieldsEnd, List.isEmpty_nil, Bool.not_true, Bool.false_eq_true, if_false]
      omega
  | cons f fields =>
    -- The footer follows the raw section, or the fields if there is none.
    simp only [List.isEmpty_cons, Bool.false_eq_true, if_false] at hoffset
    cases raw with
    | none =>
      simp only [Option.getD_none, List.length_nil] at hoffset
      simp only [Header.fieldsEnd, List.isEmpty_cons, Bool.not_false, if_true]
      omega
    | some bytes =>
      simp only [Option.getD_some] at hoffset
      simp only [Header.fieldsEnd, List.isEmpty_cons, Bool.not_false, if_true]
      omega

/-- What stands before the footer or, without one, the whole object, ends where the raw section does. -/
theorem footerStart (h : header.Fits name fields raw) (place : Nat) :
    (if header.flags &&& Flag.hasSchema ≠ 0 then place + header.offset.toInt.toNat
      else place + header.totalLength.toInt.toNat) =
        place + frontLength name + (Wire.fieldBytes fields).length + (raw.getD []).length := by
  -- Without fields the header does not tell of a footer, but of the raw section.
  by_cases hempty : fields = []
  · rw [if_neg fun hc => h.hasSchema.mp hc hempty, h.totalLength_toNat place, length_parts]
    subst hempty
    show place + (frontLength name + 0 + (raw.getD []).length + 0 + 0) =
      place + frontLength name + 0 + (raw.getD []).length
    omega
  · rw [if_pos (h.hasSchema.mpr hempty), h.offset_toNat, if_neg (by simpa using hempty)]
    omega

end Header.Fits

mutual

/-- What fits its place is tiled. -/
theorem Wire.Fits.tiled : ∀ {w : Wire} {place : Nat}, w.Fits place → w.Tiled
  | .atom _, _, _ => trivial
  | .list _ items, _, h => Wire.itemsTiled_of_fit h.2
  | .object start header name fields raw, place, h => by
    obtain ⟨rfl, hheader, hfields⟩ := h
    rw [Wire.Tiled, hheader.fieldsEnd]
    exact Wire.tiles_of_fit hfields

theorem Wire.itemsTiled_of_fit : ∀ {items : List Wire} {place : Nat},
    Wire.itemsFit place items → Wire.itemsTiled items
  | [], _, _ => trivial
  | _ :: _, _, h => ⟨h.1.tiled, Wire.itemsTiled_of_fit h.2⟩

/-- Fields that fit their places lie one directly behind the other. -/
theorem Wire.tiles_of_fit : ∀ {fields : List (FieldAt Wire)} {start place : Nat},
    Wire.fieldsFit start place fields →
    Wire.tiles start place (place + (Wire.fieldBytes fields).length) fields
  | [], _, _, _ => rfl
  | ⟨_, _, _, value⟩ :: fields, start, place, h => by
    obtain ⟨hplace, rfl, hvalue, hrest⟩ := h
    have hend : place + (value.bytes ++ Wire.fieldBytes fields).length =
        place + value.bytes.length + (Wire.fieldBytes fields).length := by
      rw [List.length_append, Nat.add_assoc]
    -- The other fields end where all of them do.
    refine ⟨hplace, hvalue.tiled, ?_⟩
    show Wire.tiles start _ (place + (value.bytes ++ Wire.fieldBytes fields).length) fields
    rw [hend]
    exact Wire.tiles_of_fit hrest

end

end ObjectWire
