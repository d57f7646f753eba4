import ObjectWire.Proofs.Wire.Reads
import ObjectWire.Proofs.Wire.Tree

/-!
# Hash codes in trees

An object has its hash code in four bytes of its header, and the code is taken of the data behind header
and name.  `Wire.slots` tells for every object of a tree where both are.  `Wire.Coded` says that the objects
stand where they say and have the codes that they should, which their bytes then show
(`Wire.Coded.slots_hold`), and two trees that differ in their codes have the same bytes outside the slots
(`Wire.Coded.agreeOutside`).
-/

namespace ObjectWire

open Reader

/-- Where an object has its hash code, and what data the code is taken of. -/
structure HashSlot where
  /-- The place where the object starts. -/
  start : Nat
  /-- The place behind its header and its name. -/
  front : Nat
  /-- The place of its footer, or behind the object if there is none. -/
  stop : Nat
deriving DecidableEq, Repr

/-- The byte belongs to the hash code. -/
def HashSlot.Covers (slot : HashSlot) (i : Nat) : Prop :=
  slot.start + Header.hashCodeOffset ≤ i ∧ i < slot.start + Header.hashCodeOffset + 4

/-- How far behind the object's start its data ends, as the header tells it. -/
def Header.dataEnd (header : Header) (hasFields : Bool) : Nat :=
  (if hasFields then header.offset else header.totalLength).toInt.toNat

mutual

/-- The slots of all objects in a tree. -/
def Wire.slots : Wire → List HashSlot
  | .atom _ => []
  | .list _ items => Wire.itemSlots items
  | .object start header name fields _ =>
    ⟨start, start + frontLength name, start + header.dataEnd (!fields.isEmpty)⟩ ::
      Wire.fieldSlots fields

/-- The slots in the values of a list. -/
def Wire.itemSlots : List Wire → List HashSlot
  | [] => []
  | item :: items => item.slots ++ Wire.itemSlots items

/-- The slots in the values of fields. -/
def Wire.fieldSlots : List (FieldAt Wire) → List HashSlot
  | [] => []
  | ⟨_, _, _, value⟩ :: fields => value.slots ++ Wire.fieldSlots fields

end

mutual

/-- The tree with all hash codes left zero. -/
def Wire.unhashed : Wire → Wire
  | .atom a => .atom a
  | .list head items => .list head (Wire.itemsUnhashed items)
  | .object start header name fields raw =>
    .object start { header with hashCode := 0 } name (Wire.fieldsUnhashed fields) raw

/-- The values of a list with all hash codes left zero. -/
def Wire.itemsUnhashed : List Wire → List Wire
  | [] => []
  | item :: items => item.unhashed :: Wire.itemsUnhashed items

/-- The fields of an object with all hash codes left zero. -/
def Wire.fieldsUnhashed : List (FieldAt Wire) → List (FieldAt Wire)
  | [] => []
  | ⟨id, offset, stop, value⟩ :: fields =>
    ⟨id, offset, stop, value.unhashed⟩ :: Wire.fieldsUnhashed fields

end

mutual

/-- From a place on every object of the tree stands where it says, its header tells where its data ends,
    and its hash code is worked out of its data. -/
def Wire.Coded (code : Bytes → Int32) (place : Nat) : Wire → Prop
  | .atom _ => True
  | .list head items => Wire.itemsCoded code (place + (head.bytes items.length).length) items
  | .object start header name fields raw =>
    start = place ∧ header.hashCode = code (Wire.fieldBytes fields ++ raw.getD []) ∧
      header.dataEnd (!fields.isEmpty) =
        frontLength name + (Wire.fieldBytes fields ++ raw.getD []).length ∧
      Wire.fieldsCoded code (place + frontLength name) fields

/-- The same for trees one behind the other. -/
def Wire.itemsCoded (code : Bytes → Int32) (place : Nat) : List Wire → Prop
  | [] => True
  | item :: items => item.Coded code place ∧ Wire.itemsCoded code (place + item.bytes.length) items

/-- The same for the values of fields. -/
def Wire.fieldsCoded (code : Bytes → Int32) (place : Nat) : List (FieldAt Wire) → Prop
  | [] => True
  | ⟨_, _, _, value⟩ :: fields =>
    value.Coded code place ∧ Wire.fieldsCoded code (place + value.bytes.length) fields

end

section Unhashed

/-- Each item is there still without its hash codes. -/
theorem Wire.length_itemsUnhashed (items : List Wire) :
    (Wire.itemsUnhashed items).length = items.length := by
  induction items with
  | nil => rfl
  | cons item items ih => exact congrArg (· + 1) ih

/-- An object has fields without its hash codes if it has some with them. -/
theorem Wire.isEmpty_fieldsUnhashed (fields : List (FieldAt Wire)) :
    (Wire.fieldsUnhashed fields).isEmpty = fields.isEmpty := by
  cases fields <;> rfl

/-- A footer tells nothing of the values. -/
theorem Wire.entries_fieldsUnhashed (width : OffsetWidth) (fields : List (FieldAt Wire)) :
    (Wire.fieldsUnhashed fields).flatMap (FieldAt.entry width) = fields.flatMap (FieldAt.entry width) := by
  induction fields with
  | nil => rfl
  | cons f fields ih => exact congrArg (f.entry width ++ ·) ih

mutual

/-- Hash codes make nothing longer. -/
theorem Wire.length_unhashed : ∀ w : Wire, w.unhashed.bytes.length = w.bytes.length
  | .atom _ => rfl
  | .list head items => by
    rw [Wire.unhashed, Wire.bytes, Wire.bytes, Wire.length_itemsUnhashed, List.length_append,
      List.length_append, Wire.length_itemBytes_unhashed items]
  | .object start header name fields raw => by
    have htail : (tailBytes name (Wire.fieldsUnhashed fields) raw).length =
        (tailBytes name fields raw).length := by
      simp only [tailBytes, Wire.isEmpty_fieldsUnhashed, Wire.length_fieldBytes_unhashed fields]
    rw [Wire.unhashed, length_parts, length_parts, Wire.length_fieldBytes_unhashed fields,
      Wire.entries_fieldsUnhashed, htail]

/-- The items of a list take the same room without their hash codes. -/
theorem Wire.length_itemBytes_unhashed : ∀ items : List Wire,
    (Wire.itemBytes (Wire.itemsUnhashed items)).length = (Wire.itemBytes items).length
  | [] => rfl
  | item :: items => by
    rw [Wire.itemsUnhashed, Wire.itemBytes, Wire.itemBytes, List.length_append, List.length_append,
      Wire.length_unhashed item, Wire.length_itemBytes_unhashed items]

/-- The values of fields take the same room without their hash codes. -/
theorem Wire.length_fieldBytes_unhashed : ∀ fields : List (FieldAt Wire),
    (Wire.fieldBytes (Wire.fieldsUnhashed fields)).length = (Wire.fieldBytes fields).length
  | [] => rfl
  | ⟨_, _, _, value⟩ :: fields => by
    rw [Wire.fieldsUnhashed, Wire.fieldBytes, Wire.fieldBytes, List.length_append, List.length_append,
      Wire.length_unhashed value, Wire.length_fieldBytes_unhashed fields]

end

mutual

/-- The slots are where they were when the hash codes are taken out of them. -/
theorem Wire.slots_unhashed : ∀ w : Wire, w.unhashed.slots = w.slots
  | .atom _ => rfl
  | .list _ items => Wire.itemSlots_unhashed items
  | .object start header name fields raw => by
    rw [Wire.unhashed, Wire.slots, Wire.slots, Wire.fieldSlots_unhashed fields,
      Wire.isEmpty_fieldsUnhashed]
    rfl

theorem Wire.itemSlots_unhashed : ∀ items : List Wire,
    Wire.itemSlots (Wire.itemsUnhashed items) = Wire.itemSlots items
  | [] => rfl
  | item :: items => by
    rw [Wire.itemsUnhashed, Wire.itemSlots, Wire.itemSlots, Wire.slots_unhashed item,
      Wire.itemSlots_unhashed items]

theorem Wire.fieldSlots_unhashed : ∀ fields : List (FieldAt Wire),
    Wire.fieldSlots (Wire.fieldsUnhashed fields) = Wire.fieldSlots fields
  | [] => rfl
  | ⟨_, _, _, value⟩ :: fields => by
    rw [Wire.fieldsUnhashed, Wire.fieldSlots, Wire.fieldSlots, Wire.slots_unhashed value,
      Wire.fieldSlots_unhashed fields]

end

variable {code : Bytes → Int32}

mutual

/-- Zero is the code of all data where no codes are filled in. -/
theorem Wire.Coded.unhashed : ∀ {w : Wire} {place : Nat}, w.Coded code place →
    w.unhashed.Coded (fun _ => 0) place
  | .atom _, _, _ => trivial
  | .list head items, place, h => by
    rw [Wire.unhashed, Wire.Coded, Wire.length_itemsUnhashed]
    exact Wire.itemsCoded_unhashed h
  | .object start header name fields raw, place, h => by
    obtain ⟨hstart, -, hend, hfields⟩ := h
    refine ⟨hstart, rfl, ?_, Wire.fieldsCoded_unhashed hfields⟩
    rw [Wire.isEmpty_fieldsUnhashed, List.length_append, Wire.length_fieldBytes_unhashed,
      ← List.length_append]
    exact hend

/-- Items are coded with zeros once their hash codes are taken out. -/
theorem Wire.itemsCoded_unhashed : ∀ {items : List Wire} {place : Nat},
    Wire.itemsCoded code place items → Wire.itemsCoded (fun _ => 0) place (Wire.itemsUnhashed items)
  | [], _, _ => trivial
  | item :: items, place, h => by
    refine ⟨h.1.unhashed, ?_⟩
    rw [Wire.length_unhashed]
    exact Wire.itemsCoded_unhashed h.2

theorem Wire.fieldsCoded_unhashed : ∀ {fields : List (FieldAt Wire)} {place : Nat},
    Wire.fieldsCoded code place fields → Wire.fieldsCoded (fun _ => 0) place (Wire.fieldsUnhashed fields)
  | [], _, _ => trivial
  | ⟨_, _, _, value⟩ :: fields, place, h => by
    refine ⟨h.1.unhashed, ?_⟩
    rw [Wire.length_unhashed]
    exact Wire.fieldsCoded_unhashed h.2

end

end Unhashed

section Slots

/-- The bytes of a header around its hash code. -/
theorem Header.bytes_around (h : Header) : ∃ fore aft, fore.length = Header.hashCodeOffset ∧
    ∀ hashCode, Header.bytes { h with hashCode } = fore ++ (Word.bytes hashCode ++ aft) := by
  refine ⟨Tag.object.code :: version :: (Word.bytes h.flags ++ Word.bytes h.typeId),
    Word.bytes h.totalLength ++ (Word.bytes h.schemaId ++ Word.bytes h.offset), ?_, fun hashCode => ?_⟩
  · simp [hashCodeOffset, Word.width]
  · simp only [bytes, List.append_assoc, List.cons_append]

/-- What stands at a place can be cut out there. -/
theorem Reader.Holds.extract_eq {bs seg : Bytes} {place : Nat} (h : Holds bs place seg) :
    bs.extract place (place + seg.length) = seg := by
  obtain ⟨-, rest, hrest⟩ := h
  rw [List.extract_eq_take_drop, ← hrest, Nat.add_sub_cancel_left, List.take_left]

variable {code : Bytes → Int32} {bs : Bytes}

mutual

/-- The bytes have in every slot the code of the data that the slot tells of. -/
theorem Wire.Coded.slots_hold : ∀ {w : Wire} {place : Nat}, w.Coded code place → Holds bs place w.bytes →
    ∀ slot ∈ w.slots, Holds bs (slot.start + Header.hashCodeOffset)
      (Word.bytes (code (bs.extract slot.front slot.stop)))
  | .atom _, _, _, _ => nofun
  | .list head items, place, h, hholds => Wire.itemsCoded_hold h (holds_append.mp hholds).2
  | .object start header name fields raw, place, h, hholds => by
    obtain ⟨rfl, hcode, hend, hfields⟩ := h
    rw [bytes_parts] at hholds
    obtain ⟨hheader, hrest⟩ := holds_append.mp hholds
    obtain ⟨-, hrest⟩ := holds_append.mp hrest
    rw [Header.length_bytes, Nat.add_assoc] at hrest
    have hvalues := (holds_append.mp hrest).1
    have hdata : Holds bs (start + frontLength name) (Wire.fieldBytes fields ++ raw.getD []) := by
      rw [← List.append_assoc] at hrest
      exact (holds_append.mp hrest).1
    -- The slot of the object itself is in its header, and those inside it are in the values of its fields.
    intro slot hslot
    obtain rfl | hslot := List.mem_cons.mp hslot
    · obtain ⟨fore, aft, hfore, hbytes⟩ := header.bytes_around
      have hwhole : header.bytes = _ := hbytes header.hashCode
      rw [hwhole] at hheader
      obtain ⟨-, hword⟩ := holds_append.mp hheader
      have hcut := hdata.extract_eq
      simp only [hend, ← Nat.add_assoc, hcut, ← hcode]
      rw [← hfore]
      exact (holds_append.mp hword).1
    · exact Wire.fieldsCoded_hold hfields hvalues slot hslot

/-- The slots of the items of a list hold what they should. -/
theorem Wire.itemsCoded_hold : ∀ {items : List Wire} {place : Nat}, Wire.itemsCoded code place items →
    Holds bs place (Wire.itemBytes items) → ∀ slot ∈ Wire.itemSlots items,
      Holds bs (slot.start + Header.hashCodeOffset)
        (Word.bytes (code (bs.extract slot.front slot.stop)))
  | [], _, _, _ => nofun
  | item :: items, place, h, hholds => by
    obtain ⟨hfirst, hrest⟩ := holds_append.mp hholds
    intro slot hslot
    obtain hslot | hslot := List.mem_append.mp hslot
    · exact h.1.slots_hold hfirst slot hslot
    · exact Wire.itemsCoded_hold h.2 hrest slot hslot

/-- The slots inside the fields of an object hold what they should. -/
theorem Wire.fieldsCoded_hold : ∀ {fields : List (FieldAt Wire)} {place : Nat},
    Wire.fieldsCoded code place fields → Holds bs place (Wire.fieldBytes fields) →
    ∀ slot ∈ Wire.fieldSlots fields, Holds bs (slot.start + Header.hashCodeOffset)
      (Word.bytes (code (bs.extract slot.front slot.stop)))
  | [], _, _, _ => nofun
  | ⟨_, _, _, value⟩ :: fields, place, h, hholds => by
    obtain ⟨hfirst, hrest⟩ := holds_append.mp hholds
    intro slot hslot
    obtain hslot | hslot := List.mem_append.mp hslot
    · exact h.1.slots_hold hfirst slot hslot
    · exact Wire.fieldsCoded_hold h.2 hrest slot hslot

end

end Slots

/-- Two strings of bytes that stand at one place are as long as each other and differ in slots at most. -/
structure AgreeOutside (slots : List HashSlot) (place : Nat) (as bs : Bytes) : Prop where
  length : bs.length = as.length
  byte : ∀ i, (∀ slot ∈ slots, ¬ slot.Covers (place + i)) → bs[i]? = as[i]?

namespace AgreeOutside

variable {slots slots' : List HashSlot} {place : Nat} {as bs as' bs' : Bytes}

theorem refl (place : Nat) (bs : Bytes) : AgreeOutside slots place bs bs := ⟨rfl, fun _ _ => rfl⟩

/-- Bytes may be allowed to differ in more slots. -/
theorem mono (h : AgreeOutside slots place as bs) (hsub : slots ⊆ slots') :
    AgreeOutside slots' place as bs :=
  ⟨h.length, fun i hi => h.byte i fun slot hslot => hi slot (hsub hslot)⟩

/-- Bytes that agree outside some slots, and more that do so behind them, agree together. -/
theorem append (h : AgreeOutside slots place as bs)
    (h' : AgreeOutside slots (place + as.length) as' bs') :
    AgreeOutside slots place (as ++ as') (bs ++ bs') := by
  constructor
  · rw [List.length_append, List.length_append, h.length, h'.length]
  · intro i hi
    -- A byte lies in the first part or behind it.
    by_cases hlt : i < as.length
    · rw [List.getElem?_append_left hlt, List.getElem?_append_left (h.length ▸ hlt)]
      exact h.byte i hi
    · have hle := Nat.le_of_not_lt hlt
      rw [List.getElem?_append_right hle, List.getElem?_append_right (h.length ▸ hle), h.length]
      refine h'.byte _ fun slot hslot => ?_
      rw [Nat.add_assoc, Nat.add_sub_cancel' hle]
      exact hi slot hslot

/-- In a slot anything may stand. -/
theorem word {slot : HashSlot} (hslot : slot ∈ slots) (hplace : slot.start + Header.hashCodeOffset = place)
    (x y : Int32) : AgreeOutside slots place (Word.bytes x) (Word.bytes y) := by
  have hx : (Word.bytes x).length = 4 := Word.length_bytes x
  have hy : (Word.bytes y).length = 4 := Word.length_bytes y
  constructor
  · rw [hx, hy]
  · intro i hi
    have hout := hi slot hslot
    have hle : 4 ≤ i := by
      simp only [HashSlot.Covers, hplace] at hout
      omega
    rw [List.getElem?_eq_none (by omega), List.getElem?_eq_none (by omega)]

end AgreeOutside

section

variable {code : Bytes → Int32}

mutual

/-- Without hash codes a tree has the same bytes outside its slots. -/
theorem Wire.Coded.agreeOutside : ∀ {w : Wire} {place : Nat}, w.Coded code place →
    AgreeOutside w.slots place w.bytes w.unhashed.bytes
  | .atom _, _, _ => .refl _ _
  | .list head items, place, h => by
    rw [Wire.unhashed, Wire.bytes, Wire.bytes, Wire.length_itemsUnhashed]
    exact AgreeOutside.append (.refl _ _) (Wire.itemsCoded_agreeOutside h)
  | .object start header name fields raw, place, h => by
    obtain ⟨rfl, -, -, hfields⟩ := h
    obtain ⟨fore, aft, hfore, hbytes⟩ := header.bytes_around
    have hwhole : header.bytes = _ := hbytes header.hashCode
    have htail : tailBytes name (Wire.fieldsUnhashed fields) raw = tailBytes name fields raw := by
      simp only [tailBytes, Wire.isEmpty_fieldsUnhashed, Wire.length_fieldBytes_unhashed fields]
    rw [Wire.unhashed, bytes_parts, bytes_parts, Wire.entries_fieldsUnhashed, htail]
    -- Header, name, values and tail: only the first and the third have slots in them.
    refine AgreeOutside.append ?_ (AgreeOutside.append (.refl _ _) (AgreeOutside.append ?_ (.refl _ _)))
    · rw [hwhole, hbytes]
      refine AgreeOutside.append (.refl _ _) (AgreeOutside.append ?_ (.refl _ _))
      exact .word List.mem_cons_self (by rw [hfore]) _ _
    · rw [Header.length_bytes, Nat.add_assoc]
      exact (Wire.fieldsCoded_agreeOutside hfields).mono (List.subset_cons_self _ _)

/-- The items of a list differ from those without hash codes in their own slots only. -/
theorem Wire.itemsCoded_agreeOutside : ∀ {items : List Wire} {place : Nat},
    Wire.itemsCoded code place items → AgreeOutside (Wire.itemSlots items) place (Wire.itemBytes items)
      (Wire.itemBytes (Wire.itemsUnhashed items))
  | [], _, _ => .refl _ _
  | _ :: _, _, h =>
    AgreeOutside.append (h.1.agreeOutside.mono (List.subset_append_left _ _))
      ((Wire.itemsCoded_agreeOutside h.2).mono (List.subset_append_right _ _))

/-- The values of fields differ from those without hash codes in their own slots only. -/
theorem Wire.fieldsCoded_agreeOutside : ∀ {fields : List (FieldAt Wire)} {place : Nat},
    Wire.fieldsCoded code place fields → AgreeOutside (Wire.fieldSlots fields) place
      (Wire.fieldBytes fields) (Wire.fieldBytes (Wire.fieldsUnhashed fields))
  | [], _, _ => .refl _ _
  | ⟨_, _, _, _⟩ :: _, _, h =>
    AgreeOutside.append (h.1.agreeOutside.mono (List.subset_append_left _ _))
      ((Wire.fieldsCoded_agreeOutside h.2).mono (List.subset_append_right _ _))

end

end

end ObjectWire
