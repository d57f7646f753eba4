import ObjectWire.Wire.Header
import ObjectWire.Wire.Length

/-!
# What a reader sees

A string of bytes read by the wire's grammar is a tree.  An `Atom` has no other value inside, a list is
some values behind a head that says how many and what kind of list they are, and an object has its
header, its fields in the order of its footer, and its raw section.  Texts and names are kept as their
bytes.  Places are counted from the start of the string of bytes.

`Wire.bytes` is the way back: the bytes that a tree stands for.
-/

namespace ObjectWire

/-- A byte is a word of one byte. -/
theorem Word.bytes_byte (b : UInt8) : Word.bytes b = [b] := by
  simp [Word.bytes, LittleEndian.encode, Word.width, Word.pattern]

/-- A type on the wire: its id, or the name of a type that has none. -/
inductive TypeRef where
  | id (typeId : Int32)
  | name (text : Bytes)
deriving DecidableEq, Repr

/-- A value on the wire with no other value inside. -/
inductive Atom where
  | null
  | byte (v : UInt8)
  | short (v : Int16)
  | int (v : Int32)
  | long (v : Int64)
  | float (v : Single)
  | double (v : Double)
  | char (v : UInt16)
  | bool (v : Bool)
  | string (text : Bytes)
  | uuid (most least : UInt64)
  | date (millis : Int64)
  | timestamp (millis : Int64) (nanos : Int32)
  | time (millis : Int64)
  | decimal (scale : Int32) (magnitude : Bytes)
  /-- An array of words: its tag, the number of its words, and their bytes. -/
  | words (tag : Tag) (count : Nat) (payload : Bytes)
  | enum (type : TypeRef) (ordinal : Int32)
  | binaryEnum (typeId : Int32) (name : Option Bytes) (ordinal : Int32)
  | classRef (type : TypeRef)
  | encoded (bytes : Bytes) (start : Int32)
  /-- A reference from its own place back to the place of a value written before. -/
  | handle (place target : Nat)
deriving DecidableEq, Repr

/-- What stands before the values of a list. -/
inductive ListHead where
  /-- An array of tagged elements of one kind. -/
  | elements (tag : Tag)
  | objectArray (component : TypeRef)
  | collection (kind : UInt8)
  /-- The values are the entries' keys and values, each key before its value. -/
  | map (kind : UInt8)
  | enumArray (type : TypeRef)
  /-- The one value is the handler. -/
  | proxy (interfaces : List TypeRef)
deriving DecidableEq, Repr

/-- A field as its object's footer tells it. -/
structure FieldAt (α : Type) where
  /-- The field's id, left out of a compact footer. -/
  id : Option Int32
  /-- Where the value starts, counted from the object's start. -/
  offset : Nat
  /-- The place behind the value. -/
  stop : Nat
  value : α
deriving Repr

/-- A value on the wire. -/
inductive Wire where
  | atom (a : Atom)
  | list (head : ListHead) (items : List Wire)
  /-- An object: the place it starts at, its header, the name of an unregistered type, its fields, and
      its raw section. -/
  | object (start : Nat) (header : Header) (name : Option Bytes) (fields : List (FieldAt Wire))
    (raw : Option Bytes)

instance : Inhabited Wire := ⟨.atom .null⟩

/-- The number of bytes of a word in an array of words of this tag. -/
def Tag.wordWidth? : Tag → Option Nat
  | .byteArray | .boolArray => some 1
  | .shortArray | .charArray => some 2
  | .intArray | .floatArray => some 4
  | .longArray | .doubleArray => some 8
  | _ => none

/-- Whether an array of this tag holds tagged elements. -/
def Tag.hasElements : Tag → Bool
  | .stringArray | .uuidArray | .dateArray | .timestampArray | .timeArray | .decimalArray => true
  | _ => false

/-- A length or count on the wire. -/
def countBytes (n : Nat) : Bytes := Word.bytes (Int32.ofNat n)

/-- A count that can be written is not negative. -/
theorem toInt_ofNat {n : Nat} (h : n ≤ maxWireLength) : (Int32.ofNat n).toInt = n :=
  Int32.toInt_ofNat_of_lt (by simp only [maxWireLength] at h; omega)

@[simp] theorem length_countBytes (n : Nat) : (countBytes n).length = 4 := Word.length_bytes _

/-- A text with its length, without its tag. -/
def textPayload (text : Bytes) : Bytes := countBytes text.length ++ text

/-- A name as it stands behind the id of an unregistered type. -/
def nameBytes (text : Bytes) : Bytes := Tag.string.code :: textPayload text

/-- The bytes of a type on the wire. -/
def TypeRef.bytes : TypeRef → Bytes
  | .id typeId => Word.bytes typeId
  | .name text => Word.bytes unregisteredTypeId ++ nameBytes text

/-- The first byte of a value without others inside. -/
def Atom.tag : Atom → Tag
  | .null => .null
  | .byte _ => .byte
  | .short _ => .short
  | .int _ => .int
  | .long _ => .long
  | .float _ => .float
  | .double _ => .double
  | .char _ => .char
  | .bool _ => .bool
  | .string _ => .string
  | .uuid _ _ => .uuid
  | .date _ => .date
  | .timestamp _ _ => .timestamp
  | .time _ => .time
  | .decimal _ _ => .decimal
  | .words tag _ _ => tag
  | .enum _ _ => .enum
  | .binaryEnum _ _ _ => .binaryEnum
  | .classRef _ => .classRef
  | .encoded _ _ => .binaryObject
  | .handle _ _ => .handle

/-- What follows the first byte. -/
def Atom.payload : Atom → Bytes
  | .null => []
  | .byte v => Word.bytes v
  | .short v => Word.bytes v
  | .int v => Word.bytes v
  | .long v => Word.bytes v
  | .float v => Word.bytes v
  | .double v => Word.bytes v
  | .char v => Word.bytes v
  | .bool v => Word.bytes v
  | .string text => textPayload text
  | .uuid most least => Word.bytes most ++ Word.bytes least
  | .date millis => Word.bytes millis
  | .timestamp millis nanos => Word.bytes millis ++ Word.bytes nanos
  | .time millis => Word.bytes millis
  | .decimal scale magnitude => Word.bytes scale ++ textPayload magnitude
  | .words _ count payload => countBytes count ++ payload
  | .enum type ordinal => type.bytes ++ Word.bytes ordinal
  | .binaryEnum typeId name ordinal =>
    Word.bytes typeId ++ (name.elim [] nameBytes ++ Word.bytes ordinal)
  | .classRef type => type.bytes
  | .encoded bytes start => textPayload bytes ++ Word.bytes start
  | .handle place target => countBytes (place - target)

/-- The bytes of a value without others inside. -/
def Atom.bytes (a : Atom) : Bytes := a.tag.code :: a.payload

/-- The first byte of a list of values. -/
def ListHead.tag : ListHead → Tag
  | .elements tag => tag
  | .objectArray _ => .objectArray
  | .collection _ => .collection
  | .map _ => .map
  | .enumArray _ => .enumArray
  | .proxy _ => .proxy

/-- What stands between the first byte and a number of values. -/
def ListHead.payload (items : Nat) : ListHead → Bytes
  | .elements _ => countBytes items
  | .objectArray component => component.bytes ++ countBytes items
  | .collection kind => countBytes items ++ [kind]
  | .map kind => countBytes (items / 2) ++ [kind]
  | .enumArray type => type.bytes ++ countBytes items
  | .proxy interfaces => countBytes interfaces.length ++ interfaces.flatMap TypeRef.bytes

/-- What stands before a number of values. -/
def ListHead.bytes (head : ListHead) (items : Nat) : Bytes := head.tag.code :: head.payload items

/-- The footer's entry for a field. -/
def FieldAt.entry {α : Type} (width : OffsetWidth) (field : FieldAt α) : Bytes :=
  field.id.elim [] Word.bytes ++ LittleEndian.encode width.bytes field.offset

mutual

/-- The bytes of a value. -/
def Wire.bytes : Wire → Bytes
  | .atom a => a.bytes
  | .list head items => head.bytes items.length ++ Wire.itemBytes items
  | .object _ header name fields raw =>
    let front := header.bytes ++ name.elim [] nameBytes ++ Wire.fieldBytes fields
    front ++ raw.getD [] ++ fields.flatMap (FieldAt.entry (.ofFlags header.flags)) ++
      -- Only behind a footer the raw section's place is told: otherwise the header tells it.
      (if fields.isEmpty || raw.isNone then [] else countBytes front.length)

/-- The bytes of the values of a list. -/
def Wire.itemBytes : List Wire → Bytes
  | [] => []
  | item :: items => item.bytes ++ Wire.itemBytes items

/-- The bytes of the values of fields. -/
def Wire.fieldBytes : List (FieldAt Wire) → Bytes
  | [] => []
  | ⟨_, _, _, value⟩ :: fields => value.bytes ++ Wire.fieldBytes fields

end

/-- The entries of a footer all have the same length. -/
theorem length_entries {fields : List (FieldAt Wire)} (width : OffsetWidth) {compact : Bool}
    (hids : ∀ f ∈ fields, f.id = none ↔ compact = true) :
    (fields.flatMap (FieldAt.entry width)).length =
      fields.length * (width.bytes + if compact then 0 else 4) := by
  induction fields with
  | nil => simp
  | cons f fields ih =>
    -- All entries have ids or none has.
    have hentry : (f.entry width).length = width.bytes + if compact then 0 else 4 := by
      have hid := hids f (List.mem_cons_self ..)
      rw [FieldAt.entry, List.length_append, LittleEndian.length_encode, Nat.add_comm]
      cases hf : f.id with
      | none => rw [if_pos (hid.mp hf)]; rfl
      | some id =>
        rw [if_neg fun hc => Option.some_ne_none id (hf.symm.trans (hid.mpr hc))]
        exact congrArg _ (Word.length_bytes id)
    rw [List.flatMap_cons, List.length_append, hentry,
      ih fun f hf => hids f (List.mem_cons_of_mem _ hf), List.length_cons, Nat.add_mul, Nat.one_mul,
      Nat.add_comm]

/-- Number of bytes before the values of an object's fields. -/
def frontLength (name : Option Bytes) : Nat := Header.size + (name.elim [] nameBytes).length

/-- What stands behind the footer: the place of the raw section, if the object has both. -/
def tailBytes (name : Option Bytes) (fields : List (FieldAt Wire)) (raw : Option Bytes) : Bytes :=
  if fields.isEmpty || raw.isNone then []
  else countBytes (frontLength name + (Wire.fieldBytes fields).length)

/-- The parts of an object. -/
theorem bytes_parts (start : Nat) (header : Header) (name : Option Bytes)
    (fields : List (FieldAt Wire)) (raw : Option Bytes) :
    (Wire.object start header name fields raw).bytes =
      header.bytes ++ (name.elim [] nameBytes ++ (Wire.fieldBytes fields ++ (raw.getD [] ++
        (fields.flatMap (FieldAt.entry (.ofFlags header.flags)) ++ tailBytes name fields raw)))) := by
  simp only [Wire.bytes, tailBytes, frontLength, List.append_assoc, List.length_append,
    Header.length_bytes, Nat.add_assoc]

/-- An object is as long as its parts. -/
theorem length_parts (start : Nat) (header : Header) (name : Option Bytes)
    (fields : List (FieldAt Wire)) (raw : Option Bytes) :
    (Wire.object start header name fields raw).bytes.length =
      frontLength name + (Wire.fieldBytes fields).length + (raw.getD []).length +
        (fields.flatMap (FieldAt.entry (.ofFlags header.flags))).length +
          (tailBytes name fields raw).length := by
  have hfront : frontLength name = Header.size + (name.elim [] nameBytes).length := rfl
  rw [bytes_parts]
  simp only [List.length_append, Header.length_bytes]
  omega

/-- Behind a footer stands one word if there is a raw section. -/
theorem length_tailBytes {name : Option Bytes} {fields : List (FieldAt Wire)} {raw : Option Bytes}
    (h : fields ≠ []) : (tailBytes name fields raw).length = if raw.isSome then 4 else 0 := by
  cases raw <;> simp [tailBytes, h]

end ObjectWire
