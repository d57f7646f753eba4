import ObjectWire.Proofs.Wire.Tree

/-!
# Reading the wire

The grammar of the wire as a reader.  A reader goes from a place in a string of bytes to what it read
there and the place behind it, or gives up.  A value is read by its tag.  An object is read by its
header: the footer is looked up where the header says it is, every field's value is read where its entry
in the footer says it starts, and after the object the reader goes on where the header says the object
ends.  The reader asks nothing of types and schemas.
-/

namespace ObjectWire

/-- From a place to what was read there and the place behind it. -/
abbrev Reader := StateT Nat Option

/-- Whether values follow behind a head. -/
def Tag.opensList : Tag → Bool
  | .objectArray | .collection | .map | .enumArray | .proxy => true
  | tag => tag.hasElements

/-- The tag of a byte. -/
def Tag.ofCode? (code : UInt8) : Option Tag :=
  [Tag.byte, .short, .int, .long, .float, .double, .char, .bool, .string, .uuid, .date, .byteArray,
    .shortArray, .intArray, .longArray, .floatArray, .doubleArray, .charArray, .boolArray,
    .stringArray, .uuidArray, .dateArray, .objectArray, .collection, .map, .binaryObject, .enum,
    .enumArray, .decimal, .decimalArray, .classRef, .timestamp, .timestampArray, .proxy, .time,
    .timeArray, .binaryEnum, .null, .handle, .object].find? fun tag => tag.code == code

@[simp] theorem Tag.ofCode?_code (tag : Tag) : Tag.ofCode? tag.code = some tag := by
  cases tag <;> rfl

namespace Reader

variable (bs : Bytes)

/-- Reads a number of bytes. -/
def take (n : Nat) : Reader Bytes := fun p =>
  if p + n ≤ bs.length then some ((bs.drop p).take n, p + n) else none

/-- Reads a number of some bytes, least significant first. -/
def number (width : Nat) : Reader Nat := LittleEndian.decode <$> take bs width

/-- Reads a byte. -/
def u8 : Reader UInt8 := UInt8.ofNat <$> number bs 1

/-- Reads an unsigned 16-bit word. -/
def u16 : Reader UInt16 := UInt16.ofNat <$> number bs 2

/-- Reads an unsigned 32-bit word. -/
def u32 : Reader UInt32 := UInt32.ofNat <$> number bs 4

/-- Reads an unsigned 64-bit word. -/
def u64 : Reader UInt64 := UInt64.ofNat <$> number bs 8

/-- Reads a 16-bit integer. -/
def i16 : Reader Int16 := UInt16.toInt16 <$> u16 bs

/-- Reads a 32-bit integer. -/
def i32 : Reader Int32 := UInt32.toInt32 <$> u32 bs

/-- Reads a 64-bit integer. -/
def i64 : Reader Int64 := UInt64.toInt64 <$> u64 bs

/-- Reads a length, a count or an offset, which is never negative. -/
def count : Reader Nat := do
  let v ← i32 bs
  if 0 ≤ v.toInt then return v.toInt.toNat else failure

/-- Reads a tag. -/
def tag : Reader Tag := do
  match Tag.ofCode? (← u8 bs) with
  | some tag => return tag
  | none => failure

/-- Reads a length and as many bytes. -/
def payload : Reader Bytes := do take bs (← count bs)

/-- Reads a tagged text. -/
def text : Reader Bytes := do
  if (← tag bs) = .string then payload bs else failure

/-- Reads a type. -/
def typeRef : Reader TypeRef := do
  let id ← i32 bs
  if id = unregisteredTypeId then return .name (← text bs) else return .id id

/-- Reads the same thing a number of times. -/
def times {α : Type} (x : Reader α) : Nat → Reader (List α)
  | 0 => return []
  | n + 1 => do return (← x) :: (← times x n)

/-- Reads something that may be absent. -/
def optional {α : Type} (present : Prop) [Decidable present] (x : Reader α) : Reader (Option α) :=
  if present then some <$> x else return none

/-- Reads at another place without leaving this one. -/
def lookup {α : Type} (place : Nat) (x : Reader α) : Reader (α × Nat) := do
  let here ← get
  set place
  let a ← x
  let stop ← get
  set here
  return (a, stop)

/-- Reads what follows the tag of a value without others inside. -/
def atom (place : Nat) : Tag → Reader Atom
  | .null => return .null
  | .byte => return .byte (← u8 bs)
  | .short => return .short (← i16 bs)
  | .int => return .int (← i32 bs)
  | .long => return .long (← i64 bs)
  | .float => return .float ⟨← u32 bs⟩
  | .double => return .double ⟨← u64 bs⟩
  | .char => return .char (← u16 bs)
  | .bool => return .bool ((← u8 bs) ≠ 0)
  | .string => return .string (← payload bs)
  | .uuid => return .uuid (← u64 bs) (← u64 bs)
  | .date => return .date (← i64 bs)
  | .timestamp => return .timestamp (← i64 bs) (← i32 bs)
  | .time => return .time (← i64 bs)
  | .decimal => return .decimal (← i32 bs) (← payload bs)
  | .enum => return .enum (← typeRef bs) (← i32 bs)
  | .binaryEnum => do
    let typeId ← i32 bs
    let name ← optional (typeId = unregisteredTypeId) (text bs)
    return .binaryEnum typeId name (← i32 bs)
  | .classRef => return .classRef (← typeRef bs)
  | .binaryObject => return .encoded (← payload bs) (← i32 bs)
  | .handle => do
    let delta ← count bs
    return .handle place (place - delta)
  | tag => do
    match tag.wordWidth? with
    | some width =>
      let n ← count bs
      return .words tag n (← take bs (n * width))
    | none => failure

/-- Reads what follows the tag of a list up to its first value, and tells the number of values. -/
def listHead : Tag → Reader (ListHead × Nat)
  | .objectArray => do
    let component ← typeRef bs
    return (.objectArray component, ← count bs)
  | .collection => do
    let n ← count bs
    return (.collection (← u8 bs), n)
  | .map => do
    let n ← count bs
    return (.map (← u8 bs), 2 * n)
  | .enumArray => do
    let type ← typeRef bs
    return (.enumArray type, ← count bs)
  | .proxy => do
    let n ← count bs
    return (.proxy (← times (typeRef bs) n), 1)
  | tag => do
    if tag.hasElements then return (.elements tag, ← count bs) else failure

/-- Reads the offset of a field. -/
def offset (width : OffsetWidth) : Reader Nat :=
  if width = .four then count bs else number bs width.bytes

/-- Reads one entry of a footer and, at the place it tells, the field's value. -/
def field (value : Reader Wire) (start : Nat) (width : OffsetWidth) (compact : Bool) :
    Reader (FieldAt Wire) := do
  let id ← optional (compact = false) (i32 bs)
  let offset ← offset bs width
  let (value, stop) ← lookup (start + offset) value
  return { id, offset, stop, value }

/-- Reads a footer, which its entries have to fill, and the values of its fields. -/
def footer (value : Reader Wire) (start : Nat) (flags : UInt16) (length : Nat) :
    Reader (List (FieldAt Wire)) := do
  let width := OffsetWidth.ofFlags flags
  let compact : Bool := flags &&& Flag.compactFooter ≠ 0
  let entryLength := width.bytes + if compact then 0 else 4
  if length % entryLength = 0 then times (field bs value start width compact) (length / entryLength)
  else failure

/-- Reads the bytes from one place up to another. -/
def slice (start stop : Nat) : Reader Bytes := do
  if start ≤ stop then
    let (slice, _) ← lookup start (take bs (stop - start))
    return slice
  else failure

/-- Reads what follows the tag of a header. -/
def header : Reader Header := do
  let version ← u8 bs
  let flags ← u16 bs
  let typeId ← i32 bs
  let hashCode ← i32 bs
  let length ← count bs
  let schemaId ← i32 bs
  let offset ← count bs
  if version = Header.version then
    return { flags, typeId, hashCode, totalLength := Int32.ofNat length, schemaId
             offset := Int32.ofNat offset }
  else failure

/-- Reads the fields of an object, if it has any, by the footer that starts at `footerStart`. -/
def fields (value : Reader Wire) (start footerStart stop : Nat) (flags : UInt16) :
    Reader (List (FieldAt Wire)) := do
  if flags &&& Flag.hasSchema ≠ 0 then
    let footerStop := if flags &&& Flag.hasRaw ≠ 0 then stop - 4 else stop
    set footerStart
    footer bs value start flags (footerStop - footerStart)
  else return []

/-- Reads the place of the raw section.  It stands at the end of an object with fields, and in the header
    of one without. -/
def rawOffset (stop offset : Nat) (flags : UInt16) : Reader Nat :=
  if flags &&& Flag.hasSchema ≠ 0 then Prod.fst <$> lookup (stop - 4) (count bs) else return offset

/-- Reads the raw section of an object, if it has one. -/
def rawSection (start footerStart stop offset : Nat) (flags : UInt16) : Reader (Option Bytes) :=
  optional (flags &&& Flag.hasRaw ≠ 0) do
    let rawOffset ← rawOffset bs stop offset flags
    slice bs (start + rawOffset) footerStart

/-- Reads what follows the tag of an object, given how to read a value. -/
def object (value : Reader Wire) (start : Nat) : Reader Wire := do
  let header ← header bs
  let name ← optional (header.typeId = unregisteredTypeId) (text bs)
  let stop := start + header.totalLength.toInt.toNat
  let offset := header.offset.toInt.toNat
  let footerStart := if header.flags &&& Flag.hasSchema ≠ 0 then start + offset else stop
  let fields ← fields bs value start footerStart stop header.flags
  let raw ← rawSection bs start footerStart stop offset header.flags
  set stop
  return .object start header name fields raw

/-- Reads a value nested down to some depth. -/
def value : (depth : Nat) → Reader Wire
  | 0 => failure
  | depth + 1 => do
    let place ← get
    let tag ← tag bs
    if tag = .object then object bs (value depth) place
    else if tag.opensList then
      let (head, n) ← listHead bs tag
      return .list head (← times (value depth) n)
    else return .atom (← atom bs place tag)

end Reader

/-- Reads the value at the start of a string of bytes, and tells the place behind it.  Values nested in
    one another start at different places, so no more levels can be met than there are bytes. -/
def Wire.read (bs : Bytes) : Option (Wire × Nat) := Reader.value bs bs.length 0

end ObjectWire
