import ObjectWire.Proofs.Additions
import ObjectWire.Proofs.Partial
import ObjectWire.Proofs.Wire.Tree
import ObjectWire.Session

/-!
# The wire image of a value

`Image.value` works out what a reader will see of a value, from the value alone: no tape, no handle
table, no field stack, nothing is left open and filled in later.  It walks through the value in the
order of writing and keeps three things: the place it has come to, the graph, and a log of the nodes it
has met.  The log alone decides whether a node stands in full or as a reference back.

Places are counted from the start of the write.  A `detached` value has a log of its own.
-/

namespace ObjectWire

/-- The place that a call on a raw section fills in, counted from the first one of the object.  The calls
    that it is among reserve theirs from `first` on. -/
def RawOp.slot? (first : Nat) : RawOp → Option Nat
  | .fill slot _ => some (first + slot)
  | .fillEarlier slot _ => some slot
  | _ => none

namespace Image

/-- How a node was met. -/
inductive Occurrence where
  /-- Written in full, from this place on. -/
  | full (node : NodeId) (place : Nat)
  /-- Written as a reference from one place back to another. -/
  | back (node : NodeId) (place target : Nat)
  /-- Another value written in its place. -/
  | replaced (node : NodeId) (place : Nat)
  /-- What was met in a value with handles of its own. -/
  | detached (inner : List Occurrence)

/-- Where a node was written in full. -/
def placeOf (node : NodeId) : List Occurrence → Option Nat
  | [] => none
  | .full other place :: log => if other = node then some place else placeOf node log
  | _ :: log => placeOf node log

/-- A node is found at the last line that has it in full. -/
theorem placeOf_cons_full {node other : NodeId} {place : Nat} {log : List Occurrence} :
    placeOf other (.full node place :: log) =
      if node = other then some place else placeOf other log := rfl

/-- The number of nodes written in full. -/
def fullCount : List Occurrence → Nat
  | [] => 0
  | .full _ _ :: log => fullCount log + 1
  | _ :: log => fullCount log

/-- How far a write has come. -/
structure Progress where
  place : Nat
  graph : Graph
  /-- The nodes met so far, the latest first. -/
  log : List Occurrence := []

/-- Works out a part of an image. -/
abbrev Sketch := StateT Progress Option

/-- The place come to. -/
def place : Sketch Nat := return (← get).place

/-- Goes on behind a number of bytes. -/
def advance (n : Nat) : Sketch Unit := modify fun st => { st with place := st.place + n }

/-- Adds a line to the log. -/
def note (occurrence : Occurrence) : Sketch Unit :=
  modify fun st => { st with log := occurrence :: st.log }

/-- The place come to is given, and nothing changes. -/
@[simp] theorem gives_place (st st' : Progress) (n : Nat) :
    Gives place st n st' ↔ st.place = n ∧ st = st' := by
  simp only [place, gives_bind, gives_get, gives_pure]
  constructor
  · intro hparts
    obtain ⟨_, _, ⟨rfl, rfl⟩, h⟩ := hparts
    exact h
  · exact fun h => ⟨st, st, ⟨rfl, rfl⟩, h⟩

/-- To go on changes the place alone. -/
@[simp] theorem gives_advance (n : Nat) (st st' : Progress) (u : Unit) :
    Gives (advance n) st u st' ↔ { st with place := st.place + n } = st' :=
  gives_modify ..

/-- A line in the log changes the log alone. -/
@[simp] theorem gives_note (occurrence : Occurrence) (st st' : Progress) (u : Unit) :
    Gives (note occurrence) st u st' ↔ { st with log := occurrence :: st.log } = st' :=
  gives_modify ..

/-- Whether a type can be written. -/
def fitsType : TypeRef → Bool
  | .id _ => true
  | .name text => text.length ≤ maxWireLength

/-- Whether a value without others inside can be written. -/
def fitsAtom : Atom → Bool
  | .string text => text.length ≤ maxWireLength
  | .decimal _ magnitude => magnitude.length ≤ maxWireLength
  | .words tag count payload =>
    tag.wordWidth?.any (fun width => payload.length = count * width) && count ≤ maxWireLength
  | .enum type _ | .classRef type => fitsType type
  | .binaryEnum typeId name _ =>
    (typeId == unregisteredTypeId) == name.isSome && name.all fun text => text.length ≤ maxWireLength
  | .encoded bytes _ => bytes.length ≤ maxWireLength
  | .handle place target => target ≤ place && place - target ≤ maxWireLength
  | _ => true

/-- Whether a list of so many values can be written. -/
def fitsList (items : Nat) : ListHead → Bool
  | .elements tag => tag.hasElements && items ≤ maxWireLength
  | .objectArray type | .enumArray type => fitsType type && items ≤ maxWireLength
  | .collection _ => items ≤ maxWireLength
  | .map _ => items % 2 = 0 && items / 2 ≤ maxWireLength
  | .proxy interfaces =>
    items = 1 && interfaces.all fitsType && interfaces.length ≤ maxWireLength

/-- A value without others inside. -/
def atom (a : Atom) : Sketch Wire := do
  guard (fitsAtom a)
  advance a.bytes.length
  return .atom a

/-- A value without others inside has an image just if it fits. -/
theorem gives_atom (a : Atom) (st st' : Progress) (w : Wire) :
    Gives (atom a) st w st' ↔
      fitsAtom a = true ∧ w = .atom a ∧ st' = { st with place := st.place + a.bytes.length } := by
  simp only [atom, gives_bind, gives_guard, gives_advance, gives_pure]
  constructor
  · intro hparts
    obtain ⟨_, _, ⟨hfits, rfl⟩, _, _, rfl, rfl, rfl⟩ := hparts
    exact ⟨hfits, rfl, rfl⟩
  · intro hparts
    obtain ⟨hfits, rfl, rfl⟩ := hparts
    exact ⟨(), st, ⟨hfits, rfl⟩, (), _, rfl, rfl, rfl⟩

/-- The images of several things, one behind the other. -/
def each {α : Type} (item : α → Sketch Wire) : List α → Sketch (List Wire)
  | [] => return []
  | a :: as => return (← item a) :: (← each item as)

/-- Of nothing there are no images. -/
@[simp] theorem gives_each_nil {α : Type} (item : α → Sketch Wire) (st st' : Progress)
    (ws : List Wire) : Gives (each item []) st ws st' ↔ ws = [] ∧ st = st' := by
  simp only [each, gives_pure]
  exact and_congr_left fun _ => eq_comm

/-- The second image begins where the first one ends. -/
theorem gives_each_cons {α : Type} (item : α → Sketch Wire) (a : α) (as : List α)
    (st st'' : Progress) (ws : List Wire) :
    Gives (each item (a :: as)) st ws st'' ↔
      ∃ w ws' st', Gives (item a) st w st' ∧ Gives (each item as) st' ws' st'' ∧ ws = w :: ws' := by
  simp only [each, gives_bind, gives_pure]
  constructor
  · intro hparts
    obtain ⟨w, st', hw, ws', _, hws, rfl, rfl⟩ := hparts
    exact ⟨w, ws', st', hw, hws, rfl⟩
  · intro hparts
    obtain ⟨w, ws', st', hw, hws, rfl⟩ := hparts
    exact ⟨w, st', hw, ws', _, hws, rfl, rfl⟩

/-- There is an image for each thing. -/
theorem length_each {α : Type} {item : α → Sketch Wire} {as : List α} {ws : List Wire}
    {st st' : Progress} (h : Gives (each item as) st ws st') : ws.length = as.length := by
  induction as generalizing ws st st' with
  | nil =>
    obtain ⟨rfl, -⟩ := (gives_each_nil ..).mp h
    rfl
  | cons a as ih =>
    obtain ⟨w, ws, st₁, -, hws, rfl⟩ := (gives_each_cons ..).mp h
    rw [List.length_cons, List.length_cons, ih hws]

/-- A list behind its head. -/
def list {α : Type} (item : α → Sketch Wire) (head : ListHead) (items : List α) : Sketch Wire := do
  guard (fitsList items.length head)
  advance (head.bytes items.length).length
  return .list head (← each item items)

/-- A list has an image if its head fits and its items have images. -/
theorem gives_list {α : Type} (item : α → Sketch Wire) (head : ListHead) (items : List α)
    (st st' : Progress) (w : Wire) :
    Gives (list item head items) st w st' ↔
      fitsList items.length head = true ∧ ∃ ws, w = .list head ws ∧
        Gives (each item items)
          { st with place := st.place + (head.bytes items.length).length } ws st' := by
  simp only [list, gives_bind, gives_guard, gives_advance, gives_pure]
  constructor
  · intro hparts
    obtain ⟨_, _, ⟨hfits, rfl⟩, _, _, rfl, ws, _, hws, rfl, rfl⟩ := hparts
    exact ⟨hfits, ws, rfl, hws⟩
  · intro hparts
    obtain ⟨hfits, ws, rfl, hws⟩ := hparts
    exact ⟨(), st, ⟨hfits, rfl⟩, (), _, rfl, ws, _, hws, rfl, rfl⟩

/-- A value with a log of its own. -/
def detached (x : Sketch Wire) : Sketch Wire := do
  let outer := (← get).log
  modify fun st => { st with log := [] }
  let w ← x
  modify fun st => { st with log := .detached st.log :: outer }
  return w

/-- A value with a log of its own leaves one line in the log around it. -/
theorem gives_detached (x : Sketch Wire) (st st' : Progress) (w : Wire) :
    Gives (detached x) st w st' ↔
      ∃ inner, Gives x { st with log := [] } w inner ∧
        st' = { inner with log := .detached inner.log :: st.log } := by
  simp only [detached, gives_bind, gives_get, gives_modify, gives_pure]
  constructor
  · intro hparts
    obtain ⟨_, _, ⟨rfl, rfl⟩, _, _, rfl, _, inner, hx, _, _, rfl, rfl, rfl⟩ := hparts
    exact ⟨inner, hx, rfl⟩
  · intro hparts
    obtain ⟨inner, hx, rfl⟩ := hparts
    exact ⟨st, st, ⟨rfl, rfl⟩, (), _, rfl, w, inner, hx, (), _, rfl, rfl, rfl⟩

/-- A node in full where it is met first, and as a reference back after that. -/
def tracked (node : NodeId) (x : Sketch Wire) : Sketch Wire := do
  let here ← place
  match placeOf node (← get).log with
  | some target =>
    note (.back node here target)
    atom (.handle here target)
  | none =>
    -- Noted before its inside, so that a node inside may already refer back to it.
    note (.full node here)
    x

/-- A node met for the first time is noted and then drawn in full. -/
theorem gives_tracked_none {node : NodeId} {st : Progress} (h : placeOf node st.log = none)
    (x : Sketch Wire) (st' : Progress) (w : Wire) :
    Gives (tracked node x) st w st' ↔
      Gives x { st with log := .full node st.place :: st.log } w st' := by
  simp only [tracked, gives_bind, gives_place, gives_get]
  constructor
  · intro hparts
    obtain ⟨_, _, ⟨rfl, rfl⟩, _, _, ⟨rfl, rfl⟩, hx⟩ := hparts
    -- The log is known at this point, which decides the match.
    rw [h] at hx
    simpa using hx
  · intro hx
    refine ⟨_, _, ⟨rfl, rfl⟩, _, _, ⟨rfl, rfl⟩, ?_⟩
    rw [h]
    simpa using hx

/-- A node met before is drawn as a reference to where it was. -/
theorem gives_tracked_some {node : NodeId} {st : Progress} {target : Nat}
    (h : placeOf node st.log = some target) (x : Sketch Wire) (st' : Progress) (w : Wire) :
    Gives (tracked node x) st w st' ↔
      Gives (atom (.handle st.place target))
        { st with log := .back node st.place target :: st.log } w st' := by
  simp only [tracked, gives_bind, gives_place, gives_get]
  constructor
  · intro hparts
    obtain ⟨_, _, ⟨rfl, rfl⟩, _, _, ⟨rfl, rfl⟩, hx⟩ := hparts
    rw [h] at hx
    simpa using hx
  · intro hx
    refine ⟨_, _, ⟨rfl, rfl⟩, _, _, ⟨rfl, rfl⟩, ?_⟩
    rw [h]
    simpa using hx

section

variable (r : Registry)

/-- The bytes of a text. -/
def text (s : String) : Bytes := Utf16.textBytes s r.config.stringEncoding

/-- A type, by its id if it is registered and by its name if not. -/
def typeRef (name : String) : TypeRef :=
  match r.types.find? name with
  | some entry => .id entry.typeId
  | none => .name (text r name)

/-- A constant of an enumeration. -/
def enumAtom (v : EnumConstant) : Atom := .enum (typeRef r v.typeName) v.ordinal

/-- A decimal. -/
def decimalAtom (v : Decimal) : Atom := .decimal v.scale v.magnitude

/-- A date. -/
def dateAtom (v : Instant) : Atom := .date v.millis

/-- A timestamp. -/
def timestampAtom (v : Instant) : Atom := .timestamp v.millis v.nanosOfMilli

/-- An identifier. -/
def uuidAtom (v : Uuid) : Atom := .uuid v.most v.least

/-- A time. -/
def timeAtom (v : SqlTime) : Atom := .time v.millis

/-- A text. -/
def stringAtom (v : String) : Atom := .string (text r v)

/-- An array of words. -/
def wordsAtom {α : Type} [Word α] (tag : Tag) (xs : List α) : Atom :=
  .words tag xs.length (xs.flatMap Word.bytes)

/-- An array of tagged elements, null where there is none. -/
def elements {α : Type} (f : α → Atom) (tag : Tag) (xs : List (Option α)) : Sketch Wire :=
  list (fun x => atom (x.elim .null f)) (.elements tag) xs

/-- A plain value. -/
def plain : Plain → Sketch Wire
  | .null => atom .null
  | .byte v => atom (.byte v)
  | .short v => atom (.short v)
  | .int v => atom (.int v)
  | .long v => atom (.long v)
  | .float v => atom (.float v)
  | .double v => atom (.double v)
  | .char v => atom (.char v)
  | .bool v => atom (.bool v)
  | .string v => atom (stringAtom r v)
  | .utf16 v => atom (.string (Utf16.bytes v r.config.stringEncoding))
  | .uuid v => atom (uuidAtom v)
  | .date v => atom (dateAtom v)
  | .timestamp v => atom (timestampAtom v)
  | .time v => atom (timeAtom v)
  | .decimal v => atom (decimalAtom v)
  | .bytes v => atom (wordsAtom .byteArray v)
  | .shorts v => atom (wordsAtom .shortArray v)
  | .ints v => atom (wordsAtom .intArray v)
  | .longs v => atom (wordsAtom .longArray v)
  | .floats v => atom (wordsAtom .floatArray v)
  | .doubles v => atom (wordsAtom .doubleArray v)
  | .chars v => atom (wordsAtom .charArray v)
  | .bools v => atom (wordsAtom .boolArray v)
  | .strings v => elements (stringAtom r) .stringArray v
  | .uuids v => elements uuidAtom .uuidArray v
  | .dates v => elements dateAtom .dateArray v
  | .timestamps v => elements timestampAtom .timestampArray v
  | .times v => elements timeAtom .timeArray v
  | .decimals v => elements decimalAtom .decimalArray v
  | .encoded v =>
    if v.start ≤ maxWireLength then atom (.encoded v.bytes (Int32.ofNat v.start)) else failure

end

/-- A field of an object in the making. -/
structure Placed where
  id : Int32
  offset : Nat
  stop : Nat
  value : Wire

/-- The field as the object's footer tells it. -/
def Placed.shown (compact : Bool) (f : Placed) : FieldAt Wire where
  id := if compact then none else some f.id
  offset := f.offset
  stop := f.stop
  value := f.value

/-- A raw section in the making: the places left open in it so far, and its bytes, none where nothing is
    filled in yet. -/
structure RawDraft where
  slots : List Nat := []
  cells : List (Option UInt8) := []

/-- The raw section with more bytes. -/
def RawDraft.add (d : RawDraft) (bs : Bytes) : RawDraft :=
  { d with cells := d.cells ++ bs.map some }

/-- More bytes make the section longer by as many. -/
@[simp] theorem RawDraft.length_add (d : RawDraft) (bs : Bytes) :
    (d.add bs).cells.length = d.cells.length + bs.length := by
  rw [add, List.length_append, List.length_map]

/-- The raw section with room for four bytes at its end, which is left open. -/
def RawDraft.reserve (d : RawDraft) : RawDraft :=
  ⟨d.slots ++ [d.cells.length], d.cells ++ List.replicate 4 none⟩

/-- Room left open is room all the same. -/
@[simp] theorem RawDraft.length_reserve (d : RawDraft) :
    d.reserve.cells.length = d.cells.length + 4 := by
  rw [reserve, List.length_append, List.length_replicate]

/-- It is one more place to fill in. -/
@[simp] theorem RawDraft.slots_reserve (d : RawDraft) :
    d.reserve.slots.length = d.slots.length + 1 := by
  rw [reserve, List.length_append, List.length_singleton]

/-- The raw section with bytes filled in. -/
def RawDraft.fill (d : RawDraft) (slot : Nat) (bs : Bytes) : RawDraft :=
  { d with cells := d.cells.take slot ++ bs.map some ++ d.cells.drop (slot + bs.length) }

/-- The places left open lie inside the section. -/
def RawDraft.Inside (d : RawDraft) : Prop :=
  ∀ (slot offset : Nat), d.slots[slot]? = some offset → offset + 4 ≤ d.cells.length

namespace RawDraft.Inside

/-- A section without places has them all inside. -/
theorem empty : RawDraft.Inside {} := by simp [RawDraft.Inside]

/-- More bytes leave them inside. -/
theorem add {d : RawDraft} (h : d.Inside) (bs : Bytes) : (d.add bs).Inside := by
  intro slot offset hs
  have := h slot offset hs
  rw [length_add]
  omega

/-- A new place lies at the end, and the section is made longer by it. -/
theorem reserve {d : RawDraft} (h : d.Inside) : d.reserve.Inside := by
  intro slot offset hs
  rw [length_reserve]
  rw [RawDraft.reserve, List.getElem?_append] at hs
  split at hs
  · have hinside := h slot offset hs
    omega
  · -- The last slot is the one just taken, and its four bytes are the last ones.
    have hlast := List.mem_of_getElem? hs
    simp only [List.mem_singleton] at hlast
    omega

/-- Filling in a place makes a section neither longer nor shorter. -/
theorem length_fill {d : RawDraft} (h : d.Inside) {slot offset : Nat}
    (hs : d.slots[slot]? = some offset) {bs : Bytes} (hlen : bs.length = 4) :
    (d.fill offset bs).cells.length = d.cells.length := by
  have := h slot offset hs
  simp only [RawDraft.fill, List.length_append, List.length_take, List.length_map, hlen,
    List.length_drop]
  omega

/-- A place filled in moves no other one. -/
theorem fill {d : RawDraft} (h : d.Inside) {slot offset : Nat} (hs : d.slots[slot]? = some offset)
    {bs : Bytes} (hlen : bs.length = 4) : (d.fill offset bs).Inside := by
  intro k place hk
  rw [h.length_fill hs hlen]
  exact h k place hk

end RawDraft.Inside

/-- The bytes of a raw section with nothing left to fill in. -/
def RawDraft.bytes (d : RawDraft) : Bytes := d.cells.map (·.getD 0)

/-- An object in the making. -/
structure Draft where
  fields : List Placed := []
  /-- The raw section, once it is begun. -/
  raw : Option RawDraft := none
  schemaId : Int32 := SchemaId.seed

namespace Draft

/-- The bytes of the fields' values. -/
def fieldBytes (d : Draft) : Bytes := d.fields.flatMap (·.value.bytes)

/-- The raw section so far, which is empty before it is begun. -/
def rawSoFar (d : Draft) : RawDraft := d.raw.getD {}

/-- The bytes of the raw section, once it is begun. -/
def rawBytes? (d : Draft) : Option Bytes := d.raw.map (·.bytes)

/-- Without a raw section there are no raw bytes. -/
@[simp] theorem getD_rawBytes? (d : Draft) : d.rawBytes?.getD [] = d.rawSoFar.bytes := by
  unfold rawBytes? rawSoFar
  cases d.raw <;> rfl

/-- There are raw bytes just if there is a raw section. -/
@[simp] theorem isNone_rawBytes? (d : Draft) : d.rawBytes?.isNone = d.raw.isNone := Option.isNone_map

/-- A raw section shows its bytes, even if it has none. -/
@[simp] theorem isSome_rawBytes? (d : Draft) : d.rawBytes?.isSome = d.raw.isSome := Option.isSome_map

/-- What lies between header and footer. -/
def data (d : Draft) : Bytes := d.fieldBytes ++ d.rawSoFar.bytes

/-- Before it is begun the raw section is empty. -/
theorem rawSoFar_of_none {d : Draft} (h : d.raw = none) : d.rawSoFar = {} := by rw [rawSoFar, h]; rfl

/-- Before the raw section is begun the fields are all of the data. -/
theorem data_of_none {d : Draft} (h : d.raw = none) : d.data = d.fieldBytes := by
  rw [data, rawSoFar_of_none h]
  exact List.append_nil _

/-- Whether every place of the raw section is filled in. -/
def isClosed (d : Draft) : Bool := none ∉ d.rawSoFar.cells

/-- An object without a raw section has no place to fill in. -/
theorem isClosed_of_none {d : Draft} (h : d.raw = none) : d.isClosed = true := by
  rw [isClosed, rawSoFar_of_none h]
  rfl

/-- The width of the footer's offsets. -/
def width (d : Draft) : OffsetWidth :=
  .forOffset ((d.fields.getLast?.map (·.offset)).getD 0)

/-- The header's flags for footer and raw section. -/
def flags (d : Draft) : UInt16 :=
  if d.fields.isEmpty then if d.raw.isSome then Flag.hasRaw else 0
  else Flag.hasSchema ||| d.width.flag ||| if d.raw.isSome then Flag.hasRaw else 0

/-- Number of bytes behind the data. -/
def tailLength (d : Draft) (compact : Bool) : Nat :=
  d.fields.length * (d.width.bytes + if compact then 0 else 4) +
    if d.fields.isEmpty || d.raw.isNone then 0 else 4

/-- What the header tells of footer and raw section, the one counted from the object's start and the
    other, too, if there is no footer. -/
def headerOffset (d : Draft) (dataEnd : Nat) : Nat :=
  if d.fields.isEmpty then d.rawBytes?.elim 0 fun raw => dataEnd - raw.length else dataEnd

/-- The header of the object, whose data ends and which itself ends so far behind its start. -/
def header (d : Draft) (typeId : Int32) (userType compact : Bool) (dataEnd stop : Nat)
    (hashCode : Int32) : Header where
  flags := (if userType then Flag.userType else 0) ||| (if compact then Flag.compactFooter else 0)
    ||| d.flags
  typeId
  hashCode
  totalLength := Int32.ofNat stop
  schemaId := if d.fields.isEmpty then 0 else d.schemaId
  offset := Int32.ofNat (d.headerOffset dataEnd)

end Draft

/-- Bytes as they are. -/
def loose (d : RawDraft) (bs : Bytes) : Sketch RawDraft := do
  advance bs.length
  return d.add bs

/-- Bytes as they are take up their own room. -/
@[simp] theorem gives_loose (d d' : RawDraft) (bs : Bytes) (st st' : Progress) :
    Gives (loose d bs) st d' st' ↔
      d' = d.add bs ∧ st' = { st with place := st.place + bs.length } := by
  simp only [loose, gives_bind, gives_advance, gives_pure]
  constructor
  · intro hparts
    obtain ⟨_, _, rfl, rfl, rfl⟩ := hparts
    exact ⟨rfl, rfl⟩
  · intro hparts
    obtain ⟨rfl, rfl⟩ := hparts
    exact ⟨(), _, rfl, rfl, rfl⟩

/-- A word in one of the places left open. -/
def fillSlot (d : RawDraft) (slot : Nat) (v : Int32) : Sketch RawDraft := do
  match d.slots[slot]? with
  | some offset => return d.fill offset (Word.bytes v)
  | none => failure

/-- A place that was left open is filled in; there is no other one to fill in. -/
theorem gives_fillSlot {d d' : RawDraft} {slot : Nat} {v : Int32} {st st' : Progress} :
    Gives (fillSlot d slot v) st d' st' ↔
      ∃ offset, d.slots[slot]? = some offset ∧ d' = d.fill offset (Word.bytes v) ∧ st' = st := by
  unfold fillSlot
  cases hs : d.slots[slot]? with
  | none => simp
  | some offset =>
    simp only [gives_pure, Option.some.injEq, exists_eq_left']
    exact and_congr eq_comm eq_comm

section

variable (r : Registry) (rec : Value → Sketch Wire)

/-- A call on a raw section.  The calls that it is among leave their places open from `first` on. -/
def rawCall (first : Nat) (d : RawDraft) : RawOp → Sketch RawDraft
  | .u8 v => loose d (Word.bytes v)
  | .i16 v => loose d (Word.bytes v)
  | .u16 v => loose d (Word.bytes v)
  | .i32 v => loose d (Word.bytes v)
  | .i64 v => loose d (Word.bytes v)
  | .f32 v => loose d (Word.bytes v)
  | .f64 v => loose d (Word.bytes v)
  | .bool v => loose d (Word.bytes v)
  | .bytes v => loose d v
  | .text v => return d.add (← plain r (v.elim .null .string)).bytes
  | .value v => return d.add (← rec v).bytes
  | .detached v => return d.add (← detached (rec v)).bytes
  | .reserve => do
    advance 4
    return d.reserve
  | .fill slot v => fillSlot d (first + slot) v
  | .fillEarlier slot v => fillSlot d slot v

section

variable {r rec} {P : Sketch Wire → Prop} (hplain : ∀ v, P (plain r v)) (hvalue : ∀ v, P (rec v))
  (hdetached : ∀ v, P (detached (rec v)))

include hplain hvalue hdetached

/-- A call on a raw section leaves a place open, fills one in, or adds bytes as they are or those of a
    value. -/
theorem gives_rawCall {first : Nat} {d d' : RawDraft} {op : RawOp} {st st' : Progress}
    (h : Gives (rawCall r rec first d op) st d' st') :
    (op = .reserve ∧ d' = d.reserve ∧ st' = { st with place := st.place + 4 }) ∨
    (∃ slot v offset, op ≠ .reserve ∧ op.slot? first = some slot ∧ d.slots[slot]? = some offset ∧
      d' = d.fill offset (Word.bytes (v : Int32)) ∧ st' = st) ∨
    (op ≠ .reserve ∧ op.slot? first = none) ∧
      ((∃ bs, d' = d.add bs ∧ st' = { st with place := st.place + bs.length }) ∨
        ∃ x w, P x ∧ Gives x st w st' ∧ d' = d.add w.bytes) := by
  -- Texts, values and detached values are all sketched first and then added.
  have hadds : ∀ {x : Sketch Wire}, P x → Gives (do return d.add (← x).bytes) st d' st' →
      ∃ x w, P x ∧ Gives x st w st' ∧ d' = d.add w.bytes := by
    intro x hx h
    simp only [gives_bind, gives_pure] at h
    obtain ⟨w, _, hw, rfl, rfl⟩ := h
    exact ⟨x, w, hx, hw, rfl⟩
  cases op with
  | reserve =>
    simp only [rawCall, gives_bind, gives_advance, gives_pure] at h
    obtain ⟨_, _, rfl, rfl, rfl⟩ := h
    exact .inl ⟨rfl, rfl, rfl⟩
  | fill slot v =>
    obtain ⟨offset, hs, rfl, rfl⟩ := gives_fillSlot.mp h
    exact .inr (.inl ⟨first + slot, v, offset, by simp, rfl, hs, rfl, rfl⟩)
  | fillEarlier slot v =>
    obtain ⟨offset, hs, rfl, rfl⟩ := gives_fillSlot.mp h
    exact .inr (.inl ⟨slot, v, offset, by simp, rfl, hs, rfl, rfl⟩)
  | text v => exact .inr (.inr ⟨⟨by simp, rfl⟩, .inr (hadds (hplain _) h)⟩)
  | value v => exact .inr (.inr ⟨⟨by simp, rfl⟩, .inr (hadds (hvalue v) h)⟩)
  | detached v => exact .inr (.inr ⟨⟨by simp, rfl⟩, .inr (hadds (hdetached v) h)⟩)
  | _ => exact .inr (.inr ⟨⟨by simp, rfl⟩, .inl ⟨_, (gives_loose ..).mp h⟩⟩)

end

/-- Calls on a raw section. -/
def rawCalls (first : Nat) (d : RawDraft) : List RawOp → Sketch RawDraft
  | [] => return d
  | op :: ops => do rawCalls first (← rawCall r rec first d op) ops

/-- Calls on the raw section of an object.  They go on with the section where earlier calls left it. -/
def raw (ops : List RawOp) (d : Draft) : Sketch Draft := do
  let made ← rawCalls r rec d.rawSoFar.slots.length d.rawSoFar ops
  return { d with raw := some made }

/-- Calls on the raw section begin it, or go on with it where it was. -/
theorem gives_raw {r : Registry} {rec : Value → Sketch Wire} {ops : List RawOp} {d d' : Draft}
    {st st' : Progress} :
    Gives (raw r rec ops d) st d' st' ↔
      ∃ made, Gives (rawCalls r rec d.rawSoFar.slots.length d.rawSoFar ops) st made st' ∧
        d' = { d with raw := some made } := by
  simp only [raw, gives_bind, gives_pure]
  constructor
  · intro hparts
    obtain ⟨made, _, hmade, rfl, rfl⟩ := hparts
    exact ⟨made, hmade, rfl⟩
  · intro hparts
    obtain ⟨made, hmade, rfl⟩ := hparts
    exact ⟨made, st', hmade, rfl, rfl⟩

/-- A field with its value.  There is none behind the raw section, and none of an id for the second
    time. -/
def field (start : Nat) (id : Int32) (fold : Bool) (value : Sketch Wire) (d : Draft) :
    Sketch Draft := do
  guard (d.raw.isNone ∧ ∀ f ∈ d.fields, f.id ≠ id)
  let here ← place
  let w ← value
  return { d with
    fields := d.fields ++ [⟨id, here - start, ← place, w⟩]
    schemaId := if fold then SchemaId.push d.schemaId id else d.schemaId }

/-- The value of a typed field. -/
def typed (v : TypedField) : Sketch Wire :=
  match v.toValue with
  | .plain v => plain r v
  | v => rec v

/-- A call on the writer of an object.  Calls on the session around the object have no place in an
    object's image, nor do calls that may fail. -/
def call (start : Nat) (d : Draft) : ObjectOp → Sketch Draft
  | .typed name v => field start (NameId.ofName name) true (typed r rec v) d
  | .field name v => field start (NameId.ofName name) true (rec v) d
  | .fieldId id v => field start id true (rec v) d
  | .fieldIdUnfolded id v => field start id false (rec v) d
  | .detached name v => field start (NameId.ofName name) true (detached (rec v)) d
  | .setSchemaId id => return { d with schemaId := id }
  | .schema => return d
  | .raw ops => raw r rec ops d
  | .session _ | .attempt _ => failure

/-- A call on the writer of an object adds a field, adds to the raw section, or sets the schema id at
    most. -/
theorem gives_call {r : Registry} {rec : Value → Sketch Wire} {P : Sketch Wire → Prop}
    (hplain : ∀ v, P (plain r v)) (hvalue : ∀ v, P (rec v)) (hdetached : ∀ v, P (detached (rec v)))
    {start : Nat} {d d' : Draft} {op : ObjectOp} {st st' : Progress}
    (h : Gives (call r rec start d op) st d' st') :
    (∃ id fold y, P y ∧ Gives (field start id fold y d) st d' st') ∨
      (∃ ops, Gives (raw r rec ops d) st d' st') ∨
      ∃ schemaId, d' = { d with schemaId } ∧ st' = st := by
  cases op with
  | typed name v =>
    -- A typed field holds a plain value or a reference, and is sketched as either.
    have htyped : P (typed r rec v) := by
      unfold typed
      split
      · exact hplain _
      · exact hvalue _
    exact .inl ⟨_, _, _, htyped, h⟩
  | field name v => exact .inl ⟨_, _, _, hvalue v, h⟩
  | fieldId id v => exact .inl ⟨_, _, _, hvalue v, h⟩
  | fieldIdUnfolded id v => exact .inl ⟨_, _, _, hvalue v, h⟩
  | detached name v => exact .inl ⟨_, _, _, hdetached v, h⟩
  | raw ops => exact .inr (.inl ⟨ops, h⟩)
  | setSchemaId id =>
    obtain ⟨rfl, rfl⟩ := (gives_pure ..).mp h
    exact .inr (.inr ⟨id, rfl, rfl⟩)
  | schema =>
    obtain ⟨rfl, rfl⟩ := (gives_pure ..).mp h
    exact .inr (.inr ⟨d.schemaId, rfl, rfl⟩)
  | session _ => exact (gives_failure _ _ _ h).elim
  | attempt _ => exact (gives_failure _ _ _ h).elim

/-- Calls on the writer of an object. -/
def calls (start : Nat) (d : Draft) : List ObjectOp → Sketch Draft
  | [] => return d
  | op :: ops => do calls start (← call r rec start d op) ops

/-- The object that was made from `start` on.  Every place in its raw section is filled in, since one that
    is not would show what lay there before. -/
def finish (start : Nat) (typeId : Int32) (name : Option Bytes) (userType : Bool) (d : Draft) :
    Sketch Wire := do
  guard d.isClosed
  let dataEnd ← place
  let compact := userType && r.config.compactFooter
  advance (d.tailLength compact)
  let stop ← place
  guard (stop - start ≤ maxWireLength)
  let hashCode := if r.config.identityHash then identityHash d.data else 0
  let header := d.header typeId userType compact (dataEnd - start) (stop - start) hashCode
  return .object start header name (d.fields.map (·.shown compact)) d.rawBytes?

/-- An object is finished if no place of it is open and it is short enough, and its image is then known
    in full. -/
theorem gives_finish (start : Nat) (typeId : Int32) (name : Option Bytes) (userType compact : Bool)
    (d : Draft) (st st' : Progress) (w : Wire)
    (hcompact : (userType && r.config.compactFooter) = compact) :
    Gives (finish r start typeId name userType d) st w st' ↔
      (d.isClosed = true ∧ st.place + d.tailLength compact - start ≤ maxWireLength) ∧
        w = .object start (d.header typeId userType compact (st.place - start)
          (st.place + d.tailLength compact - start)
          (if r.config.identityHash then identityHash d.data else 0)) name
          (d.fields.map (·.shown compact)) d.rawBytes? ∧
        st' = { st with place := st.place + d.tailLength compact } := by
  simp only [finish, gives_bind, gives_place, gives_advance, gives_guard, gives_pure, hcompact]
  -- Both directions take the object's end step by step: closed, its place, its tail, and its length.
  constructor
  · intro hparts
    obtain ⟨_, _, ⟨hclosed, rfl⟩, _, _, ⟨rfl, rfl⟩, _, _, rfl, _, _, ⟨rfl, rfl⟩, _, _, ⟨hmax, rfl⟩,
      rfl, rfl⟩ := hparts
    exact ⟨⟨hclosed, hmax⟩, rfl, rfl⟩
  · intro hparts
    obtain ⟨⟨hclosed, hmax⟩, rfl, rfl⟩ := hparts
    exact ⟨(), _, ⟨hclosed, rfl⟩, _, _, ⟨rfl, rfl⟩, (), _, rfl, _, _, ⟨rfl, rfl⟩, (), _, ⟨hmax, rfl⟩,
      rfl, rfl⟩

/-- An object: its header, its name if it has no id, and what the calls make. -/
def frame (typeId : Int32) (name : Option Bytes) (userType : Bool) (ops : List ObjectOp) :
    Sketch Wire := do
  let start ← place
  guard (name.all fun text => text.length ≤ maxWireLength)
  -- The header is made last, but its room is taken first.
  advance (Header.size + (name.elim [] nameBytes).length)
  let d ← calls r rec start {} ops
  finish r start typeId name userType d

end

end Image

/-- The calls that write a user object.  A dynamic object writes its fields in order and then its raw
    section. -/
def UserObject.calls : UserObject → List ObjectOp
  | .dynamic o =>
    o.fields.map (fun (name, v) => .field name v) ++ o.raw.toList.map fun bs => .raw [.bytes bs]
  | .programmed o => o.program

namespace Image

section

variable (r : Registry) (rec : Value → Sketch Wire)

/-- A user object that stands for itself. -/
def object (o : UserObject) : Sketch Wire :=
  match r.types.find? o.typeName with
  | some entry => frame r rec entry.typeId none entry.userType o.calls
  | none => frame r rec unregisteredTypeId (some (text r o.typeName)) true o.calls

/-- The value that a replacement stands for, with the nodes that it brings with it. -/
def instantiate (replacement : Replacement) : Sketch Value := do
  let (v, graph) := (← get).graph.instantiate replacement
  modify fun st => { st with graph }
  return v

/-- A replacement is the value it stands for, in a graph with the nodes that it brings. -/
@[simp] theorem gives_instantiate (replacement : Replacement) (st st' : Progress) (v : Value) :
    Gives (instantiate replacement) st v st' ↔
      (st.graph.instantiate replacement).1 = v ∧
        { st with graph := (st.graph.instantiate replacement).2 } = st' := by
  simp only [instantiate, gives_bind, gives_get, gives_modify, gives_pure]
  constructor
  · intro hparts
    obtain ⟨_, _, ⟨rfl, rfl⟩, _, _, rfl, rfl, rfl⟩ := hparts
    exact ⟨rfl, rfl⟩
  · intro hparts
    obtain ⟨rfl, rfl⟩ := hparts
    exact ⟨st, st, ⟨rfl, rfl⟩, (), _, rfl, rfl, rfl⟩

/-- A value in the place of an object.  An object there is not asked for a replacement of its own. -/
def substitute (v : Value) : Sketch Wire := do
  match v with
  | .ref other =>
    match (← get).graph.object? other with
    | some o => tracked other (object r rec o)
    | none => rec v
  | v => rec v

/-- In the place of an object stands another object as it is, or any other value. -/
theorem gives_substitute {v : Value} {st st' : Progress} {w : Wire} :
    Gives (substitute r rec v) st w st' ↔
      (∃ other o, v = .ref other ∧ st.graph.object? other = some o ∧
        Gives (tracked other (object r rec o)) st w st') ∨
      (∀ other, v = .ref other → st.graph.object? other = none) ∧ Gives (rec v) st w st' := by
  cases v with
  | ref other =>
    simp only [substitute, gives_bind, gives_get]
    -- Only a reference to an object is met under its own number.
    constructor
    · intro hparts
      obtain ⟨_, _, ⟨rfl, rfl⟩, hw⟩ := hparts
      split at hw
      · next o ho => exact .inl ⟨other, o, rfl, ho, hw⟩
      · next hnone => exact .inr ⟨fun _ h => Value.ref.inj h ▸ hnone, hw⟩
    · intro hparts
      refine ⟨st, st, ⟨rfl, rfl⟩, ?_⟩
      obtain ⟨_, o, hother, ho, hw⟩ | ⟨hnone, hw⟩ := hparts
      · cases hother
        rw [ho]
        exact hw
      · rw [hnone other rfl]
        exact hw
  | _ => simp [substitute]

/-- A user object, or the value that takes its place. -/
def objectNode (id : NodeId) (o : UserObject) : Sketch Wire := do
  match o.replacement with
  | none => tracked id (object r rec o)
  | some replacement =>
    note (.replaced id (← place))
    substitute r rec (← instantiate replacement)

/-- An object that another value takes the place of gets a line in the log, but none as a node in full. -/
theorem gives_replaced {id : NodeId} {o : UserObject} {replacement : Replacement} {st st' : Progress}
    {w : Wire} (h : o.replacement = some replacement) :
    Gives (objectNode r rec id o) st w st' ↔
      Gives (substitute r rec (st.graph.instantiate replacement).1)
        { st with
          graph := (st.graph.instantiate replacement).2
          log := .replaced id st.place :: st.log } w st' := by
  simp only [objectNode, h, gives_bind, gives_place, gives_note, gives_instantiate]
  constructor
  · intro hparts
    obtain ⟨_, _, ⟨rfl, rfl⟩, _, _, rfl, _, _, ⟨rfl, rfl⟩, hw⟩ := hparts
    exact hw
  · exact fun hw => ⟨_, _, ⟨rfl, rfl⟩, (), _, rfl, _, _, ⟨rfl, rfl⟩, hw⟩

/-- A node. -/
def node (id : NodeId) : Node → Sketch Wire
  | .object o => objectNode r rec id o
  | .array componentType items =>
    tracked id (list rec (.objectArray (typeRef r componentType)) items)
  | .collection typeName items =>
    tracked id (list rec (.collection (r.collectionKind typeName).code) items)
  | .map typeName entries =>
    tracked id (list rec (.map (r.mapKind typeName).code)
      (entries.flatMap fun (key, value) => [key, value]))
  | .proxy interfaces handler => list rec (.proxy (interfaces.map (typeRef r))) [handler]

/-- A value, given the images of the values inside it. -/
def valueWith : Value → Sketch Wire
  | .plain v => plain r v
  | .enum v => atom (enumAtom r v)
  | .enumArray typeName items =>
    list (fun item => atom (item.elim .null (enumAtom r))) (.enumArray (typeRef r typeName)) items
  | .binaryEnum v =>
    atom (.binaryEnum v.typeId
      (if v.typeId = unregisteredTypeId then v.typeName.map (text r) else none) v.ordinal)
  | .classRef typeName => atom (.classRef (typeRef r typeName))
  | .ref id => do
    match (← get).graph.node? id with
    | some n => node r rec id n
    | none => failure

/-- A reference is the node that it leads to. -/
theorem gives_ref {id : NodeId} {st st' : Progress} {w : Wire} :
    Gives (valueWith r rec (.ref id)) st w st' ↔
      ∃ n, st.graph.node? id = some n ∧ Gives (node r rec id n) st w st' := by
  simp only [valueWith, gives_bind, gives_get]
  constructor
  · intro hparts
    obtain ⟨_, _, ⟨rfl, rfl⟩, hw⟩ := hparts
    split at hw
    · next n hn => exact ⟨n, hn, hw⟩
    · exact (gives_failure _ _ _ hw).elim
  · intro hparts
    obtain ⟨n, hn, hw⟩ := hparts
    refine ⟨st, st, ⟨rfl, rfl⟩, ?_⟩
    rw [hn]
    exact hw

/-- The image of a value nested down to some depth. -/
def value : (depth : Nat) → Value → Sketch Wire
  | 0, _ => failure
  | depth + 1, v => valueWith r (value depth) v

end

end Image

/-- `w` is what a reader sees of the value `v`, written with the options and the registered types of
    `r` and with nothing written before it. -/
def Wire.IsImage (r : Registry) (g : Graph) (v : Value) (w : Wire) : Prop :=
  ∃ depth st, Gives (Image.value r depth v) { place := 0, graph := g } w st

end ObjectWire
