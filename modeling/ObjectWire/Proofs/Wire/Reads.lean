import ObjectWire.Proofs.LittleEndian
import ObjectWire.Proofs.Partial
import ObjectWire.Proofs.Wire.Fits
import ObjectWire.Proofs.Wire.Reader

/-!
# Reading words, types and heads

`Reads bs x seg a` says that the reader `x` reads `a` off the bytes `seg` wherever these stand in `bs`, and
goes on directly behind them.  Readers in sequence read bytes one behind the other (`Reads.bind`), so what
was put together as a sequence of parts is read back part by part.
-/

namespace ObjectWire

namespace Reader

/-- The bytes `seg` stand at a place of `bs`. -/
def Holds (bs : Bytes) (place : Nat) (seg : Bytes) : Prop :=
  place ≤ bs.length ∧ seg <+: bs.drop place

/-- What stands at a place lies within the bytes. -/
theorem Holds.length_le {bs seg : Bytes} {place : Nat} (h : Holds bs place seg) :
    place + seg.length ≤ bs.length := by
  have hle := h.2.length_le
  rw [List.length_drop] at hle
  have := h.1
  omega

theorem holds_self (bs : Bytes) : Holds bs 0 bs := ⟨Nat.zero_le _, by simp⟩

/-- Two strings stand one behind the other if each stands at its place. -/
theorem holds_append {bs as cs : Bytes} {place : Nat} :
    Holds bs place (as ++ cs) ↔ Holds bs place as ∧ Holds bs (place + as.length) cs := by
  constructor
  · intro h
    have hlen := h.length_le
    rw [List.length_append] at hlen
    obtain ⟨-, rest, hrest⟩ := h
    refine ⟨⟨by omega, cs ++ rest, by rw [← List.append_assoc, hrest]⟩, by omega, rest, ?_⟩
    rw [← List.drop_drop, ← hrest, List.append_assoc, List.drop_left]
  · intro hparts
    obtain ⟨⟨hle, rest, hrest⟩, -, rest', hrest'⟩ := hparts
    -- What stands behind the first part begins with the second one.
    refine ⟨hle, rest', ?_⟩
    rw [← List.drop_drop, ← hrest, List.drop_left] at hrest'
    rw [List.append_assoc, hrest', hrest]

section

variable {bs : Bytes} {α β : Type}

/-- `x` reads `a` off `seg`. -/
def Reads (bs : Bytes) (x : Reader α) (seg : Bytes) (a : α) : Prop :=
  ∀ place, Holds bs place seg → Gives x place a (place + seg.length)

theorem Reads.pure (a : α) : Reads bs (pure a) [] a := fun _ _ => (gives_pure ..).mpr ⟨rfl, rfl⟩

/-- What the second reader reads may depend on what the first one read, and stands behind it. -/
theorem Reads.bind {x : Reader α} {f : α → Reader β} {as cs : Bytes} {a : α} {b : β}
    (hx : Reads bs x as a) (hf : Reads bs (f a) cs b) : Reads bs (x >>= f) (as ++ cs) b := by
  intro place h
  obtain ⟨h₁, h₂⟩ := holds_append.mp h
  refine (gives_bind ..).mpr ⟨a, _, hx place h₁, ?_⟩
  -- The second reader begins where the first one ends.
  rw [List.length_append, ← Nat.add_assoc]
  exact hf _ h₂

/-- The last reader of a sequence. -/
theorem Reads.last {x : Reader α} {f : α → Reader β} {as : Bytes} {a : α} {b : β}
    (hx : Reads bs x as a) (hf : Reads bs (f a) [] b) : Reads bs (x >>= f) as b := by
  have := hx.bind hf
  rwa [List.append_nil] at this

theorem Reads.map {x : Reader α} {seg : Bytes} {a : α} (f : α → β) (hx : Reads bs x seg a) :
    Reads bs (f <$> x) seg (f a) :=
  fun place h => (gives_map ..).mpr ⟨a, hx place h, rfl⟩

/-- A reader of a number of bytes reads as many. -/
theorem reads_take {seg : Bytes} {n : Nat} (hn : n = seg.length) : Reads bs (take bs n) seg seg := by
  intro place h
  subst hn
  unfold Gives take
  rw [if_pos h.length_le]
  obtain ⟨-, rest, hrest⟩ := h
  rw [← hrest, List.take_left]

/-- A number is read off its bytes. -/
theorem reads_number (width : Nat) {n : Nat} (h : n < 256 ^ width) :
    Reads bs (number bs width) (LittleEndian.encode width n) n := by
  have htake : Reads bs (take bs width) (LittleEndian.encode width n) _ := reads_take (by simp)
  have hread := htake.map LittleEndian.decode
  rwa [LittleEndian.decode_encode, Nat.mod_eq_of_lt h] at hread

/-- A word of one byte is that byte. -/
theorem reads_u8 (v : UInt8) : Reads bs (u8 bs) (Word.bytes v) v := by
  have hn : Reads bs (number bs 1) (Word.bytes v) v.toNat := reads_number 1 v.toNat_lt
  have h := hn.map UInt8.ofNat
  rwa [UInt8.ofNat_toNat] at h

theorem reads_u16 (v : UInt16) : Reads bs (u16 bs) (Word.bytes v) v := by
  have hn : Reads bs (number bs 2) (Word.bytes v) v.toNat := reads_number 2 v.toNat_lt
  have h := hn.map UInt16.ofNat
  rwa [UInt16.ofNat_toNat] at h

theorem reads_u32 (v : UInt32) : Reads bs (u32 bs) (Word.bytes v) v := by
  have hn : Reads bs (number bs 4) (Word.bytes v) v.toNat := reads_number 4 v.toNat_lt
  have h := hn.map UInt32.ofNat
  rwa [UInt32.ofNat_toNat] at h

theorem reads_u64 (v : UInt64) : Reads bs (u64 bs) (Word.bytes v) v := by
  have hn : Reads bs (number bs 8) (Word.bytes v) v.toNat := reads_number 8 v.toNat_lt
  have h := hn.map UInt64.ofNat
  rwa [UInt64.ofNat_toNat] at h

theorem reads_i16 (v : Int16) : Reads bs (i16 bs) (Word.bytes v) v :=
  (reads_u16 v.toUInt16).map UInt16.toInt16

/-- A word with a sign is read as the word without one of the same bits. -/
theorem reads_i32 (v : Int32) : Reads bs (i32 bs) (Word.bytes v) v :=
  (reads_u32 v.toUInt32).map UInt32.toInt32

theorem reads_i64 (v : Int64) : Reads bs (i64 bs) (Word.bytes v) v :=
  (reads_u64 v.toUInt64).map UInt64.toInt64

/-- A count in range is read back as the number that it is. -/
theorem reads_count {n : Nat} (h : n ≤ maxWireLength) : Reads bs (count bs) (countBytes n) n := by
  apply (reads_i32 (Int32.ofNat n)).last
  -- A count that can be written is not negative when it is read.
  have hn := toInt_ofNat h
  rw [if_pos (by omega), hn, Int.toNat_natCast]
  exact .pure n

/-- No two tags have the same code. -/
theorem reads_tag (t : Tag) : Reads bs (tag bs) [t.code] t := by
  rw [← Word.bytes_byte]
  apply (reads_u8 t.code).last
  rw [Tag.ofCode?_code]
  exact .pure t

theorem reads_payload {text : Bytes} (h : text.length ≤ maxWireLength) :
    Reads bs (payload bs) (textPayload text) text :=
  (reads_count h).bind (reads_take rfl)

/-- A text is read back behind its tag. -/
theorem reads_text {name : Bytes} (h : name.length ≤ maxWireLength) :
    Reads bs (text bs) (nameBytes name) name := by
  apply (reads_tag .string).bind
  rw [if_pos rfl]
  exact reads_payload h

/-- A type is an id, or the id that stands for none with a name behind it. -/
theorem reads_typeRef {type : TypeRef} (h : type.Fits) : Reads bs (typeRef bs) type.bytes type := by
  cases type with
  | id typeId =>
    -- An id that announces no name is the type itself.
    apply (reads_i32 typeId).last
    rw [if_neg h]
    exact .pure _
  | name text =>
    apply (reads_i32 unregisteredTypeId).bind
    rw [if_pos rfl]
    exact (reads_text h).last (.pure _)

/-- Repeated as often as there are values, a reader reads one after the other. -/
theorem reads_times {x : Reader α} {f : α → Bytes} {as : List α} (h : ∀ a ∈ as, Reads bs x (f a) a) :
    Reads bs (times x as.length) (as.flatMap f) as := by
  induction as with
  | nil => exact .pure []
  | cons a as ih =>
    have hrest := ih fun b hb => h b (List.mem_cons_of_mem _ hb)
    rw [List.flatMap_cons]
    exact (h a (List.mem_cons_self ..)).bind (hrest.last (.pure _))

/-- What may be absent is read if it is there. -/
theorem reads_optional {present : Prop} [Decidable present] {x : Reader α} {f : α → Bytes}
    {a : Option α} (h : present ↔ a.isSome) (hx : ∀ b ∈ a, Reads bs x (f b) b) :
    Reads bs (optional present x) (a.elim [] f) a := by
  unfold optional
  cases a with
  | none =>
    rw [if_neg (by simpa using h)]
    exact .pure none
  | some b =>
    rw [if_pos (by simpa using h)]
    exact (hx b rfl).map some

/-- Reading at another place and coming back. -/
theorem gives_lookup {x : Reader α} {here place stop : Nat} {a : α} (h : Gives x place a stop) :
    Gives (lookup place x) here (a, stop) here := by
  simp only [lookup, gives_bind, gives_get, gives_set, gives_pure]
  exact ⟨here, here, ⟨rfl, rfl⟩, (), place, rfl, a, stop, h, stop, stop, ⟨rfl, rfl⟩, (), here, rfl, rfl,
    rfl⟩

end

end Reader

end ObjectWire
