/-!
# Little-endian bytes

Everything on the wire is a string of bytes, and every fixed-width word is written least significant
byte first.  `LittleEndian.encode` gives the bytes of a number at a width, `LittleEndian.decode` reads
them back, and writing what was read gives the same bytes (`encode_decode`).  `Word` collects the types
that have one such fixed-width form.
-/

namespace ObjectWire

/-- A string of bytes. -/
abbrev Bytes := List UInt8

namespace LittleEndian

/-- The `width` low-order bytes of a number, least significant first. -/
def encode : (width : Nat) → Nat → Bytes
  | 0, _ => []
  | width + 1, n => UInt8.ofNat n :: encode width (n / 256)

/-- The number whose bytes are given, least significant first. -/
def decode : Bytes → Nat
  | [] => 0
  | b :: bs => b.toNat + 256 * decode bs

/-- A number takes as many bytes as it is given, however large it is. -/
@[simp] theorem length_encode (width n : Nat) : (encode width n).length = width := by
  induction width generalizing n with
  | zero => rfl
  | succ width ih => simp [encode, ih]

/-- Every string of bytes is the written form of the number it reads as. -/
theorem encode_decode (bs : Bytes) : encode bs.length (decode bs) = bs := by
  induction bs with
  | nil => rfl
  | cons b bs ih =>
    have hb := b.toNat_lt
    have hd : (b.toNat + 256 * decode bs) / 256 = decode bs := by omega
    have hm : UInt8.ofNat (b.toNat + 256 * decode bs) = b := by
      apply UInt8.toNat_inj.mp
      simp only [UInt8.toNat_ofNat']
      omega
    simp only [List.length_cons, encode, decode, hd, hm, ih]

end LittleEndian

/-- An IEEE 754 number of single precision, kept as its bit pattern so that every NaN survives. -/
structure Single where
  bits : UInt32
deriving DecidableEq, Repr, Inhabited

/-- An IEEE 754 number of double precision, kept as its bit pattern so that every NaN survives. -/
structure Double where
  bits : UInt64
deriving DecidableEq, Repr, Inhabited

/-- A type of words that all have the same number of bytes. -/
class Word (α : Type) where
  /-- Number of bytes of a word. -/
  width : Nat
  /-- The word's bit pattern as a number. -/
  pattern : α → Nat

namespace Word

/-- The bytes of a word on the wire. -/
def bytes {α : Type} [Word α] (x : α) : Bytes :=
  LittleEndian.encode (width α) (pattern x)

/-- A word takes up its width. -/
@[simp] theorem length_bytes {α : Type} [Word α] (x : α) : (bytes x).length = width α := by
  simp [bytes]

instance : Word UInt8 := ⟨1, UInt8.toNat⟩
instance : Word UInt16 := ⟨2, UInt16.toNat⟩
instance : Word UInt32 := ⟨4, UInt32.toNat⟩
instance : Word UInt64 := ⟨8, UInt64.toNat⟩
instance : Word Int16 := ⟨2, fun x => x.toUInt16.toNat⟩
instance : Word Int32 := ⟨4, fun x => x.toUInt32.toNat⟩
instance : Word Int64 := ⟨8, fun x => x.toUInt64.toNat⟩
instance : Word Single := ⟨4, fun x => x.bits.toNat⟩
instance : Word Double := ⟨8, fun x => x.bits.toNat⟩
/-- A truth value is one byte, `0` or `1`. -/
instance : Word Bool := ⟨1, fun b => if b then 1 else 0⟩

end Word

end ObjectWire
