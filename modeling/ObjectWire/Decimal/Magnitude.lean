import ObjectWire.Decimal.Basic

/-!
# Magnitudes of decimals

On the wire the unscaled integer is a sign and a magnitude: the bytes of the absolute value, most
significant first, just wide enough to leave the top bit of the first byte clear, which then holds the
sign.
-/

namespace ObjectWire.Decimal

/-- Number of binary digits of a number. -/
def bitLength (n : Nat) : Nat := if n = 0 then 0 else n.log2 + 1

/-- The fewest bytes that hold a number and leave a bit for the sign. -/
def magnitudeWidth (n : Nat) : Nat := bitLength n / 8 + 1

/-- A first byte with the sign put into its top bit. -/
def withSign (negative : Bool) (first : UInt8) : UInt8 :=
  if negative then first ||| 0x80 else first

/-- The unscaled integer's bytes on the wire. -/
def magnitude (d : Decimal) : Bytes :=
  let n := d.unscaled.natAbs
  match (LittleEndian.encode (magnitudeWidth n) n).reverse with
  | [] => []
  | first :: rest => withSign d.isNegative first :: rest

/-- The decimal of a scale and the bytes of its unscaled integer.  No bytes stand for zero, and zero
    has no sign. -/
def ofMagnitude (scale : Int32) : Bytes → Decimal
  | [] => ⟨0, scale⟩
  | first :: rest =>
    let n := LittleEndian.decode ((first &&& 0x7F) :: rest).reverse
    ⟨if first &&& 0x80 ≠ 0 then -(n : Int) else n, scale⟩

end ObjectWire.Decimal
